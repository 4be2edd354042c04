import Decompilation.Proofs.Project.Skeleton
import Decompilation.Proofs.Service.Layout

/-!
# The files of units below a folder

The jobs of the units of a text are told by what leads to their files from the root of the project
(`jobs_eq`). Where no two units have one folder no two jobs have one file (`nodup_projectJobs`), and
jobs that are done below a folder in which their files are new leave it with their files in order
(`holds_runJobs`).
-/

namespace Decompilation.Service

open Act (bind_ok exists_of_bind_ok)
open Disk (Ordinary)
open Files (Direct)
open Project (Added Holds IsFilePath IsUnitName New TypePlace folderParts unitFolder)
open Source (Division divide splitTypes)

variable {d : Division} {root : Path} {u u' : String × List Char} {n : String} {m m' : Machine}
  {q : Place} {files : List (List String × List Char)} {done done' : Progress} {j : Job}
  {js : List Job}

/-- A job whose file is below a root. -/
def under (root : Path) (j : Job) : Job :=
  { j with path := { root with segments := root.segments ++ j.path.segments } }

/-- The jobs of a unit, with paths from the root of the project. -/
abbrev unitJobs (d : Division) (u : String × List Char) : List Job := jobs d ⟨.here, []⟩ u

theorem unitFolder_eq_append (root : Path) (h : IsUnitName n) : unitFolder root n =
    { root with segments := root.segments ++ (unitFolder ⟨.here, []⟩ n).segments } := by
  rw [Project.unitFolder_eq root (h.not_mem rfl), Project.unitFolder_eq _ (h.not_mem rfl)]
  rfl

theorem child_unitFolder (root : Path) (h : IsUnitName n) (f : String) :
    (unitFolder root n).child f =
      { root with segments := root.segments ++ ((unitFolder ⟨.here, []⟩ n).child f).segments } := by
  rw [unitFolder_eq_append root h, Path.child, Path.child]
  simp only [List.append_assoc]

/-- The jobs of a unit with their paths told from the root of the project. -/
theorem jobs_eq (root : Path) (h : IsUnitName u.1) :
    jobs d root u = (unitJobs d u).map (under root) := by
  have hkeys : (splitTypes u.2).keys = (splitTypes u.2).toList.map Prod.fst := rfl
  unfold unitJobs jobs
  cases htypes : (splitTypes u.2).toList with
  | nil =>
    simp only [List.map_cons, List.map_nil, under, div_wholeUnitName, child_unitFolder root h]
  | cons t types =>
    simp only [List.map_map]
    apply List.map_congr_left
    intro t' ht'
    have hmem : t'.1 ∈ (splitTypes u.2).keys := by
      rw [hkeys, htypes]
      exact List.mem_map_of_mem ht'
    simp only [Function.comp_apply, under, div_typeName _ hmem, child_unitFolder root h]

/-- What leads to the files of a unit from the root of the project. -/
theorem map_segments_unitJobs (h : IsUnitName u.1) :
    (unitJobs d u).map (fun j => j.path.segments) =
      (fileNames u).map fun f => folderParts u.1 ++ [f] := by
  have hjobs : (unitJobs d u).map Job.path =
      (fileNames u).map fun f => (unitFolder ⟨.here, []⟩ u.1).child f := map_path_jobs
  have hpaths := congrArg (List.map Path.segments) hjobs
  rw [List.map_map, List.map_map, Project.unitFolder_eq _ (h.not_mem rfl)] at hpaths
  exact hpaths

theorem exists_of_mem_unitJobs (h : IsUnitName u.1) (hj : j ∈ unitJobs d u) :
    ∃ f ∈ fileNames u, j.path.segments = folderParts u.1 ++ [f] := by
  have hmem : j.path.segments ∈ (fileNames u).map fun f => folderParts u.1 ++ [f] := by
    rw [← map_segments_unitJobs (d := d) h]
    exact List.mem_map_of_mem hj
  obtain ⟨f, hf, heq⟩ := List.mem_map.1 hmem
  exact ⟨f, hf, heq.symm⟩

/-! ## Names of files -/

theorem exists_stem_of_mem_fileNames {f : String} (hf : f ∈ fileNames u) :
    ∃ t, f = t ++ ".cs" ∧ ∀ c ∈ t.toList, Source.isWord c = true := by
  unfold fileNames at hf
  split at hf
  · rw [List.mem_singleton.1 hf, wholeUnitName]
    split
    · exact ⟨"Global", by decide, List.all_eq_true.1 (by decide)⟩
    · exact ⟨"Namespace", by decide, List.all_eq_true.1 (by decide)⟩
  · obtain ⟨t, ht, rfl⟩ := List.mem_map.1 hf
    exact ⟨t, rfl, Source.isWord_of_mem_splitTypes ht⟩

theorem nodup_fileNames (u : String × List Char) : (fileNames u).Nodup := by
  unfold fileNames
  split
  · exact List.nodup_singleton _
  · apply (splitTypes u.2).nodup.map
    intro t t' h
    rw [← String.toList_inj, String.toList_append, String.toList_append,
      List.append_cancel_right_eq] at h
    exact String.toList_inj.1 h

theorem isFilePath_of_mem_unitJobs (h : IsUnitName u.1) (hj : j ∈ unitJobs d u) :
    IsFilePath j.path.segments := by
  obtain ⟨f, hf, heq⟩ := exists_of_mem_unitJobs h hj
  rw [heq]
  refine ⟨by simp, fun name hname => ?_, fun name hname => ?_⟩
  · rcases List.mem_append.1 hname with hname | hname
    · exact (h.of_mem_folderParts hname).1
    · obtain ⟨t, rfl, -⟩ := exists_stem_of_mem_fileNames hf
      rw [List.mem_singleton.1 hname]
      exact Project.ordinary_append t
  · rw [List.dropLast_concat] at hname
    exact (h.of_mem_folderParts hname).2.1

/-! ## Jobs done -/

/-- A job's file, by what leads to it from the root of the project. -/
def Job.file (j : Job) : List String × List Char := (j.path.segments, j.text)

/-- The place of a job's type, if it has one. -/
def Job.place? (j : Job) : Option TypePlace :=
  j.typeName.map fun t => ⟨j.unit, t, Path.segmentText j.path.segments⟩

/-- A job below a root writes its file and tells the place of its type, if it has one. -/
theorem runJob_under (hne : j.path.segments ≠ []) (root : Path) (done : Progress) :
    runJob root done (under root j) = (do
      let done ← writeBelow root { root with segments := root.segments ++ j.path.segments } j.text done
      return { done with types := done.types ++ j.place?.toList }) := by
  rw [runJob]
  refine bind_congr fun done => ?_
  cases htype : j.typeName with
  | none =>
    rw [under, Job.place?, htype, Option.map_none, Option.toList_none, List.append_nil]
  | some t =>
    rw [under, Job.place?, htype]
    exact funext fun m => bind_ok (Project.relative_append root hne m) _

theorem holds_writeBelow {names : List String} {text : List Char} (h : Holds m root q files)
    (hroot : Direct root) (hnew : New files names) (hrun : writeBelow root
      { root with segments := root.segments ++ names } text done m = .ok done' m') :
    done' = { done with written := done.written ++ [Path.segmentText names] } ∧
      Holds m' root q (files ++ [(names, text)]) ∧ Added m m' q := by
  rw [writeBelow] at hrun
  obtain ⟨written, m₁, hwrite, hdone⟩ := exists_of_bind_ok hrun
  obtain ⟨rfl, h₁, hadded⟩ := h.writeAndList hroot hnew hwrite
  cases hdone
  exact ⟨rfl, h₁, hadded⟩

theorem holds_runJob (h : Holds m root q files) (hroot : Direct root)
    (hnew : New files j.path.segments) (hrun : runJob root done (under root j) m = .ok done' m') :
    done' = ⟨done.written ++ [Path.segmentText j.path.segments], done.types ++ j.place?.toList⟩ ∧
      Holds m' root q (files ++ [j.file]) ∧ Added m m' q := by
  rw [runJob_under hnew.ne_nil] at hrun
  obtain ⟨done₁, m₁, hwrite, hlast⟩ := exists_of_bind_ok hrun
  obtain ⟨rfl, h₁, hadded⟩ := holds_writeBelow h hroot hnew hwrite
  cases hlast
  exact ⟨rfl, h₁, hadded⟩

/-- The first of some jobs is for a new file where no two of them are for one file. -/
theorem new_of_nodup (hpath : IsFilePath j.path.segments)
    (h : ((files ++ (j :: js).map Job.file).map Prod.fst).Nodup) : New files j.path.segments := by
  rw [List.map_append] at h
  exact ⟨hpath, fun hmem => List.disjoint_of_nodup_append h hmem (by simp [Job.file])⟩

/-- Jobs that are done one after the other, each for a new file. -/
theorem holds_runJobs (h : Holds m root q files) (hroot : Direct root)
    (hpaths : ∀ j ∈ js, IsFilePath j.path.segments)
    (hnodup : ((files ++ js.map Job.file).map Prod.fst).Nodup)
    (hrun : (js.map (under root)).foldlM (runJob root) done m = .ok done' m') :
    done' = ⟨done.written ++ js.map fun j => Path.segmentText j.path.segments,
        done.types ++ js.filterMap Job.place?⟩ ∧
      Holds m' root q (files ++ js.map Job.file) ∧ Added m m' q := by
  induction js generalizing m files done with
  | nil =>
    cases hrun
    simpa using ⟨h, Added.refl _ q⟩
  | cons j js ih =>
    rw [List.map_cons, List.foldlM_cons] at hrun
    obtain ⟨done₁, m₁, hjob, hrest⟩ := exists_of_bind_ok hrun
    rw [List.forall_mem_cons] at hpaths
    obtain ⟨rfl, h₁, hadded₁⟩ := holds_runJob h hroot (new_of_nodup hpaths.1 hnodup) hjob
    rw [List.map_cons, List.append_cons] at hnodup
    obtain ⟨rfl, h₂, hadded₂⟩ := ih h₁ hpaths.2 hnodup hrest
    refine ⟨?_, by simpa using h₂, hadded₁.trans hadded₂⟩
    cases hplace : j.place? <;> simp [hplace]

/-! ## The jobs of a text -/

/-- The jobs of all units, with paths from the root of the project. -/
def projectJobs (d : Division) : List Job := d.units.toList.flatMap (unitJobs d)

theorem isUnitName_of_mem_units {text : List Char} (hu : u ∈ (divide text).units.toList) :
    IsUnitName u.1 :=
  isUnitName_of_mem_keys (List.mem_map_of_mem hu)

theorem flatMap_jobs_eq (root : Path) (text : List Char) :
    (divide text).units.toList.flatMap (jobs (divide text) root) =
      (projectJobs (divide text)).map (under root) := by
  rw [projectJobs, List.map_flatMap]
  exact List.flatMap_congr fun u hu => jobs_eq root (isUnitName_of_mem_units hu)

/-- Where no two units have one folder no two jobs have one file. -/
theorem nodup_projectJobs {text : List Char} (h : FoldersDiffer root (divide text).units) :
    ((projectJobs (divide text)).map fun j => j.path.segments).Nodup := by
  rw [projectJobs, List.map_flatMap, List.nodup_flatMap]
  constructor
  · intro u hu
    rw [map_segments_unitJobs (isUnitName_of_mem_units hu)]
    apply (nodup_fileNames u).map
    intro f f' hf
    simpa using hf
  · have hkeys : (divide text).units.toList.Pairwise fun u u' => u.1 ≠ u'.1 :=
      List.pairwise_map.1 (divide text).units.nodup
    apply hkeys.imp_of_mem
    intro u u' hu hu' hne names hmem hmem'
    obtain ⟨j, hj, rfl⟩ := List.mem_map.1 hmem
    obtain ⟨j', hj', heq⟩ := List.mem_map.1 hmem'
    obtain ⟨f, -, hf⟩ := exists_of_mem_unitJobs (isUnitName_of_mem_units hu) hj
    obtain ⟨f', -, hf'⟩ := exists_of_mem_unitJobs (isUnitName_of_mem_units hu') hj'
    rw [hf, hf'] at heq
    have hparts := (List.append_inj' heq rfl).1
    exact hne ((foldersDiffer_iff root text).1 h _ (List.mem_map_of_mem hu) _
      (List.mem_map_of_mem hu') hparts.symm)

end Decompilation.Service
