import Decompilation.Proofs.Disk.Confined
import Decompilation.Proofs.Service.Project

/-!
# Output stays below its root

Units and types are named in the text of an assembly, which nobody vouches for. Whatever the text is,
their names lead from the root of the output to a file or a folder below it and nowhere else, and so
what is written behind the root is written below it (`units_stay_below_root`).
-/

namespace Decompilation.Service

open Act (Keeps bind_ok exists_of_bind_ok)
open Disk (Ordinary)
open Files (AtOrBelow Below Clear WritesAt)
open Project (IsFilePath folderParts unitFileName unitFolder)
open Source (Division divide isNameStart isWord splitTypes)

variable {d : Division} {root p : Path} {text : List Char} {done : Progress} {js : List Job}
  {folder file : Path → Prop} {names : List String} {m m' : Machine}

/-! ## Writing files -/

theorem writesAt_writeBelow (hparent : folder p.parent) (hp : file p) (text : List Char)
    (done : Progress) : WritesAt folder file (writeBelow root p text done) :=
  .bind (Project.writesAt_writeAndList hparent hp text _ _) fun _ => .of_keeps fun _ => .pure _

theorem writesAt_runJob {j : Job} (hparent : folder j.path.parent) (hp : file j.path)
    (done : Progress) : WritesAt folder file (runJob root done j) := by
  refine .bind (writesAt_writeBelow hparent hp _ _) fun done => ?_
  split
  · exact .of_keeps fun _ => .pure _
  · exact .of_keeps fun _ => (Project.keeps_relative root _).bind fun _ => .pure _

theorem writesAt_runJobs (hparent : ∀ j ∈ js, folder j.path.parent) (hp : ∀ j ∈ js, file j.path)
    (done : Progress) : WritesAt folder file (js.foldlM (runJob root) done) := by
  induction js generalizing done with
  | nil => exact .of_keeps fun _ => .pure _
  | cons j js ih =>
    rw [List.foldlM_cons]
    refine .bind (writesAt_runJob (hparent j (List.mem_cons_self ..)) (hp j (List.mem_cons_self ..))
      done) fun done => ?_
    exact ih (fun j' hj' => hparent j' (List.mem_cons_of_mem _ hj'))
      (fun j' hj' => hp j' (List.mem_cons_of_mem _ hj')) done

/-! ## Units and types -/

theorem below_folderParts {n : String} (hn : n ∈ (divide text).units.keys) :
    Below root { root with segments := root.segments ++ folderParts n } :=
  ⟨folderParts n, Project.folderParts_ne_nil (start_of_mem_keys hn),
    fun _ hpart => ((isUnitName_of_mem_keys hn).of_mem_folderParts hpart).1, rfl⟩

theorem below_child {name : String} (h : Ordinary name) : Below root (root.child name) :=
  ⟨[name], by simp, by simpa using h, rfl⟩

theorem below_of_isFilePath (h : IsFilePath names) :
    Below root { root with segments := root.segments ++ names } :=
  ⟨names, h.ne_nil, h.ordinary, rfl⟩

/-- The units of a text in a project: each file, and each folder that one needs, lies below the
root. -/
theorem writesAt_writeUnitList (text : List Char) (done : Progress) :
    WritesAt (Below root) (Below root)
      (writeUnitList (divide text) root (divide text).units.toList done) := by
  rw [writeUnitList_eq, flatMap_jobs_eq]
  refine writesAt_runJobs (List.forall_mem_map.2 fun j hj => ?_)
    (List.forall_mem_map.2 fun j hj => ?_) done
  · obtain ⟨u, hu, hj⟩ := List.mem_flatMap.1 hj
    obtain ⟨f, -, hsegments⟩ := exists_of_mem_unitJobs (isUnitName_of_mem_units hu) hj
    rw [under, hsegments, Path.parent, ← List.append_assoc, List.dropLast_concat]
    exact below_folderParts (List.mem_map_of_mem hu)
  · exact below_of_isFilePath (exists_of_mem_projectJobs hj).1

/-- The units of a text in a folder: each file lies in it. -/
theorem writesAt_writeEach {units : List (String × List Char)}
    (hunits : units ⊆ (divide text).units.toList) :
    WritesAt (Below root) (Below root) (writeEach (divide text) root units) := by
  induction units with
  | nil => exact .of_keeps fun _ => .pure _
  | cons u units ih =>
    obtain ⟨n, body⟩ := u
    obtain ⟨hu, hunits⟩ := List.cons_subset.1 hunits
    have hordinary := Project.ordinary_unitFileName n
    have hslash : '/' ∉ (unitFileName n).toList :=
      (isUnitName_of_mem_units hu).not_mem_unitFileName rfl
    have hfile : Below root (root / unitFileName n) := by
      rw [Project.div_eq_child root hslash hordinary]
      exact below_child hordinary
    rw [writeEach]
    exact .bind (.text hfile) fun _ => .bind (ih hunits) fun _ => .of_keeps fun _ => .pure _

/-! ## Whole operations -/

/-- From one machine an operation gets to another one, where it makes the root of its output. What it
does then is written below the root, and, where no links lead out of the root, changes nothing
outside. -/
def RunsBelow {α : Type} (root : Path) (act : Act α) (m m' : Machine) : Prop :=
  ∃ rest : Act α, act m = (do Files.makeFolders root; rest) m' ∧
    WritesAt (AtOrBelow root) (Below root) rest ∧
    ∀ m₁ q, Files.makeFolders root m' = .ok () m₁ → Clear m₁ root q →
      ∀ p, (q <+: p → p = q) → (act.after m).disk.node? p = m₁.disk.node? p

theorem RunsBelow.intro {α : Type} {act rest : Act α}
    (hact : act m = (do Files.makeFolders root; rest) m')
    (hrest : WritesAt (AtOrBelow root) (Below root) rest) : RunsBelow root act m m' := by
  refine ⟨rest, hact, hrest, fun m₁ q hmake hclear p hp => ?_⟩
  rw [bind_ok hmake] at hact
  rw [Act.after, hact]
  exact hrest.outside hclear hp

theorem runsBelow_writeUnits {act : Act (List String)} {units : List (String × List Char)}
    (hunits : units ⊆ (divide text).units.toList)
    (hact : act m = writeUnits (divide text) root units m') : RunsBelow root act m m' :=
  .intro hact <| .bind ((writesAt_writeEach hunits).mono (fun _ => .inr) fun _ => id) fun _ =>
    .of_keeps fun _ => .pure _

theorem writesAt_single (root : Path) {name : String} (hslash : '/' ∉ name.toList)
    (hlen : 3 ≤ name.toList.length) (text : List Char) (done : Progress) :
    WritesAt (AtOrBelow root) (Below root) (writeBelow root (root / name) text done) := by
  rw [div_single root hslash hlen]
  refine writesAt_writeBelow (.inl ?_) (below_of_isFilePath (isFilePath_single hlen)) text done
  rw [Path.parent, List.dropLast_concat]

theorem writesAt_docs (hp : Ordinary p.name) (text : List Char) (done : Progress) :
    WritesAt (AtOrBelow root) (Below root)
      (writeBelow root ((root / "Docs").child p.name) text done) := by
  have hdocs : Ordinary "Docs" := Project.ordinary_of_length (by decide)
  rw [docs_eq]
  refine writesAt_writeBelow (.inr ⟨["Docs"], by simp, by simpa using hdocs, ?_⟩)
    ⟨["Docs", p.name], by simp, by simpa using ⟨hdocs, hp⟩, rfl⟩ text done
  rw [Path.parent, List.dropLast_append_of_ne_nil (by simp)]
  rfl

theorem writesAt_layDocuments (wanted : Json.Value) (assembly root : Path) (done : Progress) :
    WritesAt (AtOrBelow root) (Below root) (layDocuments wanted assembly root done) := by
  unfold layDocuments
  split
  · rw [writeDocumentation, Runner.besides]
    cases hpath : assembly.withSuffix? ".xml" with
    | none => exact .of_keeps fun _ => .throw_bind _ _
    | some p =>
      have hname : Ordinary p.name := Runner.ordinary_name_of_withSuffix (by decide) hpath
      simp only [pure_bind]
      refine .bind (.of_keeps fun _ => Files.keeps_isFile _) fun answer => ?_
      split
      · refine .orElse ?_ fun f => ?_
        · exact .bind (.of_keeps fun _ => Files.keeps_readText _) fun text =>
            writesAt_docs hname text done
        · split
          · exact .of_keeps fun _ => .pure _
          · exact .of_keeps fun _ => .throw _
      · exact .of_keeps fun _ => .pure _
  · exact .of_keeps fun _ => .pure _

theorem keeps_manifest {P : Machine → Prop} (assembly : Path) (options types : Json.Value)
    (files namespaces : List String) :
    Keeps P (Project.manifest assembly options files types namespaces) := by
  unfold Project.manifest
  refine .bind .get fun m => .bind .get fun m' => ?_
  dsimp only
  split
  · exact .bind (.pure _) fun _ => .bind .get fun _ => .pure _
  · exact .bind (.pure _) fun _ => .bind .get fun _ => .pure _
  · exact .throw_bind _ _

/-- The sources of a project are written below its root. -/
theorem writesAt_laySources (text : List Char) (root : Path) :
    WritesAt (AtOrBelow root) (Below root) (laySources (divide text) root) :=
  .bind (.folders (.inl rfl)) fun _ =>
    .bind (writesAt_single _ (by decide) (by decide) _ _) fun done =>
      (writesAt_writeUnitList text done).mono (fun _ => .inr) fun _ => id

/-- **Output stays below its root.** Whatever the text of an assembly is, the file of a unit is a
single name that leads down, the folder of a unit is the root and words behind it, at least one, and
types are named by words. So units are written below the root, one by one or as a project, and behind
making the root all that an operation writes lies below it. -/
theorem units_stay_below_root (text : List Char) (root : Path) :
    let d := divide text
    (∀ n ∈ d.units.keys, '/' ∉ (unitFileName n).toList ∧ Ordinary (unitFileName n) ∧
      root / unitFileName n = root.child (unitFileName n)) ∧
    (∀ n ∈ d.units.keys, ∃ names, names ≠ [] ∧
      (∀ s ∈ names, s ≠ "" ∧ ∀ c ∈ s.toList, isWord c = true) ∧
      unitFolder root n = { root with segments := root.segments ++ names }) ∧
    (∀ body, ∀ t ∈ (splitTypes body).keys, t.toList.head?.any isNameStart = true ∧
      ∀ c ∈ t.toList, isWord c = true) ∧
    (∀ units ⊆ d.units.toList, WritesAt (Below root) (Below root) (writeEach d root units)) ∧
    (∀ done, WritesAt (Below root) (Below root) (writeUnitList d root d.units.toList done)) ∧
    ∀ r s output m m₁ m₂, decompileAndDivide r s m = .ok d m₁ →
      outputFolder output m₁ = .ok root m₂ →
      RunsBelow root (unitsToFolder r s output) m m₂ ∧
      (∀ wanted names, wantedNamespaces wanted m = .ok names m →
        RunsBelow root (selectedUnitsToFolder r s output wanted) m m₂) ∧
      ∀ documentation, RunsBelow root (layOut r s output documentation) m m₂ := by
  intro d
  refine ⟨fun n hn => ?_, fun n hn => ?_, fun body t ht => ?_, fun units => writesAt_writeEach,
    writesAt_writeUnitList text, fun r s output m m₁ m₂ hdivide houtput => ⟨?_, ?_, ?_⟩⟩
  · have hordinary := Project.ordinary_unitFileName n
    have hslash : '/' ∉ (unitFileName n).toList :=
      (isUnitName_of_mem_keys hn).not_mem_unitFileName rfl
    exact ⟨hslash, hordinary, Project.div_eq_child root hslash hordinary⟩
  · have hname := isUnitName_of_mem_keys hn
    refine ⟨folderParts n, Project.folderParts_ne_nil (start_of_mem_keys hn), fun s hs => ?_,
      Project.unitFolder_eq root (hname.not_mem rfl)⟩
    exact ⟨fun h => (hname.of_mem_folderParts hs).1.ne_same (.inl h),
      hname.isWord_of_mem_folderParts hs⟩
  · exact ⟨Source.start_of_mem_splitTypes ht, Source.isWord_of_mem_splitTypes ht⟩
  · exact runsBelow_writeUnits (List.Subset.refl _) (unitsToFolder_eq hdivide houtput)
  · intro wanted names hwanted
    have hunits : selected d names ⊆ d.units.toList := List.filter_subset_self _
    refine runsBelow_writeUnits hunits ?_
    rw [selectedUnitsToFolder, bind_ok hwanted, bind_ok hdivide, bind_ok houtput]
  · intro documentation
    obtain ⟨assembly, m', hassembly, -⟩ := exists_of_bind_ok hdivide
    obtain rfl : m' = m := (keeps_assemblyPath _ _ (P := (· = m))).ok rfl hassembly
    have hrun := layOut_eq r s output documentation
    simp only [laySources, bind_assoc] at hrun
    refine .intro (hrun ▸ (bind_ok hassembly _).trans
      ((bind_ok hdivide _).trans (bind_ok houtput _))) ?_
    refine .bind (writesAt_single _ (by decide) (by decide) _ _) fun done => ?_
    refine .bind ((writesAt_writeUnitList text done).mono (fun _ => .inr) fun _ => id) fun done => ?_
    refine .bind (writesAt_layDocuments _ _ _ _) fun done => ?_
    refine .bind (.of_keeps fun _ => keeps_manifest _ _ _ _ _) fun manifest => ?_
    exact .bind (writesAt_single _ (by decide) (by decide) _ _) fun _ => .of_keeps fun _ => .pure _

/-- Names with dots at odd places lead to places below the root, and the assembly beside the root
stays as it is. -/
theorem units_stay_below_out :
    let text := "using X;\nnamespace A..B. { class _C1<T> { } }\nnamespace global;\nstruct D { }"
    let d := divide text.toList
    let root : Path := ⟨.root, ["out"]⟩
    let m₀ := sampleMachine text
    d.units.keys = ["(global)", "A..B.", "global"] ∧
      (splitTypes "class _C1<T> { }\n".toList).keys = ["_C1"] ∧
      unitFileName "A..B." = "A__B_.cs" ∧ unitFolder root "A..B." = ⟨.root, ["out", "A", "B"]⟩ ∧
      Ordinary (unitFileName "A..B.") ∧ (∀ c ∈ "_C1".toList, isWord c = true) ∧
      (∃ names, names ≠ [] ∧ (∀ s ∈ names, s ≠ "" ∧ ∀ c ∈ s.toList, isWord c = true) ∧
        unitFolder root "A..B." = { root with segments := root.segments ++ names }) ∧
      ∃ m, decompileAndDivide sampleRunner sampleSubject m₀ = .ok d m ∧
        outputFolder (.str "/out") m = .ok root m ∧ Clear m root ["out"] ∧
        wantedNamespaces (.arr [.str " A..B. "]) m₀ = .ok ["A..B."] m₀ ∧
        RunsBelow root (selectedUnitsToFolder sampleRunner sampleSubject (.str "/out")
          (.arr [.str " A..B. "])) m₀ m ∧
        ((layOut sampleRunner sampleSubject (.str "/out") .null).after m₀).disk.node?
          ["in", "A.dll"] = m.disk.node? ["in", "A.dll"] := by
  intro text d root m₀
  have hkeys : d.units.keys = ["(global)", "A..B.", "global"] := by decide +kernel
  have htypes : (splitTypes "class _C1<T> { }\n".toList).keys = ["_C1"] := by decide +kernel
  have hruns : sampleRuns text = true := by decide +kernel
  obtain ⟨m₁, m, hdivide, houtput, hempty⟩ := exists_sample_run hruns
  obtain ⟨rfl, -⟩ := outputFolder_cases houtput
  have hclear : Clear m root ["out"] := hempty.clear
  have hlist : namespaceList (.arr [.str " A..B. "]) = .ok ["A..B."] := by rfl
  have hwanted : wantedNamespaces (.arr [.str " A..B. "]) m₀ = .ok ["A..B."] m₀ := by
    rw [wantedNamespaces, hlist]
    rfl
  obtain ⟨hfile, hfolder, htype, -, -, hops⟩ := units_stay_below_root text.toList root
  have hmem : "A..B." ∈ d.units.keys := by simp [hkeys]
  obtain ⟨-, hselected, hproject⟩ := hops _ _ _ _ _ _ hdivide houtput
  obtain ⟨-, -, -, houtside⟩ := hproject .null
  exact ⟨hkeys, htypes, by decide, by decide +kernel, (hfile _ hmem).2.1,
    (htype _ _ (htypes ▸ List.mem_singleton_self _)).2, hfolder _ hmem, m, hdivide, houtput, hclear,
    hwanted,
    hselected _ _ hwanted, houtside m ["out"] hempty.leads.makeFolders hclear _ (by decide)⟩

end Decompilation.Service
