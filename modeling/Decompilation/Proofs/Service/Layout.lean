import Decompilation.Proofs.Service.Units
import Decompilation.Proofs.Source.TypeDeclaration
import Decompilation.Service.Layout

/-!
# Units in a project

Laying out the units of a text as a project is a list of jobs, a file each (`writeUnitList_eq`). The
files of a unit lie in its folder, so two units share a file exactly if they share a folder and each
has a file of that name (`exists_path_iff`). `units_kept_apart_iff` says for which texts no unit is
written over another one.
-/

namespace Decompilation.Service

open Project (folderParts plainName unitFileName unitFolder)
open Source (Division divide globalName splitTypes)

variable {d : Division} {root : Path} {u u' : String × List Char}

/-! ## Jobs -/

/-- A file to be written: the unit it is of, its path and text, and the type it holds if it holds
just one. -/
structure Job where
  unit : String
  path : Path
  text : List Char
  typeName : Option String

/-- The names of the files that a unit becomes in its folder. -/
def fileNames (u : String × List Char) : List String :=
  if (splitTypes u.2).keys = [] then [wholeUnitName u.1]
  else (splitTypes u.2).keys.map fun t => t ++ ".cs"

/-- The files that a unit becomes in a project. -/
def jobs (d : Division) (root : Path) (u : String × List Char) : List Job :=
  match (splitTypes u.2).toList with
  | [] => [⟨u.1, unitFolder root u.1 / wholeUnitName u.1, d.renderUnit u.1 u.2, none⟩]
  | types => types.map fun t =>
    ⟨u.1, unitFolder root u.1 / (t.1 ++ ".cs"), d.renderUnit u.1 t.2, some t.1⟩

/-- A job done: the file written, and the place of its type noted. -/
def runJob (root : Path) (done : Progress) (j : Job) : Act Progress := do
  let done ← writeBelow root j.path j.text done
  match j.typeName with
  | none => return done
  | some t =>
    let place : Project.TypePlace := ⟨j.unit, t, ← Project.relative root j.path⟩
    return { done with types := done.types ++ [place] }

theorem writeTypes_eq (namespaceName : String) (types : List (String × List Char)) (done : Progress) :
    writeTypes d root (unitFolder root namespaceName) namespaceName types done =
      (types.map fun t => (⟨namespaceName, unitFolder root namespaceName / (t.1 ++ ".cs"),
        d.renderUnit namespaceName t.2, some t.1⟩ : Job)).foldlM (runJob root) done := by
  induction types generalizing done with
  | nil => rfl
  | cons t types ih =>
    rw [List.map_cons, List.foldlM_cons, writeTypes]
    simp only [runJob, bind_assoc, pure_bind, ih]

theorem writeUnit_eq (done : Progress) :
    writeUnit d root u.1 u.2 done = (jobs d root u).foldlM (runJob root) done := by
  unfold writeUnit jobs
  cases (splitTypes u.2).toList with
  | nil => simp [runJob]
  | cons t types => exact writeTypes_eq u.1 (t :: types) done

theorem writeUnitList_eq (units : List (String × List Char)) (done : Progress) :
    writeUnitList d root units done =
      (units.flatMap (jobs d root)).foldlM (runJob root) done := by
  induction units generalizing done with
  | nil => rfl
  | cons u units ih =>
    obtain ⟨n, body⟩ := u
    rw [writeUnitList, List.flatMap_cons, List.foldlM_append, ← writeUnit_eq]
    simp only [ih]

/-! ## Shared files -/

theorem child_inj {p p' : Path} {s s' : String} : p.child s = p'.child s' ↔ p = p' ∧ s = s' := by
  obtain ⟨anchor, segments⟩ := p
  obtain ⟨anchor', segments'⟩ := p'
  simp only [Path.child, Path.mk.injEq]
  constructor
  · intro hchild
    obtain ⟨rfl, h⟩ := hchild
    obtain ⟨rfl, hs⟩ := List.append_inj' h rfl
    exact ⟨⟨rfl, rfl⟩, List.singleton_inj.1 hs⟩
  · intro hsame
    obtain ⟨⟨rfl, rfl⟩, rfl⟩ := hsame
    exact ⟨rfl, rfl⟩

theorem div_wholeUnitName (p : Path) (n : String) :
    p / wholeUnitName n = p.child (wholeUnitName n) := by
  unfold wholeUnitName
  split
  · exact Project.div_eq_child p (by decide) (Project.ordinary_append "Global")
  · exact Project.div_eq_child p (by decide) (Project.ordinary_append "Namespace")

theorem div_typeName (p : Path) {t : String} {body : List Char}
    (ht : t ∈ (splitTypes body).keys) : p / (t ++ ".cs") = p.child (t ++ ".cs") := by
  refine Project.div_eq_child p ?_ (Project.ordinary_append t)
  rw [String.toList_append, List.mem_append, not_or]
  refine ⟨fun hm => ?_, by decide⟩
  have := Source.isWord_of_mem_splitTypes ht _ hm
  simp [Source.isWord, Source.isNameStart] at this

/-- The files of a unit lie in its folder. -/
theorem map_path_jobs : (jobs d root u).map Job.path =
    (fileNames u).map fun f => (unitFolder root u.1).child f := by
  have hkeys : (splitTypes u.2).keys = (splitTypes u.2).toList.map Prod.fst := rfl
  unfold jobs fileNames
  cases htypes : (splitTypes u.2).toList with
  | nil =>
    rw [htypes, List.map_nil] at hkeys
    rw [if_pos hkeys]
    exact congrArg (fun p => [p]) (div_wholeUnitName (unitFolder root u.1) u.1)
  | cons t types =>
    rw [htypes] at hkeys
    rw [if_neg (by rw [hkeys]; simp), hkeys, List.map_map, List.map_map, List.map_map]
    apply List.map_congr_left
    intro t' ht'
    exact div_typeName (unitFolder root u.1) (hkeys ▸ List.mem_map_of_mem ht')

theorem exists_path_iff : (∃ j ∈ jobs d root u, ∃ j' ∈ jobs d root u', j.path = j'.path) ↔
    unitFolder root u.1 = unitFolder root u'.1 ∧ ∃ f ∈ fileNames u, f ∈ fileNames u' := by
  have hmem : ∀ (u : String × List Char) p, (∃ j ∈ jobs d root u, j.path = p) ↔
      ∃ f ∈ fileNames u, (unitFolder root u.1).child f = p := by
    intro u p
    rw [← List.mem_map, map_path_jobs, List.mem_map]
  constructor
  · intro hshared
    obtain ⟨j, hj, j', hj', hpath⟩ := hshared
    obtain ⟨f, hf, hp⟩ := (hmem u _).1 ⟨j, hj, hpath⟩
    obtain ⟨f', hf', hp'⟩ := (hmem u' _).1 ⟨j', hj', rfl⟩
    obtain ⟨hfolder, rfl⟩ := child_inj.1 (hp.trans hp'.symm)
    exact ⟨hfolder, f, hf, hf'⟩
  · intro hshared
    obtain ⟨hfolder, f, hf, hf'⟩ := hshared
    obtain ⟨j, hj, hp⟩ := (hmem u _).2 ⟨f, hf, rfl⟩
    obtain ⟨j', hj', hp'⟩ := (hmem u' _).2 ⟨f, hf', rfl⟩
    exact ⟨j, hj, j', hj', by rw [hp, hp', hfolder]⟩

/-- No two units have one folder. -/
def FoldersDiffer (root : Path) (units : Table String (List Char)) : Prop :=
  ∀ n ∈ units.keys, ∀ n' ∈ units.keys, unitFolder root n = unitFolder root n' → n = n'

/-- No file of a unit is written over one of another unit. -/
def KeptApart (d : Division) (root : Path) : Prop :=
  ∀ u ∈ d.units.toList, ∀ u' ∈ d.units.toList, u.1 ≠ u'.1 →
    ∀ j ∈ jobs d root u, ∀ j' ∈ jobs d root u', j.path ≠ j'.path

theorem keptApart_iff : KeptApart d root ↔
    ∀ u ∈ d.units.toList, ∀ u' ∈ d.units.toList, u.1 ≠ u'.1 →
      unitFolder root u.1 = unitFolder root u'.1 → ∀ f ∈ fileNames u, f ∉ fileNames u' := by
  have hpair : ∀ u u', (∀ j ∈ jobs d root u, ∀ j' ∈ jobs d root u', j.path ≠ j'.path) ↔
      (unitFolder root u.1 = unitFolder root u'.1 → ∀ f ∈ fileNames u, f ∉ fileNames u') := by
    intro u u'
    constructor
    · intro h hfolder f hf hf'
      obtain ⟨j, hj, j', hj', hpath⟩ := exists_path_iff.2 ⟨hfolder, f, hf, hf'⟩
      exact h j hj j' hj' hpath
    · intro h j hj j' hj' hpath
      obtain ⟨hfolder, f, hf, hf'⟩ := exists_path_iff.1 ⟨j, hj, j', hj', hpath⟩
      exact h hfolder f hf hf'
  unfold KeptApart
  simp only [hpair]

theorem FoldersDiffer.keptApart (h : FoldersDiffer root d.units) : KeptApart d root := by
  apply keptApart_iff.2
  intro u hu u' hu' hne hfolder
  exact absurd (h _ (List.mem_map_of_mem hu) _ (List.mem_map_of_mem hu') hfolder) hne

theorem foldersDiffer_iff (root : Path) (text : List Char) : FoldersDiffer root (divide text).units ↔
    ∀ n ∈ (divide text).units.keys, ∀ n' ∈ (divide text).units.keys,
      folderParts n = folderParts n' → n = n' := by
  have hfolder : ∀ n ∈ (divide text).units.keys, ∀ n' ∈ (divide text).units.keys,
      (unitFolder root n = unitFolder root n' ↔ folderParts n = folderParts n') := fun n hn n' hn' =>
    Project.unitFolder_eq_iff root ((isUnitName_of_mem_keys hn).not_mem rfl)
      ((isUnitName_of_mem_keys hn').not_mem rfl)
  constructor
  · intro h n hn n' hn' heq
    exact h n hn n' hn' ((hfolder n hn n' hn').2 heq)
  · intro h n hn n' hn' heq
    exact h n hn n' hn' ((hfolder n hn n' hn').1 heq)

/-- **When the units of a text are kept apart on the disk.** Their files in one folder differ exactly
if no two names are the same but for dots and underscores, and exactly then each unit that is
written to an empty folder has its file there in the end, provided that the system takes the names.
Their folders in a project differ exactly if no two names have the same parts, and then no file of
a unit is written over one of another; in a shared folder it is exactly if both have one of that
name. The unit of all text outside namespaces counts as a namespace `global` everywhere. -/
theorem units_kept_apart_iff (text : List Char) :
    let d := divide text
    (FilesDiffer d.units ↔ ∀ n ∈ d.units.keys, ∀ n' ∈ d.units.keys,
      Project.SameButDots (plainName n) (plainName n') → n = n') ∧
    (∀ (r : Runner) (s : Subject) (output : Json.Value) (m₀ m₁ m : Machine) (folder : Path)
      (q : Place), decompileAndDivide r s m₀ = .ok d m₁ → outputFolder output m₁ = .ok folder m →
      Files.LeadsToEmpty m folder q →
      ((∃ names m', unitsToFolder r s output m₀ = .ok names m' ∧
          m'.disk.below q = d.units.toList.map (unitFile d)) ↔
        (∀ n ∈ d.units.keys, Files.Fits folder (unitFileName n)) ∧ FilesDiffer d.units)) ∧
    ∀ root : Path,
      (FoldersDiffer root d.units ↔ ∀ n ∈ d.units.keys, ∀ n' ∈ d.units.keys,
        folderParts n = folderParts n' → n = n') ∧
      (∀ done, writeUnitList d root d.units.toList done =
        (d.units.toList.flatMap (jobs d root)).foldlM (runJob root) done) ∧
      (FoldersDiffer root d.units → KeptApart d root) ∧
      (KeptApart d root ↔ ∀ u ∈ d.units.toList, ∀ u' ∈ d.units.toList, u.1 ≠ u'.1 →
        unitFolder root u.1 = unitFolder root u'.1 → ∀ f ∈ fileNames u, f ∉ fileNames u') := by
  intro d
  refine ⟨filesDiffer_iff d.units, ?_, fun root => ⟨foldersDiffer_iff root text,
    writeUnitList_eq d.units.toList, FoldersDiffer.keptApart, keptApart_iff⟩⟩
  intro r s output m₀ m₁ m folder q hdivide houtput hempty
  rw [unitsToFolder_eq hdivide houtput]
  exact writeUnits_keeps_iff hempty.leads hempty.empty

/-- A machine with an assembly and an empty folder `out`, on which ilspycmd leaves a source text. -/
def sampleMachine (text : String) : Machine where
  disk := (((Disk.empty.put ["in"] .folder).put ["in", "A.dll"] (.file (File.ofBytes []))).put
    ["out"] .folder).put ["tmp"] .folder
  environment := Table.empty
  homes := ⟨none, fun _ => none⟩
  cwd := []
  scratch := ⟨.root, ["tmp"]⟩
  system := "Linux"
  clock := ⟨2024, 1, 2, 3, 4, 5, 0⟩
  toolbox :=
    let source := File.ofBytes (Text.Utf8.encode text.toList)
    { Toolbox.idle with runs := [.ended [("A.cs", .file source)] 0 "" ""] }
  calls := []
  settings := ⟨Table.empty, true⟩
  memory := ⟨some "/usr/bin/ilspycmd", none⟩
  shared := none

def sampleRunner : Runner := ⟨⟨.root, ["tools"]⟩, .int 2, .int 300⟩

def sampleSubject : Subject := ⟨.str "/in/A.dll", .null⟩

/-- Whether on the sample machine the text is divided and the folder `out` is found empty. -/
def sampleRuns (text : String) : Bool :=
  match decompileAndDivide sampleRunner sampleSubject (sampleMachine text) with
  | .ok d m₁ => match outputFolder (.str "/out") m₁ with
    | .ok folder m => d = divide text.toList ∧ folder = ⟨.root, ["out"]⟩ ∧
        m.disk.place m.cwd .find folder = .ok ["out"] ∧ m.disk.look? ["out"] = some .folder ∧
        m.disk.below ["out"] = []
    | .error .. => false
  | .error .. => false

theorem exists_sample_run {text : String} (h : sampleRuns text = true) : ∃ m₁ m,
    decompileAndDivide sampleRunner sampleSubject (sampleMachine text) =
      .ok (divide text.toList) m₁ ∧
    outputFolder (.str "/out") m₁ = .ok ⟨.root, ["out"]⟩ m ∧
    Files.LeadsToEmpty m ⟨.root, ["out"]⟩ ["out"] := by
  unfold sampleRuns at h
  split at h
  · rename_i d m₁ hdivide
    split at h
    · rename_i folder m houtput
      obtain ⟨rfl, rfl, hplace, hlook, hbelow⟩ := of_decide_eq_true h
      exact ⟨m₁, m, hdivide, houtput, hplace, hlook, by decide, hbelow⟩
    · cases h
  · cases h

/-- Two namespaces and text outside them. -/
theorem units_kept_apart_in_folder :
    let text := "using X;\nnamespace A.B { class C { } }\nnamespace A_C { class C { } }"
    let d := divide text.toList
    ∃ (m₁ m : Machine) (folder : Path),
      decompileAndDivide sampleRunner sampleSubject (sampleMachine text) = .ok d m₁ ∧
      outputFolder (.str "/out") m₁ = .ok folder m ∧ Files.LeadsToEmpty m folder ["out"] ∧
      (∀ n ∈ d.units.keys, Files.Fits folder (unitFileName n)) ∧ FilesDiffer d.units ∧
      (∃ names m', unitsToFolder sampleRunner sampleSubject (.str "/out") (sampleMachine text) =
          .ok names m' ∧ m'.disk.below ["out"] = d.units.toList.map (unitFile d)) ∧
      FoldersDiffer folder d.units ∧ KeptApart d folder := by
  intro text d
  have hkeys : d.units.keys = ["(global)", "A.B", "A_C"] := by decide +kernel
  have hruns : sampleRuns text = true := by decide +kernel
  obtain ⟨m₁, m, hdivide, houtput, hempty⟩ := exists_sample_run hruns
  obtain ⟨hfiles, hwrite, hproject⟩ := units_kept_apart_iff text.toList
  obtain ⟨hfolders, -, hapart, -⟩ := hproject ⟨.root, ["out"]⟩
  have hdiffer : FilesDiffer d.units := hfiles.2 (by rw [hkeys]; decide)
  have hfits : ∀ n ∈ d.units.keys, Files.Fits ⟨.root, ["out"]⟩ (unitFileName n) := by
    rw [hkeys]
    decide +kernel
  have hfolders' : FoldersDiffer ⟨.root, ["out"]⟩ d.units := hfolders.2 (by rw [hkeys]; decide)
  exact ⟨m₁, m, ⟨.root, ["out"]⟩, hdivide, houtput, hempty, hfits, hdiffer,
    (hwrite _ _ _ _ _ _ _ _ hdivide houtput hempty).2 ⟨hfits, hdiffer⟩, hfolders',
    hapart hfolders'⟩

/-- Namespaces that differ in a dot that is an underscore share a file, of which the last one is
left, and namespaces that differ in a dot at the end share a folder and the file of a type in it. -/
theorem units_share_places :
    let text := "namespace A.B { class C { } } namespace A_B { class D { } } namespace E. " ++
      "{ class F { } } namespace E { class F { } }"
    let d := divide text.toList
    d.units.keys = ["A.B", "A_B", "E.", "E"] ∧ ¬ FilesDiffer d.units ∧
      (∃ names m', unitsToFolder sampleRunner sampleSubject (.str "/out") (sampleMachine text) =
          .ok names m' ∧
        m'.disk.below ["out"] = [unitFile d ("A_B", "class D { }\n".toList),
          unitFile d ("E.", "class F { }\n".toList), unitFile d ("E", "class F { }\n".toList)]) ∧
      ∀ root : Path, ¬ FoldersDiffer root d.units ∧ ¬ KeptApart d root := by
  intro text d
  have hunits : d.units.toList = [("A.B", "class C { }\n".toList), ("A_B", "class D { }\n".toList),
      ("E.", "class F { }\n".toList), ("E", "class F { }\n".toList)] := by decide +kernel
  have hkeys : d.units.keys = ["A.B", "A_B", "E.", "E"] := congrArg (List.map Prod.fst) hunits
  have hfolder : ∀ root, unitFolder root "E." = unitFolder root "E" := fun root =>
    (Project.unitFolder_eq_iff root (by decide) (by decide)).2 (by decide)
  have hruns : sampleRuns text = true := by decide +kernel
  obtain ⟨m₁, m, hdivide, houtput, hempty⟩ := exists_sample_run hruns
  have hfits : ∀ u ∈ d.units.toList, Files.Fits ⟨.root, ["out"]⟩ (unitFileName u.1) := by
    rw [hunits]
    decide +kernel
  have hnames : ∀ u ∈ d.units.toList, Project.IsUnitName u.1 := fun u hu =>
    isUnitName_of_mem_keys (List.mem_map_of_mem hu)
  have hwrite := (unitsToFolder_eq hdivide houtput).trans
    (writeUnits_of_fits (d := d) hempty.leads (onlyNew_of_below hempty.empty) hnames hfits)
  refine ⟨hkeys, fun h => ?_, ⟨_, _, hwrite, ?_⟩, fun root => ⟨fun h => ?_, fun h => ?_⟩⟩
  · exact absurd (h "A.B" (by simp [hkeys]) "A_B" (by simp [hkeys]) (by decide)) (by decide)
  · rw [below_putUnits_of_empty hempty.empty, hunits]
    rfl
  · exact absurd (h "E." (by simp [hkeys]) "E" (by simp [hkeys]) (hfolder root)) (by decide)
  · refine keptApart_iff.1 h ("E.", "class F { }\n".toList) ?_ ("E", "class F { }\n".toList) ?_
      (by decide) (hfolder root) "F.cs" ?_ ?_
    · simp [hunits]
    · simp [hunits]
    · decide +kernel
    · decide +kernel

end Decompilation.Service
