import Decompilation.Proofs.Service.Documentation
import Decompilation.Proofs.Service.Request
import Decompilation.Proofs.Service.Spill
import Decompilation.Proofs.Text.Order

/-!
# An assembly laid out as a project

In a folder that is empty or missing, an assembly whose units have different folders is laid out as
a project whose files, the list of them and the manifest agree (`layOut_leaves_project`).
-/

namespace Decompilation.Service

open Act (Keeps bind_ok bind_error exists_of_bind_ok)
open Disk (Ordinary)
open Files (Direct Leads)
open Json (Value)
open Project (Added Holds IsFilePath New folderParts)
open Source (Division divide)

variable {d : Division} {assembly root : Path} {m m' : Machine} {q : Place}
  {files : List (List String × List Char)} {done done' : Progress}

/-! ## Paths of a project -/

theorem getLast?_segmentText (front : List String) (name : String) (hne : name.toList ≠ []) :
    (Path.segmentText (front ++ [name])).toList.getLast? = name.toList.getLast? := by
  by_cases hfront : front = []
  · rw [hfront, List.nil_append, Path.segmentText, String.intercalate_singleton]
  · rw [Path.segmentText_concat hfront, String.toList_append, List.getLast?_append_of_ne_nil _ hne]

/-- The path of a file from the root of its project, as a text. -/
def relativeText (file : List String × List Char) : String := Path.segmentText file.1

/-- The files of a project but its documentation and its manifest. -/
def sourceFiles (d : Division) : List (List String × List Char) :=
  ([Project.projectFileName], Project.projectFile.toList) :: (projectJobs d).map Job.file

theorem exists_of_mem_projectJobs {text : List Char} {j : Job} (hj : j ∈ projectJobs (divide text)) :
    IsFilePath j.path.segments ∧ (∀ n ∈ j.path.segments, '/' ∉ n.toList) ∧
      ∃ front t, j.path.segments = front ++ [t ++ ".cs"] := by
  obtain ⟨u, hu, hmem⟩ := List.mem_flatMap.1 hj
  have hname := isUnitName_of_mem_units hu
  obtain ⟨f, hf, heq⟩ := exists_of_mem_unitJobs hname hmem
  obtain ⟨t, rfl, ht⟩ := exists_stem_of_mem_fileNames hf
  refine ⟨isFilePath_of_mem_unitJobs hname hmem, ?_, folderParts u.1, t, heq⟩
  intro n hn
  rw [heq] at hn
  rcases List.mem_append.1 hn with hn | hn
  · exact (hname.of_mem_folderParts hn).2.2
  · rw [List.mem_singleton.1 hn, String.toList_append, List.mem_append, not_or]
    refine ⟨fun hslash => ?_, by decide⟩
    have := ht _ hslash
    simp [Source.isWord, Source.isNameStart] at this

theorem getLast?_of_mem_projectJobs {text : List Char} {j : Job}
    (hj : j ∈ projectJobs (divide text)) :
    (Path.segmentText j.path.segments).toList.getLast? = some 's' := by
  obtain ⟨-, -, front, t, heq⟩ := exists_of_mem_projectJobs hj
  rw [heq, getLast?_segmentText front _ (by simp), String.toList_append,
    List.getLast?_append_of_ne_nil _ (by decide)]
  rfl

/-- No two sources of a project have one path. -/
theorem nodup_sourceTexts {text : List Char} (h : FoldersDiffer root (divide text).units) :
    ((sourceFiles (divide text)).map relativeText).Nodup := by
  have hjobs : ((projectJobs (divide text)).map Job.file).map relativeText =
      ((projectJobs (divide text)).map fun j => j.path.segments).map Path.segmentText := by
    rw [List.map_map, List.map_map]
    rfl
  rw [sourceFiles, List.map_cons, hjobs]
  refine List.nodup_cons.2 ⟨fun hmem => ?_, (nodup_projectJobs h).map_on ?_⟩
  · obtain ⟨names, hnames, heq⟩ := List.mem_map.1 hmem
    obtain ⟨j, hj, rfl⟩ := List.mem_map.1 hnames
    have hlast := getLast?_of_mem_projectJobs hj
    rw [heq] at hlast
    exact absurd hlast (by decide)
  · intro names hnames names' hnames' heq
    obtain ⟨j, hj, rfl⟩ := List.mem_map.1 hnames
    obtain ⟨j', hj', rfl⟩ := List.mem_map.1 hnames'
    obtain ⟨hpath, hslash, -⟩ := exists_of_mem_projectJobs hj
    obtain ⟨hpath', hslash', -⟩ := exists_of_mem_projectJobs hj'
    exact Path.segmentText_inj hpath.ne_nil hpath'.ne_nil hslash hslash' heq

theorem nodup_sourceFiles {text : List Char} (h : FoldersDiffer root (divide text).units) :
    ((sourceFiles (divide text)).map Prod.fst).Nodup := by
  have htexts : (((sourceFiles (divide text)).map Prod.fst).map Path.segmentText).Nodup := by
    rw [List.map_map]
    exact nodup_sourceTexts h
  exact htexts.of_map

/-! ## The sources of a project -/

/-- A path leads to nothing, or to a folder with nothing in it. -/
def Vacant (m : Machine) (p : Path) : Prop :=
  ∀ q, m.disk.place m.cwd .find p = .ok q → m.disk.below q = []

theorem holds_makeFolders (hrooted : m.disk.Rooted) (hdirect : Direct root) (hvacant : Vacant m root)
    (hrun : Files.makeFolders root m = .ok () m') : ∃ q, Holds m' root q [] ∧ Added m m' q := by
  obtain ⟨q, hmade⟩ := Files.makeFolders_made hrooted hdirect hrun
  have hbelow : m.disk.below q = [] := by
    rcases hmade.old_or_new with rfl | hnew
    · exact hvacant q hmade.leads.place
    · exact hrooted.below_eq_nil (by simp [hnew])
  refine ⟨q, ⟨hmade.leads, hmade.grown.rooted hrooted, ?_, ?_⟩,
    Project.added_of_made hmade List.prefix_rfl⟩
  · rw [hmade.grown.contents, Disk.contents, hbelow]
    rfl
  · intro names hnode
    by_cases hne : names = []
    · simp [hne]
    · rcases hmade.grown.new _ _ hnode with hold | ⟨-, hprefix⟩
      · rw [Disk.below_eq_nil_iff.1 hbelow names hne] at hold
        cases hold
      · exact absurd hprefix.length_le (by simpa [List.length_pos_iff] using hne)

/-- A project up to its documentation. -/
def laySources (d : Division) (root : Path) : Act Progress := do
  Files.makeFolders root
  let done ← writeBelow root (root / Project.projectFileName) Project.projectFile.toList ⟨[], []⟩
  writeUnitList d root d.units.toList done

theorem div_single (root : Path) {name : String} (hslash : '/' ∉ name.toList)
    (hlen : 3 ≤ name.toList.length) :
    root / name = { root with segments := root.segments ++ [name] } :=
  Project.div_eq_child root hslash (Project.ordinary_of_length hlen)

theorem isFilePath_single {name : String} (hlen : 3 ≤ name.toList.length) : IsFilePath [name] where
  ne_nil := by simp
  ordinary n hn := by
    rw [List.mem_singleton.1 hn]
    exact Project.ordinary_of_length hlen
  plain := by simp

/-- The sources of a project are laid out in order, each in a file of its own. -/
theorem holds_laySources {text : List Char} (hrooted : m.disk.Rooted) (hdirect : Direct root)
    (hvacant : Vacant m root) (hdiffer : FoldersDiffer root (divide text).units)
    (hrun : laySources (divide text) root m = .ok done m') : ∃ q,
      done = ⟨(sourceFiles (divide text)).map relativeText,
        (projectJobs (divide text)).filterMap Job.place?⟩ ∧
      Holds m' root q (sourceFiles (divide text)) ∧ Added m m' q := by
  rw [laySources] at hrun
  obtain ⟨_, m₁, hfolders, hrest⟩ := exists_of_bind_ok hrun
  obtain ⟨q, h₁, hadded₁⟩ := holds_makeFolders hrooted hdirect hvacant hfolders
  obtain ⟨done₂, m₂, hfile, hunits⟩ := exists_of_bind_ok hrest
  rw [div_single root (by decide) (by decide)] at hfile
  obtain ⟨rfl, h₂, hadded₂⟩ :=
    holds_writeBelow h₁ hdirect ⟨isFilePath_single (by decide), by simp⟩ hfile
  rw [writeUnitList_eq, flatMap_jobs_eq] at hunits
  obtain ⟨rfl, h₃, hadded₃⟩ := holds_runJobs h₂ hdirect
    (fun j hj => (exists_of_mem_projectJobs hj).1) (nodup_sourceFiles hdiffer) hunits
  refine ⟨q, ?_, h₃, (hadded₁.trans hadded₂).trans hadded₃⟩
  simp [sourceFiles, relativeText, Job.file]

/-! ## The manifest -/

/-- What a manifest says of a project. -/
structure Describes (manifest : Value) (files : List String) (types : List Project.TypePlace)
    (namespaces : List String) : Prop where
  files : manifest.field? "files" = some (.ofStrings files)
  types : manifest.field? "typeMappings" = some (.arr (types.map (·.toValue)))
  namespaces : manifest.field? "namespaces" = some (.ofStrings namespaces)

theorem manifest_cases {options manifest : Value} {files namespaces : List String}
    {types : List Project.TypePlace} (h : Project.manifest assembly options files
      (.arr (types.map (·.toValue))) namespaces m = .ok manifest m') :
    m' = m ∧ Describes manifest (Text.inOrder files) types namespaces := by
  rw [Project.manifest, bind_ok (Act.get_eq m), bind_ok (Act.get_eq m)] at h
  cases hstat : m.disk.stat m.cwd assembly with
  | error r =>
    rw [hstat] at h
    cases h
  | ok n =>
    rw [hstat] at h
    cases n <;>
    · cases h
      exact ⟨rfl, rfl, rfl, rfl⟩

/-! ## A whole project -/

/-- An assembly is decompiled in a folder of its own, and a sound machine stays sound. -/
theorem keeps_decompileAndDivide {cwd : Place} (r : Runner) (s : Subject) :
    Keeps (Sound cwd) (decompileAndDivide r s) := by
  refine (keeps_assemblyPath _ _).bind fun assembly => Keeps.bind ?_ fun texts => .pure _
  have hresolve : Keeps (Sound cwd) _ := Runner.keeps_resolve (Sound.hosts r)
  exact Sound.keeps_withScratch fun folder =>
    Runner.turns_decompileAndRead Sound.steady Sound.steady.calm hresolve (Sound.receives folder)
      assembly _ _ _

/-- The documentation of a project, if it is wanted. -/
def documents (wanted : Value) (m : Machine) (assembly root : Path) :
    List (List String × List Char) :=
  if wanted.isPresent then (documentation? m assembly root).toList else []

/-- The file of a manifest. -/
def manifestFile (manifest : Value) : List String × List Char :=
  ([Project.manifestName], (Json.print 2 manifest ++ "\n").toList)

/-- The documentation of a project laid out, if it is wanted. -/
def layDocuments (wanted : Value) (assembly root : Path) (done : Progress) : Act Progress :=
  if wanted.isPresent then writeDocumentation assembly root done else pure done

theorem layOut_eq (r : Runner) (s : Subject) (output documentation : Value) :
    layOut r s output documentation = (do
      let assembly ← assemblyPath s.assembly maxAssemblySize
      let d ← decompileAndDivide r s
      let root ← outputFolder output
      let done ← laySources d root
      let done ← layDocuments documentation assembly root done
      let manifest ← Project.manifest assembly (optionsValue s.typeName documentation) done.written
        (.arr (done.types.map (·.toValue))) d.units.keys
      let text := (Json.print 2 manifest ++ "\n").toList
      let done ← writeBelow root (root / Project.manifestName) text done
      return Text.inOrder done.written) := by
  simp only [layOut, laySources, layDocuments, bind_assoc]
  split <;> rfl

/-- The last character of a file's path. -/
def lastChar (file : List String × List Char) : Option Char := (relativeText file).toList.getLast?

theorem lastChar_of_mem_sourceFiles {text : List Char} {e : List String × List Char}
    (he : e ∈ sourceFiles (divide text)) : lastChar e = some 'j' ∨ lastChar e = some 's' := by
  rcases List.mem_cons.1 he with rfl | he
  · exact .inl (by decide)
  · obtain ⟨j, hj, rfl⟩ := List.mem_map.1 he
    exact .inr (getLast?_of_mem_projectJobs hj)

theorem lastChar_docs (s : String) (text : List Char) :
    lastChar (["Docs", s ++ ".xml"], text) = some 'l' := by
  have hlast := getLast?_segmentText ["Docs"] (s ++ ".xml") (by simp)
  rw [List.singleton_append] at hlast
  rw [lastChar, relativeText, hlast, String.toList_append,
    List.getLast?_append_of_ne_nil _ (by decide)]
  rfl

theorem lastChar_of_mem_documents {wanted : Value} {e : List String × List Char}
    (he : e ∈ documents wanted m assembly root) : lastChar e = some 'l' := by
  unfold documents at he
  split at he
  · obtain ⟨s, text, rfl⟩ := exists_of_documentation? (Option.mem_toList.1 he)
    exact lastChar_docs s text
  · cases he

theorem not_mem_of_lastChar {e : List String × List Char}
    (h : ∀ e' ∈ files, lastChar e' ≠ lastChar e) : e.1 ∉ files.map Prod.fst := by
  intro hmem
  obtain ⟨e', he', heq⟩ := List.mem_map.1 hmem
  exact h e' he' (by rw [lastChar, lastChar, relativeText, relativeText, heq])

theorem lastChar_manifestFile (manifest : Value) : lastChar (manifestFile manifest) = some 'n' := by
  have hlast : (Path.segmentText [Project.manifestName]).toList.getLast? = some 'n' := by decide
  exact hlast

theorem lastChar_ne_of_mem {text : List Char} {wanted : Value} {e : List String × List Char}
    (he : e ∈ sourceFiles (divide text) ++ documents wanted m assembly root) :
    lastChar e ≠ some 'n' := by
  rcases List.mem_append.1 he with he | he
  · rcases lastChar_of_mem_sourceFiles he with hlast | hlast <;> simp [hlast]
  · simp [lastChar_of_mem_documents he]

/-- No source lies where the documentation has its folder. -/
theorem docs_not_mem (text : List Char) :
    ["Docs"] ∉ (sourceFiles (divide text)).map Prod.fst := by
  rw [sourceFiles, List.map_cons, List.map_map, List.mem_cons, not_or]
  refine ⟨by decide, fun hmem => ?_⟩
  obtain ⟨j, hj, heq⟩ := List.mem_map.1 hmem
  obtain ⟨-, -, front, t, hpath⟩ := exists_of_mem_projectJobs hj
  have hboth : front ++ [t ++ ".cs"] = [] ++ ["Docs"] := hpath.symm.trans heq
  have hname : [t ++ ".cs"] = ["Docs"] := (List.append_inj' hboth rfl).2
  have hdot : '.' ∈ (t ++ ".cs").toList := by
    rw [String.toList_append]
    exact List.mem_append_right _ (by decide)
  rw [List.singleton_inj.1 hname] at hdot
  exact absurd hdot (by decide)

/-- No source lies where documentation goes. -/
theorem docs_xml_not_mem (text : List Char) (s : String) :
    ["Docs", s ++ ".xml"] ∉ (sourceFiles (divide text)).map Prod.fst := by
  refine not_mem_of_lastChar (e := (["Docs", s ++ ".xml"], [])) fun e he => ?_
  rw [lastChar_docs]
  rcases lastChar_of_mem_sourceFiles he with hlast | hlast <;> simp [hlast]

theorem holds_documents {text : List Char} {wanted : Value}
    (h : Holds m root q (sourceFiles (divide text))) (hroot : Direct root)
    (hrun : layDocuments wanted assembly root done m = .ok done' m') :
    done' = { done with
        written := done.written ++ (documents wanted m assembly root).map relativeText } ∧
      Holds m' root q (sourceFiles (divide text) ++ documents wanted m assembly root) ∧
      Added m m' q := by
  rw [layDocuments] at hrun
  unfold documents
  by_cases hwanted : wanted.isPresent = true
  · rw [if_pos hwanted] at hrun ⊢
    exact holds_writeDocumentation h hroot (docs_not_mem text) (docs_xml_not_mem text) hrun
  · rw [if_neg hwanted] at hrun ⊢
    cases hrun
    simpa using ⟨h, Added.refl _ q⟩

/-- No two files of a project have one path. -/
theorem nodup_relativeText {text : List Char} (h : FoldersDiffer root (divide text).units)
    (wanted : Value) (m : Machine) (assembly : Path) (manifest : Value) :
    ((sourceFiles (divide text) ++ documents wanted m assembly root ++
      [manifestFile manifest]).map relativeText).Nodup := by
  have hdocuments : ((documents wanted m assembly root).map relativeText).Nodup := by
    unfold documents
    split
    · cases documentation? m assembly root <;> simp
    · exact List.nodup_nil
  have hapart : ∀ {l l' : List (List String × List Char)},
      (∀ e ∈ l, ∀ e' ∈ l', lastChar e ≠ lastChar e') →
      (l.map relativeText).Disjoint (l'.map relativeText) := by
    intro l l' hne t hmem hmem'
    obtain ⟨e, he, rfl⟩ := List.mem_map.1 hmem
    obtain ⟨e', he', heq⟩ := List.mem_map.1 hmem'
    exact hne e he e' he' (by rw [lastChar, lastChar, heq])
  rw [List.map_append, List.map_append, ← List.map_append]
  refine List.Nodup.append ?_ (List.nodup_singleton _) (hapart fun e he e' he' => ?_)
  · rw [List.map_append]
    refine (nodup_sourceTexts h).append hdocuments (hapart fun e he e' he' => ?_)
    rw [lastChar_of_mem_documents he']
    rcases lastChar_of_mem_sourceFiles he with hlast | hlast <;> simp [hlast]
  · rw [List.mem_singleton.1 he', lastChar_manifestFile]
    exact lastChar_ne_of_mem he

/-- The paths of a project without that of its manifest. -/
theorem filter_relativeText {manifest : Value}
    (h : ((files ++ [manifestFile manifest]).map relativeText).Nodup) :
    ((files ++ [manifestFile manifest]).map relativeText).filter (· ≠ Project.manifestName) =
      files.map relativeText := by
  have hname : relativeText (manifestFile manifest) = Project.manifestName := by
    have htext : Path.segmentText [Project.manifestName] = Project.manifestName := by decide
    exact htext
  rw [List.map_append, List.map_singleton, hname] at h ⊢
  have hne : Project.manifestName ∉ files.map relativeText := fun hmem =>
    List.disjoint_of_nodup_append h hmem (List.mem_singleton_self _)
  rw [List.filter_append, List.filter_eq_self.2, List.filter_eq_nil_iff.2, List.append_nil]
  · simp
  · intro t ht
    exact decide_eq_true fun heq => hne (heq ▸ ht)

/-- **What a project holds.** On a sound machine an assembly is laid out in a folder that is missing or
empty by the time it is decompiled, and no two of its units have one folder. Then the folder holds, in
the order in which they were written, the project file, the files of all units, the documentation if it
is wanted and there by then, and the manifest; nothing else stands there but folders, and nothing that
stood anywhere is lost. The files that are told are these, each once and in order; the manifest lists
them without itself, the places of all types and the units in their order. -/
theorem layOut_leaves_project {r : Runner} {s : Subject} {output documentation : Value}
    {cwd : Place} {m₀ : Machine} {written : List String} (hsound : Sound cwd m₀)
    (hassembly : assemblyPath s.assembly maxAssemblySize m₀ = .ok assembly m₀)
    (hdivide : decompileAndDivide r s m₀ = .ok d m)
    (houtput : outputFolder output m = .ok root m) (hvacant : Vacant m root)
    (hdiffer : FoldersDiffer root d.units)
    (hrun : layOut r s output documentation m₀ = .ok written m') :
    ∃ q m₃ done manifest, laySources d root m = .ok done m₃ ∧ Leads m' root q ∧
      let files := sourceFiles d ++ documents documentation m₃ assembly root
      m'.disk.contents q = (files ++ [manifestFile manifest]).map Project.fileOf ∧
      written.Perm ((files ++ [manifestFile manifest]).map relativeText) ∧
      written.Pairwise (· < ·) ∧
      Describes manifest (written.filter (· ≠ Project.manifestName))
        ((projectJobs d).filterMap Job.place?) d.units.keys ∧
      Added m m' q := by
  have hsound' := (keeps_decompileAndDivide r s).ok hsound hdivide
  obtain ⟨texts, -, rfl⟩ := sourceTexts_of_decompileAndDivide hdivide
  rw [layOut_eq, bind_ok hassembly, bind_ok hdivide, bind_ok houtput] at hrun
  obtain ⟨done, m₃, hsources, hrest⟩ := exists_of_bind_ok hrun
  obtain ⟨-, p, hresolve⟩ := outputFolder_cases houtput
  have hdirect := direct_of_resolve hsound' hresolve
  obtain ⟨q, rfl, h₃, hadded₃⟩ := holds_laySources hsound'.rooted hdirect hvacant hdiffer hsources
  obtain ⟨done₄, m₄, hdocuments, hmanifest⟩ := exists_of_bind_ok hrest
  obtain ⟨rfl, h₄, hadded₄⟩ := holds_documents h₃ hdirect hdocuments
  obtain ⟨manifest, m₅, hvalue, hwrite⟩ := exists_of_bind_ok hmanifest
  obtain ⟨rfl, hdescribes⟩ := manifest_cases hvalue
  obtain ⟨done₆, m₆, hlast, hwritten⟩ := exists_of_bind_ok hwrite
  rw [div_single root (by decide) (by decide)] at hlast
  have hnew : New (sourceFiles (divide (Text.joinWith ['\n'] texts)) ++
      documents documentation m₃ assembly root) [Project.manifestName] := by
    refine ⟨isFilePath_single (by decide), not_mem_of_lastChar (e := manifestFile manifest) ?_⟩
    intro e he
    rw [lastChar_manifestFile]
    exact lastChar_ne_of_mem he
  obtain ⟨rfl, h₅, hadded₅⟩ := holds_writeBelow h₄ hdirect hnew hlast
  cases hwritten
  have hnodup := nodup_relativeText hdiffer documentation m₃ assembly manifest
  have htexts : ((sourceFiles (divide (Text.joinWith ['\n'] texts))).map relativeText ++
      (documents documentation m₃ assembly root).map relativeText) ++
      [Path.segmentText [Project.manifestName]] =
        (sourceFiles (divide (Text.joinWith ['\n'] texts)) ++
          documents documentation m₃ assembly root ++ [manifestFile manifest]).map relativeText := by
    simp [relativeText, manifestFile]
  simp only [htexts]
  refine ⟨q, m₃, _, manifest, hsources, h₅.leads, h₅.contents, Text.perm_inOrder _,
    Text.pairwise_lt_inOrder hnodup, ?_, (hadded₃.trans hadded₄).trans hadded₅⟩
  rw [Text.filter_inOrder, filter_relativeText hnodup, List.map_append]
  exact hdescribes

/-! ## Sample projects -/

/-- The sample machine with documentation beside the assembly. -/
def documentedMachine (text : String) : Machine :=
  let m := sampleMachine text
  let documentation := File.ofBytes (Text.Utf8.encode "<doc/>\r\n".toList)
  { m with disk := m.disk.put ["in", "A.xml"] (.file documentation) }

/-- Whether a text that a machine decompiles is laid out as a project in the folder `out`, which is
empty, with some documentation. -/
def projectRuns (text : String) (documentation : List (List String × List Char)) (m₀ : Machine) :
    Bool :=
  match assemblyPath sampleSubject.assembly maxAssemblySize m₀ with
  | .ok assembly _ => match decompileAndDivide sampleRunner sampleSubject m₀ with
    | .ok d m => match outputFolder (.str "/out") m with
      | .ok root _ => match laySources d root m with
        | .ok _ m₃ => d = divide text.toList ∧ root = ⟨.root, ["out"]⟩ ∧
            m.disk.place m.cwd .find root = .ok ["out"] ∧
            m.disk.look? ["out"] = some .folder ∧ m.disk.below ["out"] = [] ∧
            documents (.bool true) m₃ assembly root = documentation ∧
            (layOut sampleRunner sampleSubject (.str "/out") (.bool true)).yields m₀ fun _ => true
        | .error .. => false
      | .error .. => false
    | .error .. => false
  | .error .. => false

theorem exists_project_run {text : String} {documentation : List (List String × List Char)}
    {m₀ : Machine} (h : projectRuns text documentation m₀ = true) :
    ∃ assembly m done m₃ written m',
      assemblyPath sampleSubject.assembly maxAssemblySize m₀ = .ok assembly m₀ ∧
      decompileAndDivide sampleRunner sampleSubject m₀ = .ok (divide text.toList) m ∧
      outputFolder (.str "/out") m = .ok ⟨.root, ["out"]⟩ m ∧
      Files.LeadsToEmpty m ⟨.root, ["out"]⟩ ["out"] ∧
      laySources (divide text.toList) ⟨.root, ["out"]⟩ m = .ok done m₃ ∧
      documents (.bool true) m₃ assembly ⟨.root, ["out"]⟩ = documentation ∧
      layOut sampleRunner sampleSubject (.str "/out") (.bool true) m₀ = .ok written m' := by
  unfold projectRuns at h
  split at h
  · rename_i assembly m₁ hassembly
    obtain rfl : m₁ = m₀ := (keeps_assemblyPath _ _ (P := (· = m₀))).ok rfl hassembly
    split at h
    · rename_i d m hdivide
      split at h
      · rename_i root m₂ houtput
        obtain ⟨rfl, -⟩ := outputFolder_cases houtput
        split at h
        · rename_i done m₃ hsources
          obtain ⟨rfl, rfl, hplace, hlook, hbelow, hdocuments, hruns⟩ := of_decide_eq_true h
          obtain ⟨written, m', hruns, -⟩ := Act.exists_of_yields hruns
          exact ⟨assembly, m₂, done, m₃, written, m', hassembly, hdivide, houtput,
            ⟨hplace, hlook, by decide, hbelow⟩, hsources, hdocuments, hruns⟩
        · cases h
      · cases h
    · cases h
  · cases h

theorem vacant_of_leadsToEmpty (h : Files.LeadsToEmpty m root q) : Vacant m root := by
  intro q' hq'
  rw [h.place] at hq'
  cases hq'
  exact h.empty

/-- A unit with two types, a unit with none, and documentation. -/
theorem layOut_leaves_two_units :
    let text := "using X;\nnamespace A.B \x7b class C { }\nclass D { } \x7d"
    let d := divide text.toList
    let m₀ := documentedMachine text
    Sound [] m₀ ∧ ∃ (assembly : Path) (m m' : Machine) (written : List String) (manifest : Value),
      assemblyPath sampleSubject.assembly maxAssemblySize m₀ = .ok assembly m₀ ∧
      decompileAndDivide sampleRunner sampleSubject m₀ = .ok d m ∧
      outputFolder (.str "/out") m = .ok ⟨.root, ["out"]⟩ m ∧
      Vacant m ⟨.root, ["out"]⟩ ∧ FoldersDiffer ⟨.root, ["out"]⟩ d.units ∧
      layOut sampleRunner sampleSubject (.str "/out") (.bool true) m₀ = .ok written m' ∧
      (m'.disk.contents ["out"]).map Prod.fst = [["Decompiled.csproj"], ["global", "Global.cs"],
        ["A", "B", "C.cs"], ["A", "B", "D.cs"], ["Docs", "A.xml"], ["Decompiled.manifest.json"]] ∧
      Describes manifest (written.filter (· ≠ "Decompiled.manifest.json"))
        [⟨"A.B", "C", "A/B/C.cs"⟩, ⟨"A.B", "D", "A/B/D.cs"⟩] ["(global)", "A.B"] := by
  intro text d m₀
  have hsound : Sound [] m₀ := ⟨rfl, by decide +kernel, Disk.stands_nil _, .inr (by simp)⟩
  have hkeys : d.units.keys = ["(global)", "A.B"] := by decide +kernel
  have hfiles : (sourceFiles d).map Prod.fst = [["Decompiled.csproj"], ["global", "Global.cs"],
      ["A", "B", "C.cs"], ["A", "B", "D.cs"]] := by decide +kernel
  have htypes : (projectJobs d).filterMap Job.place? =
      [⟨"A.B", "C", "A/B/C.cs"⟩, ⟨"A.B", "D", "A/B/D.cs"⟩] := by decide +kernel
  have hruns : projectRuns text [(["Docs", "A.xml"], "<doc/>\n".toList)] m₀ = true := by
    decide +kernel
  obtain ⟨assembly, m, done, m₃, written, m', hassembly, hdivide, houtput, hempty, hsources,
    hdocuments, hrun⟩ := exists_project_run hruns
  have hvacant := vacant_of_leadsToEmpty hempty
  have hdiffer : FoldersDiffer ⟨.root, ["out"]⟩ d.units :=
    (foldersDiffer_iff _ _).2 (by rw [hkeys]; decide)
  obtain ⟨q, m₃', done', manifest, hsources', hleads, hcontents, -, -, hdescribes, hadded⟩ :=
    layOut_leaves_project hsound hassembly hdivide houtput hvacant hdiffer hrun
  obtain rfl := hleads.unique (hadded.leads hempty.leads)
  rw [hsources] at hsources'
  cases hsources'
  rw [htypes, hkeys] at hdescribes
  refine ⟨hsound, assembly, m, m', written, manifest, hassembly, hdivide, houtput, hvacant, hdiffer,
    hrun, ?_, hdescribes⟩
  have hnames : ∀ l : List (List String × List Char),
      (l.map Project.fileOf).map Prod.fst = l.map Prod.fst := fun l => by
    rw [List.map_map]
    rfl
  rw [hcontents, hdocuments, hnames, List.map_append, List.map_append, hfiles]
  rfl

/-- A machine on which ilspycmd is found on the search path, by somebody who stands in the folder for
the project. -/
def standingMachine : Machine :=
  let m := sampleMachine "class C { }"
  let program : File := { File.ofBytes [] with executable := true }
  { m with
    disk := (m.disk.put ["bin"] .folder).put ["bin", "ilspycmd"] (.file program)
    environment := Table.empty.insert "PATH" "/bin"
    cwd := ["out"]
    memory := ⟨none, none⟩ }

/-- Whether the project of a text is laid out in the folder `out`, with a file at a place below it. -/
def leavesFile (text : String) (names : List String) (m₀ : Machine) : Bool :=
  match assemblyPath sampleSubject.assembly maxAssemblySize m₀ with
  | .ok _ _ => match decompileAndDivide sampleRunner sampleSubject m₀ with
    | .ok d m => match outputFolder (.str "/out") m with
      | .ok root _ => match layOut sampleRunner sampleSubject (.str "/out") .null m₀ with
        | .ok _ m' => match m'.disk.node? (["out"] ++ names) with
          | some (.file _) => d = divide text.toList ∧ root = ⟨.root, ["out"]⟩
          | _ => false
        | .error .. => false
      | .error .. => false
    | .error .. => false
  | .error .. => false

theorem exists_file_left {text : String} {names : List String} {m₀ : Machine}
    (h : leavesFile text names m₀ = true) : ∃ assembly m written m' f,
      assemblyPath sampleSubject.assembly maxAssemblySize m₀ = .ok assembly m₀ ∧
      decompileAndDivide sampleRunner sampleSubject m₀ = .ok (divide text.toList) m ∧
      outputFolder (.str "/out") m = .ok ⟨.root, ["out"]⟩ m ∧
      layOut sampleRunner sampleSubject (.str "/out") .null m₀ = .ok written m' ∧
      m'.disk.node? (["out"] ++ names) = some (.file f) := by
  unfold leavesFile at h
  split at h
  · rename_i assembly m₁ hassembly
    obtain rfl : m₁ = m₀ := (keeps_assemblyPath _ _ (P := (· = m₀))).ok rfl hassembly
    split at h
    · rename_i d m hdivide
      split at h
      · rename_i root m₂ houtput
        obtain ⟨rfl, -⟩ := outputFolder_cases houtput
        split at h
        · rename_i written m' hrun
          split at h
          · rename_i f hnode
            obtain ⟨rfl, rfl⟩ := of_decide_eq_true h
            exact ⟨assembly, m₂, written, m', f, hassembly, hdivide, houtput, hrun, hnode⟩
          · cases h
        · cases h
      · cases h
    · cases h
  · cases h

/-- Where somebody stands in the empty folder that a project goes to, the path of ilspycmd is saved
there too. -/
theorem settings_join_project :
    let d := divide "class C { }".toList
    let root : Path := ⟨.root, ["out"]⟩
    Sound ["out"] standingMachine ∧ Vacant standingMachine root ∧ FoldersDiffer root d.units ∧
    ∃ assembly m written m',
      assemblyPath sampleSubject.assembly maxAssemblySize standingMachine =
        .ok assembly standingMachine ∧
      decompileAndDivide sampleRunner sampleSubject standingMachine = .ok d m ∧
      outputFolder (.str "/out") m = .ok root m ∧
      layOut sampleRunner sampleSubject (.str "/out") .null standingMachine = .ok written m' ∧
      ∀ manifest, ¬ (m'.disk.contents ["out"]).Perm
        ((sourceFiles d ++ [manifestFile manifest]).map Project.fileOf) := by
  intro d root
  have hkeys : d.units.keys = ["(global)"] := by decide +kernel
  have hfiles : (sourceFiles d).map Prod.fst = [["Decompiled.csproj"], ["global", "C.cs"]] := by
    decide +kernel
  have hplace : standingMachine.disk.place standingMachine.cwd .find root = .ok ["out"] := by
    decide +kernel
  have hlook : standingMachine.disk.look? ["out"] = some .folder := by decide +kernel
  have hsound : Sound ["out"] standingMachine :=
    ⟨rfl, by decide +kernel, (Disk.stands_nil _).child hlook, .inr fun n hn => by
      rw [List.mem_singleton.1 hn]
      exact ⟨by decide, by decide⟩⟩
  have hvacant : Vacant standingMachine root :=
    vacant_of_leadsToEmpty ⟨hplace, hlook, by decide, by decide +kernel⟩
  have hdiffer : FoldersDiffer root d.units := (foldersDiffer_iff _ _).2 (by rw [hkeys]; decide)
  have hleaves : leavesFile "class C { }" [".env"] standingMachine = true := by decide +kernel
  obtain ⟨assembly, m, written, m', f, hassembly, hdivide, houtput, hrun, hnode⟩ :=
    exists_file_left hleaves
  refine ⟨hsound, hvacant, hdiffer, assembly, m, written, m', hassembly, hdivide, houtput, hrun,
    fun manifest hperm => ?_⟩
  have hmem := hperm.subset (Disk.mem_contents_iff.2 ⟨by simp, by simp, hnode⟩)
  obtain ⟨e, he, heq⟩ := List.mem_map.1 hmem
  have hname : [".env"] ∈ (sourceFiles d ++ [manifestFile manifest]).map Prod.fst :=
    List.mem_map.2 ⟨e, he, congrArg Prod.fst heq⟩
  rw [List.map_append, hfiles] at hname
  simp [manifestFile, Project.manifestName] at hname

end Decompilation.Service
