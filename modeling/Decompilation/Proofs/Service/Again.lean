import Decompilation.Proofs.Runner.Remember
import Decompilation.Proofs.Runner.Spare
import Decompilation.Proofs.Service.Containment
import Decompilation.Proofs.Service.Rewrite

/-!
# A project laid out again

Where an ilspycmd is remembered, an assembly that is decompiled leaves the disk as it is
(`alike_of_decompileAndDivide`). So a project that is laid out again, with nothing new to say, changes no
file but its manifest (`layOut_again`).
-/

namespace Decompilation.Service

open Act (Keeps Turns bind_ok exists_of_bind_ok)
open Files (AtOrBelow Below Leads Written WritesAt)
open Json (Value)
open Project (Laid Linkless New)
open Runner (SparedTidy)
open Source (Division divide)

variable {r : Runner} {s : Subject} {d : Division} {m m' : Machine}

/-! ## Decompiling again -/

/-- Two machines on which the same things stand, with one environment and the same homes, for somebody who
stands at one place. -/
structure Alike (m m' : Machine) : Prop where
  node? : ∀ p, m'.disk.node? p = m.disk.node? p
  links : m.disk.SameLinks m'.disk
  cwd : m'.cwd = m.cwd
  environment : m'.environment = m.environment
  homes : m'.homes = m.homes

theorem Alike.stat (h : Alike m m') (p : Path) :
    m'.disk.stat m'.cwd p = m.disk.stat m.cwd p := by
  rw [h.cwd, Disk.stat_congr h.node?]

/-- An ilspycmd is remembered on a machine that has the environment and the homes of another one, and
the same at the root of its disk. -/
def RemembersWith (m₀ m : Machine) : Prop :=
  Remembers m ∧ m.environment = m₀.environment ∧ m.homes = m₀.homes ∧
    m.disk.nodes.get? [] = m₀.disk.nodes.get? []

theorem steady_remembersWith (m₀ : Machine) : Steady (RemembersWith m₀) where
  of_eq hm hdisk hcwd henvironment hhomes htoolbox hmemory :=
    ⟨Runner.steady_remembers.of_eq hm.1 hdisk hcwd henvironment hhomes htoolbox hmemory,
      henvironment.trans hm.2.1, hhomes.trans hm.2.2.1, hdisk ▸ hm.2.2.2⟩
  next hm := hm

theorem takes_remembersWith (m₀ : Machine) (p : Path) (n : Node) :
    Files.Takes (RemembersWith m₀) p n := by
  intro m aim q hm _ hfree
  have hne : q ≠ [] := by
    rintro rfl
    exact hfree.look?_ne_folder rfl
  refine ⟨hm.1, hm.2.1, hm.2.2.1, ?_⟩
  rw [Disk.put, Table.get?_insert_of_ne _ _ (Ne.symm hne)]
  exact hm.2.2.2

theorem keeps_decompileAndDivide_remembersWith (r : Runner) (s : Subject) (m₀ : Machine) :
    Keeps (RemembersWith m₀) (decompileAndDivide r s) := by
  refine (keeps_assemblyPath _ _).bind fun assembly => Keeps.bind ?_ fun texts => .pure _
  refine Files.keeps_withScratch (fun p => takes_remembersWith m₀ p .folder) ?_ fun folder => ?_
  · intro m m' q hm hlook hm'
    have hne : ¬ q <+: [] := by
      rw [List.prefix_nil]
      rintro rfl
      cases hlook
    refine ⟨hm'.1, hm'.2.1, hm'.2.2.1, ?_⟩
    rw [← List.isPrefixOf_iff_prefix, Bool.not_eq_true] at hne
    rw [Disk.removeTree, Table.get?_filterKeys, hne]
    exact hm'.2.2.2
  · exact Runner.turns_decompileAndRead (steady_remembersWith m₀) (steady_remembersWith m₀).calm
      (Runner.keeps_resolve_of_remembers fun m hm => hm.1) (.of_takes (takes_remembersWith m₀))
      assembly _ _ _

/-- Where an ilspycmd is remembered that writes where it is told to, an assembly is decompiled without
a trace. -/
theorem alike_of_decompileAndDivide (hsound : Sound m.cwd m) (htidy : m.toolbox.Tidy)
    (hscratch : m.scratch.Canonical) (hremembers : Remembers m)
    (hrun : decompileAndDivide r s m = .ok d m') : Alike m m' := by
  have hlasting : Lasting m.cwd fun _ _ => False := fun _ _ _ _ _ _ h => h
  have halone : Files.LeavesAlone (fun _ _ => False) m ((decompileAndDivide r s).after m) := by
    rw [decompileAndDivide_eq]
    refine Keeps.after_bind ?_ fun _ => .pure _
    refine Keeps.after_reads (keeps_assemblyPath _ _) (.inl rfl) fun assembly => ?_
    refine Files.withScratch_spares (P := fun m => m.toolbox.Tidy ∧ Remembers m) hsound
      (fun _ => ⟨htidy, hremembers⟩) fun folder t hfresh => ?_
    have hfolder := Runner.canonical_of_freshPath? hscratch hfresh
    have hturns : Turns (fun m' => SparedTidy (fun _ _ => False) m folder t m' ∧ Remembers m')
        (fun m' => Spared (fun _ _ => False) m t m' ∧ Remembers m') _ :=
      Runner.turns_decompileAndRead (Runner.steady_sparedTidy.and Runner.steady_remembers)
        (Runner.calm_spared.and Runner.steady_remembers.calm)
        (Runner.keeps_resolve_of_remembers (r := r) fun m hm => hm.2)
        ((Runner.receives_spared hlasting hfolder).and (.of_takes fun _ _ _ _ _ hm _ _ => hm))
        assembly s.typeName .null Runner.sourceSuffixes
    exact fun m' hm' => (hturns m' (and_assoc.2 hm')).1
  rw [Act.after_ok hrun] at halone
  have hsame : ∀ p, m'.disk.node? p = m.disk.node? p := by
    intro p
    rcases halone with hdisk | ⟨folder, t, d', -, -, -, -, honly⟩
    · rw [hdisk]
    · exact (honly p).resolve_right id
  obtain ⟨-, henvironment, hhomes, hroot⟩ := (keeps_decompileAndDivide_remembersWith r s m).ok
    ⟨hremembers, rfl, rfl, rfl⟩ hrun
  exact ⟨hsame, .of_node? (fun p => (hsame p).symm) hroot.symm,
    ((keeps_decompileAndDivide r s).ok hsound hrun).cwd_eq, henvironment, hhomes⟩

/-- An assembly that was decompiled was so by an ilspycmd that is remembered. -/
theorem remembers_of_decompileAndDivide (hrun : decompileAndDivide r s m = .ok d m') : Remembers m' := by
  obtain ⟨texts, htexts, -⟩ := sourceTexts_of_decompileAndDivide hrun
  obtain ⟨assembly, m₁, -, hscratch⟩ := exists_of_bind_ok htexts
  obtain ⟨folder, t, m₂, m₃, -, hact, rfl⟩ := Files.withScratch_ok hscratch
  obtain ⟨_, m₄, hdecompile, hrest⟩ := exists_of_bind_ok hact
  have hm₃ : Remembers m₃ := ((Runner.keeps_collect folder _).bind fun _ =>
    Runner.keeps_readAll Runner.steady_remembers.calm _ _ _).ok
      (Runner.remembers_of_decompileTo hdecompile) hrest
  exact hm₃

/-! ## A whole project -/

theorem exists_manifest {assembly : Path} {n : Node} (h : m.disk.stat m.cwd assembly = .ok n)
    (options types : Value) (files namespaces : List String) :
    ∃ manifest, Project.manifest assembly options files types namespaces m = .ok manifest m := by
  rw [Project.manifest, bind_ok (Act.get_eq m), bind_ok (Act.get_eq m), h]
  cases n <;> exact ⟨_, rfl⟩

variable {assembly root : Path} {q : Place} {cwd : Place} {files : List (List String × List Char)}

/-- A manifest is written over what is there of it. -/
theorem exists_manifest_over (done : Progress) {t : List Char} (h : Laid cwd root q files m)
    (ht : ([Project.manifestName], t) ∈ files) (text : List Char) : ∃ done' m',
      writeBelow root (root / Project.manifestName) text done m = .ok done' m' ∧
      (done'.written = done.written ∨ done'.written = done.written ++ [Project.manifestName]) ∧
      ∀ p, p ≠ q ++ [Project.manifestName] → m'.disk.node? p = m.disk.node? p := by
  have hname : Disk.Ordinary Project.manifestName := Project.ordinary_of_length (by decide)
  obtain ⟨written, m', hwrite, hwritten, hsame⟩ :=
    h.exists_writeAndList_over hname ht rfl text done.written
  have hsegment : Path.segmentText [Project.manifestName] = Project.manifestName := by decide
  rw [hsegment] at hwritten
  rw [Project.div_eq_child root (by decide) hname]
  exact ⟨_, m', bind_ok hwrite _, hwritten, hsame⟩

/-- A project of a text has been laid out: its sources and a manifest are there, and so is its
documentation, as far as there can be any. -/
structure LaidOut (cwd : Place) (root : Path) (q : Place) (text : List Char) (documentation : Value)
    (assembly : Path) (m : Machine) : Prop where
  laid : ∃ files t, Laid cwd root q files m ∧ sourceFiles (divide text) ⊆ files ∧
    ([Project.manifestName], t) ∈ files
  documents : ∀ done, layDocuments documentation assembly root done m = .ok done m

/-- What laying out a project leaves, and any machine like that on which its documentation is the
same. -/
theorem laidOut_of_run {text : List Char} {documentation : Value} {done done₄ done₁ : Progress}
    {m₃ m₄ m₁ : Machine} {manifest : List Char} (hsound : Sound cwd m) (hdirect : Files.Direct root)
    (hplain : Linkless m root) (htext : '\r' ∉ text)
    (hdiffer : FoldersDiffer root (divide text).units)
    (hsources : laySources (divide text) root m = .ok done m₃)
    (hdocuments : layDocuments documentation assembly root done m₃ = .ok done₄ m₄)
    (hmanifest : writeBelow root (root / Project.manifestName) manifest done₄ m₄ = .ok done₁ m₁) :
    Written cwd m m₁ ∧ ∃ q, Leads m₁ root q ∧ ∀ m₂, Sound cwd m₂ → Alike m₁ m₂ →
      (∀ p, assembly.withSuffix? ".xml" = some p →
        m₁.disk.stat m₁.cwd p = m₃.disk.stat m₃.cwd p) →
      LaidOut cwd root q text documentation assembly m₂ := by
  obtain ⟨q, h₃⟩ := laid_laySources hsound hdirect hplain htext hdiffer hsources
  obtain ⟨added, h₄, hadded, hagain⟩ :=
    laid_layDocuments h₃ hdirect.anchored (docs_xml_not_mem text) hdocuments
  have hw₃ := Act.after_ok hsources ▸ (writesAt_laySources text root).written hsound
  have hw₄ := Act.after_ok hdocuments ▸
    (writesAt_layDocuments documentation assembly root done).written h₃.sound
  have hw₁ := Act.after_ok hmanifest ▸
    (writesAt_single root (by decide) (by decide) manifest done₄).written h₄.sound
  have hnew : New (sourceFiles (divide text) ++ added) [Project.manifestName] := by
    refine ⟨isFilePath_single (by decide), not_mem_of_lastChar (e := ([Project.manifestName], [])) ?_⟩
    intro e he
    have hlast : lastChar ([Project.manifestName], []) = some 'n' := by decide
    rw [hlast]
    rcases List.mem_append.1 he with he | he
    · rcases lastChar_of_mem_sourceFiles he with hlast | hlast <;> simp [hlast]
    · simp [hadded e he]
  obtain ⟨written, m', hwrite, hdone⟩ := exists_of_bind_ok hmanifest
  cases hdone
  rw [div_single root (by decide) (by decide)] at hwrite
  obtain ⟨t, h₁, -⟩ := h₄.exists_of_writeAndList hnew hwrite
  refine ⟨(hw₃.trans hw₄).trans hw₁, q, h₁.clear.leads, fun m₂ hsound₂ halike hsame => ?_⟩
  have h₂ := h₁.congr hsound₂ halike.node?
  refine ⟨⟨_, t, h₂, ?_, List.mem_concat_self⟩, fun done₂ => hagain m₂ done₂ ?_ ?_ ?_⟩
  · exact List.Subset.trans (List.subset_append_left _ _) (List.subset_append_left _ _)
  · exact h₂.mono (List.subset_append_left _ _)
  · exact hw₁.stays.trans fun p n hn => .inl ((halike.node? p).trans hn)
  · exact fun p hp => (halike.stat p).trans (hsame p hp)

/-- What is laid out is laid out again with no change but that of its manifest. -/
theorem LaidOut.exists_layOut {text : List Char} {output documentation : Value} {f : File}
    (h : LaidOut cwd root q text documentation assembly m')
    (hassembly : assemblyPath s.assembly maxAssemblySize m = .ok assembly m)
    (hdivide : decompileAndDivide r s m = .ok (divide text) m')
    (houtput : outputFolder output m' = .ok root m')
    (hstat : m'.disk.stat m'.cwd assembly = .ok (.file f)) : ∃ written m₁,
      layOut r s output documentation m = .ok written m₁ ∧
      (written = [] ∨ written = [Project.manifestName]) ∧
      ∀ p, p ≠ q ++ [Project.manifestName] → m₁.disk.node? p = m'.disk.node? p := by
  obtain ⟨files, t, hlaid, hsources, hmanifest⟩ := h.laid
  obtain ⟨types, hsources'⟩ := laySources_again hlaid hsources
  obtain ⟨manifest, hvalue⟩ := exists_manifest hstat (optionsValue s.typeName documentation)
    (.arr (types.map (·.toValue))) [] (divide text).units.keys
  obtain ⟨done, m₁, hwrite, hwritten, hsame⟩ := exists_manifest_over ⟨[], types⟩ hlaid
    hmanifest (Json.print 2 manifest ++ "\n").toList
  refine ⟨Text.inOrder done.written, m₁, ?_, ?_, hsame⟩
  · rw [layOut_eq, bind_ok hassembly, bind_ok hdivide, bind_ok houtput, bind_ok hsources',
      bind_ok (h.documents _), bind_ok hvalue]
    exact bind_ok hwrite _
  · have hperm := Text.perm_inOrder done.written
    rcases hwritten with hwritten | hwritten
    · rw [hwritten] at hperm ⊢
      exact .inl hperm.eq_nil
    · rw [hwritten] at hperm ⊢
      exact .inr (List.perm_singleton.1 hperm)

/-- **Laid out again, a project stays as it is.** On a sound machine an assembly is laid out in a folder
in which there are no links by the time it is decompiled, whatever else is in it, and no two of its
units have one folder. Afterwards time may pass, and programs may do other things, as long as they write
where they are told to. If the assembly is still accepted and is divided as before, and the
documentation beside it is what it was when it was copied, then it is laid out again: nothing is written
but perhaps the manifest, and everything stays that stands anywhere else. -/
theorem layOut_again {output documentation : Value} {m₀ m₁ m₂ m₃ : Machine} {done : Progress}
    {written : List String} {clock : Clock} {toolbox : Toolbox} (hsound : Sound cwd m₀)
    (hassembly : assemblyPath s.assembly maxAssemblySize m₀ = .ok assembly m₀)
    (hdivide : decompileAndDivide r s m₀ = .ok d m)
    (houtput : outputFolder output m = .ok root m) (hplain : Linkless m root)
    (hdiffer : FoldersDiffer root d.units) (hsources : laySources d root m = .ok done m₃)
    (hrun : layOut r s output documentation m₀ = .ok written m₁)
    (htidy : toolbox.Tidy) (hscratch : m₁.scratch.Canonical)
    (hassembly' : assemblyPath s.assembly maxAssemblySize { m₁ with clock, toolbox } =
      .ok assembly { m₁ with clock, toolbox })
    (hdivide' : decompileAndDivide r s { m₁ with clock, toolbox } = .ok d m₂)
    (hsame : ∀ p, assembly.withSuffix? ".xml" = some p →
      m₁.disk.stat m₁.cwd p = m₃.disk.stat m₃.cwd p) :
    ∃ q written' m', layOut r s output documentation { m₁ with clock, toolbox } = .ok written' m' ∧
      Leads m₁ root q ∧ (written' = [] ∨ written' = [Project.manifestName]) ∧
      ∀ p, p ≠ q ++ [Project.manifestName] → m'.disk.node? p = m₁.disk.node? p := by
  have hsound' := (keeps_decompileAndDivide r s).ok hsound hdivide
  obtain ⟨text, rfl, htext⟩ := exists_text_of_divide hdivide
  obtain ⟨-, p, hresolve⟩ := outputFolder_cases houtput
  have hdirect := direct_of_resolve hsound' hresolve
  rw [layOut_eq, bind_ok hassembly, bind_ok hdivide, bind_ok houtput, bind_ok hsources] at hrun
  obtain ⟨done₄, m₄, hdocuments, hmanifest⟩ := exists_of_bind_ok hrun
  obtain ⟨manifest, m₅, hvalue, hwrite⟩ := exists_of_bind_ok hmanifest
  obtain ⟨rfl, -⟩ := manifest_cases hvalue
  obtain ⟨done₆, m₆, hlast, hwritten⟩ := exists_of_bind_ok hwrite
  cases hwritten
  obtain ⟨hwritten, q, hleads, hlaid⟩ :=
    laidOut_of_run hsound' hdirect hplain htext hdiffer hsources hdocuments hlast
  -- the second run starts where the first one ended, and an ilspycmd is remembered there
  obtain rfl := hwritten.sound.cwd_eq
  have hsound₁ : Sound m₁.cwd { m₁ with clock, toolbox } := hwritten.sound.of_eq rfl rfl
  have hremembers : Remembers { m₁ with clock, toolbox } := by
    have hremembers := remembers_of_decompileAndDivide hdivide
    rw [Remembers, hwritten.only_disk]
    exact hremembers
  have halike := alike_of_decompileAndDivide (m := { m₁ with clock, toolbox }) hsound₁ htidy hscratch
    hremembers hdivide'
  have halike' : Alike m₁ m₂ :=
    ⟨halike.node?, halike.links, halike.cwd, halike.environment, halike.homes⟩
  have hsound₂ := (keeps_decompileAndDivide r s).ok hsound₁ hdivide'
  have hlaid₂ := hlaid m₂ hsound₂ halike' hsame
  obtain ⟨files, t, h₂, -, -⟩ := hlaid₂.laid
  have houtput₂ : outputFolder output m₂ = .ok root m₂ := by
    refine outputFolder_again houtput (hsound₂.cwd_eq.trans hsound'.cwd_eq.symm) ?_ ?_
      (hwritten.links.trans halike'.links) h₂.clear.leads
    · rw [halike'.environment, hwritten.only_disk]
    · rw [halike'.homes, hwritten.only_disk]
  obtain ⟨f, hstat⟩ := stat_of_assemblyPath hassembly'
  obtain ⟨written', m', hrun', hnew, hunchanged⟩ :=
    hlaid₂.exists_layOut hassembly' hdivide' houtput₂ ((halike.stat assembly).trans hstat)
  exact ⟨q, written', m', hrun', hleads, hnew, fun p hp => (hunchanged p hp).trans (halike.node? p)⟩

/-- The sample machine with documentation beside the assembly and an old project file in the folder
`out`. -/
def refilledMachine (text : String) : Machine :=
  let m := documentedMachine text
  { m with disk := m.disk.put ["out", "Decompiled.csproj"] (.file (File.ofBytes [60, 13, 62])) }

theorem tidy_refilledMachine (text : String) : (refilledMachine text).toolbox.Tidy :=
  Toolbox.tidy_of_single _ 0 "" ""

/-- Whether a text that a machine decompiles is laid out as a project in the folder `out`, in which there
are no links, and is decompiled again, later, where the assembly and its documentation are the same. -/
def runsAgain (text : String) (clock : Clock) (m₀ : Machine) : Bool :=
  (assemblyPath sampleSubject.assembly maxAssemblySize).endsWith m₀ fun assembly _ =>
  (decompileAndDivide sampleRunner sampleSubject).endsWith m₀ fun d m =>
  (outputFolder (.str "/out")).endsWith m fun root _ =>
  (laySources d root).endsWith m fun _ m₃ =>
  (layOut sampleRunner sampleSubject (.str "/out") (.bool true)).endsWith m₀ fun _ m₁ =>
  let again : Machine := { m₁ with clock, toolbox := m₀.toolbox }
  (assemblyPath sampleSubject.assembly maxAssemblySize).endsWith again fun assembly' _ =>
  (decompileAndDivide sampleRunner sampleSubject).endsWith again fun d' _ =>
    d = divide text.toList ∧ d' = d ∧ root = ⟨.root, ["out"]⟩ ∧ assembly' = assembly ∧
      m.disk.place m.cwd .find root = .ok ["out"] ∧ m.disk.node? ["out"] = some .folder ∧
      (m.disk.below ["out"]).all (fun e => match e.2 with | .link _ => false | _ => true) = true ∧
      m₁.disk.place m₁.cwd .find root = .ok ["out"] ∧ m₁.scratch.Canonical ∧
      ((assembly.withSuffix? ".xml").all fun p =>
        m₁.disk.stat m₁.cwd p = m₃.disk.stat m₃.cwd p) = true

/-- A project of two units over an old project file, laid out again a year later. -/
theorem layOut_again_two_units :
    let text := "using X;\nnamespace A.B \x7b class C { }\nclass D { } \x7d"
    let d := divide text.toList
    let m₀ := refilledMachine text
    let clock : Clock := ⟨2025, 1, 2, 3, 4, 5, 0⟩
    Sound [] m₀ ∧ FoldersDiffer ⟨.root, ["out"]⟩ d.units ∧ m₀.toolbox.Tidy ∧
    ∃ (written written' : List String) (m₁ m' : Machine),
      layOut sampleRunner sampleSubject (.str "/out") (.bool true) m₀ = .ok written m₁ ∧
      layOut sampleRunner sampleSubject (.str "/out") (.bool true)
        { m₁ with clock, toolbox := m₀.toolbox } = .ok written' m' ∧
      (written' = [] ∨ written' = [Project.manifestName]) ∧
      m'.disk.node? ["out", "A", "B", "C.cs"] = m₁.disk.node? ["out", "A", "B", "C.cs"] := by
  intro text d m₀ clock
  have hruns : runsAgain text clock m₀ = true := by decide +kernel
  have hkeys : d.units.keys = ["(global)", "A.B"] := by decide +kernel
  have hdiffer : FoldersDiffer ⟨.root, ["out"]⟩ d.units :=
    (foldersDiffer_iff _ _).2 (by rw [hkeys]; decide)
  have hsound : Sound [] m₀ := ⟨rfl, by decide +kernel, Disk.stands_nil _, .inr (by simp)⟩
  obtain ⟨assembly, m, hassembly, hruns⟩ := Act.exists_of_endsWith hruns
  obtain rfl : m = m₀ := (keeps_assemblyPath _ _ (P := (· = m₀))).ok rfl hassembly
  obtain ⟨d₁, m, hdivide, hruns⟩ := Act.exists_of_endsWith hruns
  obtain ⟨root, m₂, houtput, hruns⟩ := Act.exists_of_endsWith hruns
  obtain rfl : m = m₂ := (outputFolder_cases houtput).1.symm
  obtain ⟨done, m₃, hsources, hruns⟩ := Act.exists_of_endsWith hruns
  obtain ⟨written, m₁, hrun, hruns⟩ := Act.exists_of_endsWith hruns
  obtain ⟨assembly', m₄, hassembly', hruns⟩ := Act.exists_of_endsWith hruns
  obtain rfl := (keeps_assemblyPath _ _ (P := (· = { m₁ with clock, toolbox := m₀.toolbox }))).ok rfl
    hassembly'
  obtain ⟨d₂, m₂, hdivide', hchecks⟩ := Act.exists_of_endsWith hruns
  obtain ⟨rfl, rfl, rfl, hpath, hplace, hfolder, hplain, hplace', hscratch, hstat⟩ :=
    of_decide_eq_true hchecks
  subst hpath
  have hlinkless : Linkless m ⟨.root, ["out"]⟩ := by
    intro q hq names target hnode
    obtain rfl := Except.ok.inj (hplace.symm.trans hq)
    by_cases hne : names = []
    · rw [hne, List.append_nil, hfolder] at hnode
      cases hnode
    · have hmem := List.all_eq_true.1 hplain _ (Disk.mem_below_iff.2 ⟨hne, hnode⟩)
      cases hmem
  have hsame : ∀ p, assembly'.withSuffix? ".xml" = some p →
      m₁.disk.stat m₁.cwd p = m₃.disk.stat m₃.cwd p := fun p hp => by
    rw [hp] at hstat
    exact of_decide_eq_true hstat
  obtain ⟨q, written', m', hrun', hleads, hwritten, hunchanged⟩ := layOut_again hsound hassembly
    hdivide houtput hlinkless hdiffer hsources hrun (tidy_refilledMachine text) hscratch hassembly'
    hdivide' hsame
  obtain rfl := Except.ok.inj (hleads.place.symm.trans hplace')
  exact ⟨hsound, hdiffer, tidy_refilledMachine text, written, written', m₁, m', hrun, hrun', hwritten,
    hunchanged _ (by decide)⟩

end Decompilation.Service
