import Decompilation.Proofs.Runner.Collect
import Decompilation.Proofs.Service.Request
import Decompilation.Proofs.Service.Spill

/-!
# Runs that leave the same files

What an assembly is decompiled to is a function of the files that ilspycmd leaves. Where two attempts at
it leave the same files (`SameFiles`) and no path is too long, they collect the same list, in whatever
order and among whatever folders the files were made, and where they end alike besides (`EndAlike`),
they give the same text and the same units, or the same fault (`results_follow_files`).
-/

namespace Decompilation.Service

open Act
open Json (Value)
open Runner (Holds Listable collect limits readAll)

variable {α : Type} {act : Path → Act α} {m m' : Machine} {folder : Path} {t : Place}

theorem outcome_withScratch (hfresh : Files.freshPath? m = some folder)
    (hmade : Files.newFolder folder m = .ok t m') :
    (Files.withScratch act).outcome m = (act folder).outcome m' := by
  have hscratch : Files.withScratch act m = Files.clearing (act folder) t m' := by
    rewrite [Files.withScratch, bind_ok (get_eq m), hfresh]
    exact bind_ok hmade _
  cases hact : act folder m' with
  | ok a m₁ =>
    rw [Files.clearing, hact] at hscratch
    rw [outcome_ok hscratch, outcome_ok hact]
  | error f m₁ =>
    rw [Files.clearing, hact] at hscratch
    rw [outcome_error hscratch, outcome_error hact]

/-- An attempt to decompile an assembly: the request, the machine on which it is made, and the machine
with a temporary folder on which ilspycmd is run. -/
structure Attempt where
  runner : Runner
  subject : Subject
  language : Value
  before : Machine
  assembly : Path
  folder : Path
  place : Place
  ready : Machine
  given : assemblyPath subject.assembly maxAssemblySize before = .ok assembly before
  fresh : Files.freshPath? before = some folder
  made : Files.newFolder folder before = .ok place ready

namespace Attempt

/-- The run of ilspycmd. -/
def run (a : Attempt) : Act Unit :=
  Runner.decompileTo a.runner a.assembly a.folder a.subject.typeName a.language

/-- The machine that the run leaves. -/
def left (a : Attempt) : Machine := a.run.after a.ready

/-- The text of all files, once the temporary folder is there. -/
def listing (a : Attempt) : Act (List Char) := do
  a.run
  let files ← collect a.folder Runner.listingSuffixes
  if files.isEmpty then throw (.reported .decompilation (.noOutput a.assembly.toString))
  let texts ← readAll (files.map (Runner.under a.folder)) .null .null
  return Text.joinWith ['\n', '\n'] ((files.zip texts).map fun (names, text) => titled names text)

/-- The source files, once the temporary folder is there. -/
def sources (a : Attempt) : Act (List (List Char)) := do
  a.run
  let files ← collect a.folder Runner.sourceSuffixes
  readAll (files.map (Runner.under a.folder)) .null .null

theorem outcome_decompile (a : Attempt) :
    (decompile a.runner a.subject a.language).outcome a.before = a.listing.outcome a.ready :=
  (outcome_bind_ok a.given _).trans (outcome_withScratch a.fresh a.made)

theorem outcome_sourceTexts (a : Attempt) (hlanguage : a.language = .null) :
    (sourceTexts a.runner a.subject).outcome a.before = a.sources.outcome a.ready := by
  rw [sources, run, hlanguage]
  exact (outcome_bind_ok a.given _).trans (outcome_withScratch a.fresh a.made)

end Attempt

/-- Two attempts leave the same files in their temporary folders. -/
def SameFiles (a b : Attempt) : Prop :=
  ∀ names bytes, Holds a.left a.folder names bytes ↔ Holds b.left b.folder names bytes

/-- The runs of ilspycmd in two attempts at one assembly end alike, and the settings give the same
limits. -/
structure EndAlike (a b : Attempt) : Prop where
  assembly : a.assembly = b.assembly
  ends : a.run.outcome a.ready = b.run.outcome b.ready
  limits : limits.outcome a.left = limits.outcome b.left

namespace EndAlike

variable {a b : Attempt} {β : Type} {next next' : List (List String) → Act β}

/-- What goes on alike with the files that are collected ends alike. -/
theorem outcome_collect (h : EndAlike a b) (hfiles : SameFiles a b) (ha : Listable a.left a.folder)
    (hb : Listable b.left b.folder) (suffixes : List String)
    (hnext : ∀ l, (∀ names ∈ l, ∃ bytes, Holds a.left a.folder names bytes) →
      (next l).outcome a.left = (next' l).outcome b.left) :
    (do a.run; let files ← collect a.folder suffixes; next files : Act β).outcome a.ready =
      (do b.run; let files ← collect b.folder suffixes; next' files : Act β).outcome b.ready := by
  obtain ⟨l, hl, hl', -, hmem⟩ := Runner.collect_eq_of_same ha hb hfiles suffixes
  refine outcome_bind_congr h.ends fun _ _ => ?_
  rw [← Attempt.left, ← Attempt.left, outcome_bind_ok hl, outcome_bind_ok hl']
  exact hnext l fun names hnames => ((hmem names).1 hnames).1

theorem outcome_listing (h : EndAlike a b) (hfiles : SameFiles a b) (ha : Listable a.left a.folder)
    (hb : Listable b.left b.folder) : a.listing.outcome a.ready = b.listing.outcome b.ready := by
  refine h.outcome_collect hfiles ha hb _ fun l hl => ?_
  split
  · simp only [outcome_throw_bind, h.assembly]
  · exact outcome_bind_congr (Runner.outcome_readAll_of_same hfiles h.limits hl) fun _ _ => by
      rw [outcome_pure, outcome_pure]

theorem outcome_sources (h : EndAlike a b) (hfiles : SameFiles a b) (ha : Listable a.left a.folder)
    (hb : Listable b.left b.folder) : a.sources.outcome a.ready = b.sources.outcome b.ready :=
  h.outcome_collect hfiles ha hb _ fun _ hl => Runner.outcome_readAll_of_same hfiles h.limits hl

end EndAlike

/-- **Runs that leave the same files give the same results.** What ilspycmd left can be listed exactly
if no path of it is too long. Where two attempts leave the same files in their temporary folders, and
both can list what is there, the same list of files is collected: each file with one of the suffixes, in
lower case, once, and nothing else, in strictly ascending order of the names that lead to it. Where the
attempts are alike besides, the text of all files is the same, or the fault is, and so are the units or
the fault in their place. -/
theorem results_follow_files {a b : Attempt} (hfiles : SameFiles a b) :
    (∀ suffixes, (Fails (collect a.folder suffixes) a.left ↔ ¬ Listable a.left a.folder) ∧
      (Fails (collect b.folder suffixes) b.left ↔ ¬ Listable b.left b.folder)) ∧
    (Listable a.left a.folder → Listable b.left b.folder →
      (∀ suffixes, ∃ l, collect a.folder suffixes a.left = .ok l a.left ∧
        collect b.folder suffixes b.left = .ok l b.left ∧ l.Pairwise (· < ·) ∧
        ∀ names, names ∈ l ↔ (∃ bytes, Holds a.left a.folder names bytes) ∧
          Text.lowercase (Path.suffixOf (names.getLast?.getD "")) ∈ suffixes) ∧
      (EndAlike a b →
        (decompile a.runner a.subject a.language).outcome a.before =
          (decompile b.runner b.subject b.language).outcome b.before ∧
        (a.language = .null → b.language = .null →
          (decompileAndDivide a.runner a.subject).outcome a.before =
            (decompileAndDivide b.runner b.subject).outcome b.before))) := by
  refine ⟨fun suffixes => ⟨Runner.fails_collect_iff suffixes, Runner.fails_collect_iff suffixes⟩,
    fun ha hb => ⟨fun suffixes => ?_, fun h => ⟨?_, fun hlanguage hlanguage' => ?_⟩⟩⟩
  · obtain ⟨l, hl, hl', hsorted, hmem⟩ := Runner.collect_eq_of_same ha hb hfiles suffixes
    refine ⟨l, hl, hl', hsorted, fun names => ?_⟩
    rw [hmem, Runner.hasSuffix, List.contains_iff_mem]
  · rw [a.outcome_decompile, b.outcome_decompile, h.outcome_listing hfiles ha hb]
  · rw [decompileAndDivide_eq, decompileAndDivide_eq]
    refine outcome_bind_congr ?_ fun _ _ => by rw [outcome_pure, outcome_pure]
    rw [a.outcome_sourceTexts hlanguage, b.outcome_sourceTexts hlanguage',
      h.outcome_sources hfiles ha hb]

/-! ## Samples -/

/-- The sample machine with an ilspycmd that leaves some files. -/
def leavingMachine (deposits : List (String × Deposit)) : Machine :=
  { sampleMachine "" with toolbox := { Toolbox.idle with runs := [.ended deposits 0 "" ""] } }

def sampleAssembly : Path := ⟨.root, ["in", "A.dll"]⟩

def sampleFolder : Path := ⟨.root, ["tmp", "dotnetdc-0"]⟩

/-- The run of ilspycmd in an attempt with the sample request. -/
def sampleRun : Act Unit :=
  Runner.decompileTo sampleRunner sampleAssembly sampleFolder sampleSubject.typeName .null

/-- What an attempt with the sample request leaves. -/
def leftBy (m : Machine) : Machine := sampleRun.after ((Files.newFolder sampleFolder).after m)

/-- An attempt with the sample request on a machine. -/
structure Attempted (a : Attempt) (m : Machine) : Prop where
  runner : a.runner = sampleRunner
  subject : a.subject = sampleSubject
  language : a.language = .null
  before : a.before = m
  assembly : a.assembly = sampleAssembly
  folder : a.folder = sampleFolder
  ready : a.ready = (Files.newFolder sampleFolder).after m

/-- With the sample request, ilspycmd comes to leave some files on a machine, and the limits are the usual
ones. -/
structure Leaves (m : Machine) (files : List (List String × List UInt8)) : Prop where
  given : (assemblyPath sampleSubject.assembly maxAssemblySize).yields m
    (fun p => p = sampleAssembly) = true
  fresh : Files.freshPath? m = some sampleFolder
  made : (Files.newFolder sampleFolder).yields m (fun _ => true) = true
  ends : sampleRun.yields ((Files.newFolder sampleFolder).after m) (fun _ => true) = true
  files : Runner.held (leftBy m) sampleFolder = files
  limits : limits.yields (leftBy m) (fun l => l = (5000, 50 * 1024 * 1024)) = true

variable {a b : Attempt} {m₁ m₂ : Machine} {files files' : List (List String × List UInt8)}

theorem Attempted.run_eq (h : Attempted a m) : a.run = sampleRun := by
  rw [Attempt.run, h.runner, h.assembly, h.folder, h.subject, h.language, sampleRun]

theorem Attempted.left_eq (h : Attempted a m) : a.left = leftBy m := by
  rw [Attempt.left, h.run_eq, h.ready, leftBy]

theorem Leaves.exists_attempt (h : Leaves m files) : ∃ a, Attempted a m := by
  obtain ⟨assembly, m₁, hgiven, hassembly⟩ := exists_of_yields h.given
  obtain rfl : m₁ = m := (keeps_assemblyPath _ _ (P := (· = m))).ok rfl hgiven
  obtain rfl := of_decide_eq_true hassembly
  obtain ⟨place, ready, hmade, -⟩ := exists_of_yields h.made
  exact ⟨⟨_, _, .null, _, _, _, place, ready, hgiven, h.fresh, hmade⟩, rfl, rfl, rfl, rfl, rfl, rfl,
    (after_ok hmade).symm⟩

theorem Leaves.outcome_run (h : Leaves m files) (ha : Attempted a m) :
    a.run.outcome a.ready = .ok () := by
  obtain ⟨⟨⟩, left, hrun, -⟩ := exists_of_yields h.ends
  rw [ha.run_eq, ha.ready]
  exact outcome_ok hrun

theorem Leaves.outcome_limits (h : Leaves m files) (ha : Attempted a m) :
    Runner.limits.outcome a.left = .ok (5000, 50 * 1024 * 1024) := by
  obtain ⟨l, m₁, hl, hvalue⟩ := exists_of_yields h.limits
  obtain rfl := of_decide_eq_true hvalue
  rw [ha.left_eq]
  exact outcome_ok hl

theorem collect_of_yields {root : Path} {suffixes : List String} {l : List (List String)}
    (h : Listable m root) (hl : (collect root suffixes).yields m (fun found => found = l) = true) :
    collect root suffixes m = .ok l m := by
  obtain ⟨found, hfound, -⟩ := Runner.collect_lists_files h suffixes
  have hcheck := check_of_yields (fun found => found = l) hl hfound
  obtain rfl := of_decide_eq_true hcheck
  exact hfound

theorem Leaves.endAlike (h₁ : Leaves m₁ files) (h₂ : Leaves m₂ files') (ha : Attempted a m₁)
    (hb : Attempted b m₂) : EndAlike a b where
  assembly := ha.assembly.trans hb.assembly.symm
  ends := (h₁.outcome_run ha).trans (h₂.outcome_run hb).symm
  limits := (h₁.outcome_limits ha).trans (h₂.outcome_limits hb).symm

theorem Leaves.sameFiles (h₁ : Leaves m₁ files) (h₂ : Leaves m₂ files') (ha : Attempted a m₁)
    (hb : Attempted b m₂) (hperm : files.Perm files') : SameFiles a b := fun names bytes => by
  rw [← Runner.mem_held_iff, ← Runner.mem_held_iff, ha.left_eq, hb.left_eq, ha.folder, hb.folder,
    h₁.files, h₂.files, hperm.mem_iff]

/-- Two files in one order, and in the other one behind a folder. They are in one order by their texts
and in the other one by their names. -/
theorem results_follow_two_files :
    let c : List UInt8 := [0x63]
    let d : List UInt8 := [0x64, 0x0D, 0x0A]
    let straight := leavingMachine
      [("b/C.CS", .file (File.ofBytes c)), ("b-d.cs", .file (File.ofBytes d))]
    let mixed := leavingMachine
      [("e", .folder), ("b-d.cs", .file (File.ofBytes d)), ("b/C.CS", .file (File.ofBytes c))]
    (∃ a b : Attempt, a.before = straight ∧ b.before = mixed ∧ SameFiles a b ∧ EndAlike a b ∧
      ∃ l, collect a.folder Runner.sourceSuffixes a.left = .ok l a.left ∧
        collect b.folder Runner.sourceSuffixes b.left = .ok l b.left ∧ l.Pairwise (· < ·)) ∧
    (decompile sampleRunner sampleSubject .null).outcome straight =
      (decompile sampleRunner sampleSubject .null).outcome mixed ∧
    (decompileAndDivide sampleRunner sampleSubject).outcome straight =
      (decompileAndDivide sampleRunner sampleSubject).outcome mixed := by
  intro c d straight mixed
  have hstraight : Leaves straight [(["b", "C.CS"], c), (["b-d.cs"], d)] := by
    constructor <;> decide +kernel
  have hmixed : Leaves mixed [(["b-d.cs"], d), (["b", "C.CS"], c)] := by
    constructor <;> decide +kernel
  obtain ⟨a, ha⟩ := hstraight.exists_attempt
  obtain ⟨b, hb⟩ := hmixed.exists_attempt
  have hfiles := hstraight.sameFiles hmixed ha hb (.swap _ _ _)
  have halike := hstraight.endAlike hmixed ha hb
  have hlistable : Listable a.left a.folder := by
    rw [ha.left_eq, ha.folder]
    decide +kernel
  have hlistable' : Listable b.left b.folder := by
    rw [hb.left_eq, hb.folder]
    decide +kernel
  obtain ⟨-, hresults⟩ := results_follow_files hfiles
  obtain ⟨hcollect, hends⟩ := hresults hlistable hlistable'
  obtain ⟨hdecompile, hdivide⟩ := hends halike
  obtain ⟨l, hl, hl', hsorted, -⟩ := hcollect Runner.sourceSuffixes
  rw [ha.runner, ha.subject, hb.runner, hb.subject, ha.before, hb.before] at hdecompile hdivide
  rw [ha.language, hb.language] at hdecompile
  exact ⟨⟨a, b, ha.before, hb.before, hfiles, halike, l, hl, hl', hsorted⟩, hdecompile,
    hdivide ha.language hb.language⟩

/-- The regular files below a folder with their bytes, without the links that lead to files. -/
def regular (m : Machine) (root : Path) : List (List String × List UInt8) :=
  match m.disk.place m.cwd .find root with
  | .ok q => (m.disk.below q).filterMap fun
    | (names, .file f) => some (names, f.content)
    | _ => none
  | .error _ => []

def nameOfLength (n : Nat) : String := String.ofList (List.replicate n 'd')

theorem nameOfLength_clean (n : Nat) : '\x00' ∉ (nameOfLength n).toList := by
  rw [nameOfLength, String.toList_ofList, List.mem_replicate]
  rintro ⟨-, hnull⟩
  exact absurd hnull (by decide)

/-- The sample machine with a file in the folder `out`, and beside it folders with long names in each
other. -/
def deepMachine (depth : Nat) : Machine :=
  { sampleMachine "" with
    disk := (List.range depth).foldl
      (fun d k => d.put ("out" :: List.replicate (k + 1) (nameOfLength 240)) .folder)
      ((Disk.empty.put ["out"] .folder).put ["out", "A.cs"] (.file (File.ofBytes [0x63]))) }

/-- The regular files alone do not decide what is collected: a link to one of them is collected too, and a
folder whose path is too long keeps everything from being collected. -/
theorem regular_files_do_not_decide :
    let c := Deposit.file (File.ofBytes [0x63])
    let plain := leavingMachine [("A.cs", c)]
    let linked := leavingMachine [("A.cs", c), ("B.cs", .link "A.cs")]
    let out : Path := ⟨.root, ["out"]⟩
    (∃ a b : Attempt, a.before = plain ∧ b.before = linked ∧ EndAlike a b ∧
      regular a.left a.folder = regular b.left b.folder ∧
      collect a.folder Runner.sourceSuffixes a.left = .ok [["A.cs"]] a.left ∧
      collect b.folder Runner.sourceSuffixes b.left = .ok [["A.cs"], ["B.cs"]] b.left) ∧
    regular (deepMachine 0) out = regular (deepMachine 17) out ∧
    collect out Runner.sourceSuffixes (deepMachine 0) = .ok [["A.cs"]] (deepMachine 0) ∧
    Fails (collect out Runner.sourceSuffixes) (deepMachine 17) := by
  intro c plain linked out
  have hplain : Leaves plain [(["A.cs"], [0x63])] := by
    constructor <;> decide +kernel
  have hlinked : Leaves linked [(["A.cs"], [0x63]), (["B.cs"], [0x63])] := by
    constructor <;> decide +kernel
  obtain ⟨a, ha⟩ := hplain.exists_attempt
  obtain ⟨b, hb⟩ := hlinked.exists_attempt
  refine ⟨⟨a, b, ha.before, hb.before, hplain.endAlike hlinked ha hb, ?_, ?_, ?_⟩, ?_, ?_, ?_⟩
  · rw [ha.left_eq, hb.left_eq, ha.folder, hb.folder]
    decide +kernel
  · rw [ha.left_eq, ha.folder]
    refine collect_of_yields (by decide +kernel) ?_
    rw [Runner.collect_eq_insertionSort]
    decide +kernel
  · rw [hb.left_eq, hb.folder]
    refine collect_of_yields (by decide +kernel) ?_
    rw [Runner.collect_eq_insertionSort]
    decide +kernel
  · decide +kernel
  · refine collect_of_yields (by decide +kernel) ?_
    rw [Runner.collect_eq_insertionSort]
    decide +kernel
  · refine (Runner.fails_collect_iff _).2 fun hlistable => ?_
    let names := List.replicate 17 (nameOfLength 240)
    have hlies : Runner.Lies (deepMachine 17) out names :=
      ⟨["out"], by decide +kernel, by decide +kernel, by decide, by decide +kernel⟩
    have hclean : Disk.Plain (Runner.under out names) := by
      intro s hs
      rcases List.mem_cons.1 hs with rfl | hs
      · decide
      · rw [List.eq_of_mem_replicate hs]
        exact nameOfLength_clean 240
    exact hlistable.2 names hlies (Files.tooLong_of_long hclean (by decide +kernel))

end Decompilation.Service
