import Decompilation.Proofs.Fault
import Decompilation.Runner.Diagnosis
import Decompilation.Runner.Run

/-!
# What reports a problem

Reading and writing files, reading and saving settings and looking for programs report no problem to the
user: what they raise comes from the system or from a file (`Runner.silent_find?`). Only where ilspycmd
cannot be installed is a problem with the tool reported (`Runner.raises_resolve`), and only where it runs
one with the decompilation (`Runner.raises_run`). A program that is started never raises anything
(`Process.not_fails_start`).
-/

namespace Decompilation

open Act
open Json (Value)

/-! ## Files -/

namespace Files

theorem isReported_ofRefusal (r : Refusal) (p : Path) : (Fault.ofRefusal r p).isReported = false := rfl

theorem silent_lookUp? (p : Path) : Silent (lookUp? p) := by
  refine .bind .get fun m => ?_
  split
  · exact .pure _
  · split
    · exact .pure _
    · exact .throw rfl

theorem silent_isThere (p : Path) : Silent (isThere p) := (silent_lookUp? p).bind fun _ => .pure _

theorem silent_isFolder (p : Path) : Silent (isFolder p) := by
  refine (silent_lookUp? p).bind fun n => ?_
  split <;> exact .pure _

theorem silent_openFile (p : Path) : Silent (openFile p) := by
  refine .bind .get fun m => .bind (.ofDisk (isReported_ofRefusal · p) _) fun n => ?_
  split
  · exact .pure _
  · exact .throw rfl

theorem silent_readText (p : Path) : Silent (readText p) := by
  refine (silent_openFile p).bind fun f => ?_
  split
  · exact .pure _
  · exact .throw rfl

theorem silent_readLines (p : Path) : Silent (readLines p) := by
  refine (silent_openFile p).bind fun f => ?_
  dsimp only
  split
  · exact .pure _
  · exact .throw rfl

theorem silent_reachOr {fault : Refusal → Fault} (h : ∀ r, (fault r).isReported = false)
    (aim : Disk.Aim) (p : Path) : Silent (reachOr fault aim p) :=
  .bind .get fun _ => .bind (.ofDisk h _) fun _ => .pure _

theorem silent_writeText (p : Path) (s : List Char) : Silent (writeText p s) := by
  refine (silent_reachOr (isReported_ofRefusal · p) _ p).bind fun found => ?_
  split
  · exact .modify _
  · exact .throw rfl
  · exact .modify _

theorem silent_putNew {fault : Refusal → Fault} (h : ∀ r, (fault r).isReported = false) (p : Path)
    (n : Node) : Silent (putNew fault p n) := by
  refine (silent_reachOr h _ p).bind fun found => ?_
  split
  · exact .throw (h _)
  · exact .bind (.modify _) fun _ => .pure _

theorem silent_makeFolder (p : Path) : Silent (makeFolder p) :=
  (silent_putNew (isReported_ofRefusal · p) p _).bind fun _ => .pure _

theorem silent_keepFolder (p : Path) {f : Fault} (hf : f.isReported = false) :
    Silent (keepFolder p f) := by
  refine (silent_isFolder p).bind fun answer => ?_
  split
  · exact .pure _
  · exact .throw hf

theorem silent_makeFoldersTo (depth : Nat) (p : Path) : Silent (makeFoldersTo depth p) := by
  induction depth generalizing p with
  | zero =>
    rw [makeFoldersTo]
    refine (silent_makeFolder p).orElse fun f hf => ?_
    split
    · exact .throw rfl
    · exact .throw rfl
    · exact silent_keepFolder p hf
  | succ depth ih =>
    rw [makeFoldersTo]
    refine (silent_makeFolder p).orElse fun f hf => ?_
    split
    · exact .throw rfl
    · exact (ih p.parent).bind fun _ =>
        (silent_makeFolder p).orElse fun f' hf' => silent_keepFolder p hf'
    · exact silent_keepFolder p hf

theorem silent_makeFolders (p : Path) : Silent (makeFolders p) := silent_makeFoldersTo _ p

end Files

/-! ## Settings -/

namespace Settings

theorem silent_cwdPath : Silent cwdPath := by
  refine .bind .get fun m => ?_
  dsimp only
  split
  · exact .throw rfl
  · exact .pure _

theorem silent_file : Silent file := silent_cwdPath.bind fun _ => .pure _

theorem silent_entriesIn (p : Path) : Silent (entriesIn p) := by
  refine ((Files.silent_readLines p).bind fun _ => .pure _).orElse fun f hf => ?_
  split
  · exact .pure _
  · exact .throw hf

theorem silent_load (again : Bool) : Silent (load again) := by
  refine .bind .get fun m => ?_
  split
  · exact .pure _
  refine silent_file.bind fun p => (Files.silent_isThere p).bind fun there => ?_
  split
  · exact (silent_entriesIn p).bind fun _ => .modify _
  · exact .bind (.pure _) fun _ => .modify _

theorem silent_get? (key : String) : Silent (get? key) := by
  refine .bind .get fun m => ?_
  split
  · exact .pure _
  · exact (silent_load false).bind fun _ => .bind .get fun _ => .pure _

theorem silent_getInt (key : String) (default : Int) : Silent (getInt key default) :=
  ((silent_get? key).bind fun _ => .pure _).bind fun _ => .pure _

theorem silent_status : Silent status := (silent_load false).bind fun _ => .bind .get fun _ => .pure _

theorem silent_setVariable (key value : String) : Silent (setVariable key value) := by
  unfold setVariable
  split
  · exact .throw rfl
  split
  · exact .throw rfl
  split
  · exact .throw rfl
  · exact .modify _

theorem silent_currentText (p : Path) : Silent (currentText p) := by
  refine (Files.silent_isThere p).bind fun there => ?_
  split
  · exact Files.silent_readText p
  · exact .pure _

theorem silent_save (key value : String) (given : Option Path) : Silent (save key value given) := by
  have hrest : ∀ p, Silent (do
      let text ← currentText p
      Files.writeText p (EnvFile.assign key value text)
      modify fun m : Machine =>
        { m with settings := { m.settings with entries := m.settings.entries.insert key value } }
      return p) := fun p =>
    (silent_currentText p).bind fun _ => (Files.silent_writeText p _).bind fun _ =>
      .bind (.modify _) fun _ => .pure _
  refine (silent_setVariable key value).bind fun _ => ?_
  cases given with
  | some p => exact hrest p
  | none => exact silent_file.bind hrest

end Settings

/-! ## Programs -/

namespace Process

theorem raises_react {Q : Fault → Prop} (command : List String) : Raises Q (react command) := by
  intro m f m' h
  rw [react, bind_ok (get_eq m)] at h
  dsimp only at h
  split at h <;> cases h

theorem raises_start {Q : Fault → Prop} (command : List String) (seconds : Value) :
    Raises Q (start command seconds) := by
  refine (raises_react command).bind fun ⟨reaction, flag⟩ => .bind (.modify _) fun _ => ?_
  cases reaction with
  | overrun => exact .pure _
  | failure message => exact .pure _
  | ended files code output errors =>
    -- files that cannot be written are a failure of the program
    exact .orElse_run fun _ _ _ _ _ _ h => by cases h

/-- A program that is started ends in one way or another. -/
theorem not_fails_start (command : List String) (seconds : Value) (m : Machine) :
    ¬ Fails (start command seconds) m :=
  (raises_start command seconds).not_fails m

end Process

namespace Runner

theorem silent_onWindows : Silent onWindows := .bind .get fun _ => .pure _

theorem silent_localTool (r : Runner) : Silent (localTool r) := silent_onWindows.bind fun _ => .pure _

theorem silent_environmentText (key : String) : Silent (environmentText key) :=
  .bind .get fun _ => .pure _

theorem silent_expandHome (p : Path) : Silent (expandHome p) := by
  unfold expandHome
  split
  · split
    · dsimp only
      split
      · exact .throw_bind (by rfl) _
      refine .bind .get fun m => ?_
      split
      · split
        · exact .throw_bind (by rfl) _
        · exact .pure _
      · exact .throw rfl
    · exact .pure _
  · exact .pure _

theorem silent_firstExisting? (paths : List Path) : Silent (firstExisting? paths) := by
  induction paths with
  | nil => exact .pure _
  | cons p paths ih =>
    refine (Files.silent_isThere p).bind fun there => ?_
    split
    · exact .pure _
    · exact ih

theorem silent_usualPaths : Silent usualPaths := by
  refine (silent_expandHome _).bind fun _ => silent_onWindows.bind fun windows => ?_
  split
  · exact (silent_environmentText _).bind fun _ => .pure _
  · exact .pure _

theorem silent_persist (path : String) : Silent (persist path) :=
  .optional ((Settings.silent_save _ path none).bind fun _ => .pure _)

theorem silent_configured? : Silent configured? := by
  refine (Settings.silent_get? _).bind fun setting => ?_
  split
  · split
    · exact .pure _
    refine (Files.silent_isThere _).bind fun there => ?_
    split <;> exact .pure _
  · exact .pure _

theorem silent_public? : Silent public? := by
  refine .bind .get fun m => ?_
  split
  · exact .pure _
  · exact silent_usualPaths.bind fun _ => (silent_firstExisting? _).bind fun _ => .pure _

theorem silent_find? (r : Runner) : Silent (find? r) := by
  refine .bind .get fun m => ?_
  split
  · exact .pure _
  refine silent_configured?.bind fun configured => ?_
  split
  · exact .bind (.modify _) fun _ => .pure _
  refine (silent_localTool r).bind fun own => (Files.silent_isThere own).bind fun there => ?_
  split
  · exact .bind (.modify _) fun _ => .pure _
  refine silent_public?.bind fun found => ?_
  split
  · exact .bind (.modify _) fun _ => (silent_persist _).bind fun _ => .pure _
  · exact .pure _

theorem silent_usualDotnetPaths : Silent usualDotnetPaths := by
  refine silent_onWindows.bind fun windows => ?_
  split
  · exact (silent_environmentText _).bind fun _ => .pure _
  · exact (silent_expandHome _).bind fun _ => .pure _

theorem silent_findDotnet? : Silent findDotnet? := by
  refine .bind .get fun m => ?_
  split
  · exact .pure _
  have hremember : ∀ found : Option String, Silent (do
      modify fun m : Machine => { m with memory := { m.memory with dotnet := found } }
      return found) := fun found => .bind (.modify _) fun _ => .pure _
  dsimp only
  split
  · exact .bind (.pure _) hremember
  · exact silent_usualDotnetPaths.bind fun _ => (silent_firstExisting? _).bind fun _ => hremember _

/-! ## Probing -/

theorem silent_isAvailable (r : Runner) : Silent (isAvailable r) :=
  (silent_find? r).bind fun _ => .pure _

theorem silent_versionOf? (program : String) : Silent (versionOf? program) := by
  refine (Process.raises_start _ _).bind fun answer => ?_
  split <;> exact .pure _

theorem silent_version? (r : Runner) : Silent (version? r) := by
  refine (silent_find? r).bind fun found => ?_
  split
  · exact .pure _
  · exact (silent_versionOf? _).bind fun _ => .pure _

/-- The end of a diagnosis: which dotnet there is, and of which version. -/
def diagnoseDotnet (next : Option String → Option String → Diagnosis) : Act Diagnosis := do
  let dotnet ← findDotnet?
  let version ← match dotnet with
    | some path => do pure ((← versionOf? path).map fun c => Text.trimmed c.output)
    | none => pure none
  return next dotnet version

/-- A diagnosis, where settings, ilspycmd and dotnet are looked at in this order. -/
theorem diagnose_eq (r : Runner) : diagnose r = (do
    let system := (← get).system
    let maxFiles ← Settings.maxFiles
    let maxCharacters ← Settings.maxCharacters
    let settings ← Settings.status
    let ilspycmd ← find? r
    let version ← if ilspycmd.isSome then version? r else pure none
    diagnoseDotnet fun dotnet dotnetVersion =>
      ⟨system, ilspycmd, version, dotnet, dotnetVersion, r, maxFiles, maxCharacters, settings⟩) := rfl

theorem silent_diagnoseDotnet (next : Option String → Option String → Diagnosis) :
    Silent (diagnoseDotnet next) := by
  refine silent_findDotnet?.bind fun dotnet => ?_
  cases dotnet with
  | some path => exact (silent_versionOf? path).bind fun _ => .pure _
  | none => exact .pure _

theorem silent_diagnose (r : Runner) : Silent (diagnose r) := by
  rw [diagnose_eq]
  refine .bind .get fun m => (Settings.silent_getInt _ _).bind fun files =>
    (Settings.silent_getInt _ _).bind fun characters => Settings.silent_status.bind fun settings =>
      (silent_find? r).bind fun found => ?_
  split
  · exact (silent_version? r).bind fun _ => silent_diagnoseDotnet _
  · exact .bind (.pure _) fun _ => silent_diagnoseDotnet _

/-! ## Installing and running -/

theorem raises_tryActions {Q : Fault → Prop} (dotnet folder said : String) (actions : List String) :
    Raises Q (tryActions dotnet folder said actions) := by
  induction actions generalizing said with
  | nil => exact .pure _
  | cons action rest ih =>
    refine (Process.raises_start _ _).bind fun answer => ?_
    split
    · exact ih _
    · split
      · exact .pure _
      · exact ih _

theorem silent_install (r : Runner) (dotnet : String) : Silent (install r dotnet) :=
  (Files.silent_makeFolders _).bind fun _ => raises_tryActions _ _ _ _

/-- A fault that reports a problem reports one with the tool. -/
def OfTool (f : Fault) : Prop := f.isReported = true → ∃ p, f = .reported .tool p

/-- A fault that reports a problem reports one with the tool or with the decompilation. -/
def OfRun (f : Fault) : Prop :=
  f.isReported = true → ∃ p, f = .reported .tool p ∨ f = .reported .decompilation p

theorem ofTool_of_silent {f : Fault} (h : f.isReported = false) : OfTool f := fun hreported => by
  rw [h] at hreported
  cases hreported

theorem raises_resolve (r : Runner) : Raises OfTool (resolve r) := by
  refine ((silent_find? r).mono fun _ => ofTool_of_silent).bind fun found => ?_
  split
  · exact .pure _
  refine (silent_findDotnet?.mono fun _ => ofTool_of_silent).bind fun dotnet => ?_
  split
  · exact .throw fun _ => ⟨_, rfl⟩
  refine ((silent_install r _).mono fun _ => ofTool_of_silent).bind fun said =>
    ((silent_localTool r).mono fun _ => ofTool_of_silent).bind fun own =>
      ((Files.silent_isThere own).mono fun _ => ofTool_of_silent).bind fun there => ?_
  split
  · exact .bind (.modify _) fun _ =>
      ((silent_persist _).mono fun _ => ofTool_of_silent).bind fun _ => .pure _
  · split <;> exact .throw fun _ => ⟨_, rfl⟩

theorem raises_run (r : Runner) (arguments : List String) (assembly : Path) :
    Raises OfRun (run r arguments assembly) := by
  refine ((raises_resolve r).mono fun f hf hreported =>
    (hf hreported).imp fun _ => Or.inl).bind fun tool => (Process.raises_start _ _).bind fun answer => ?_
  split
  · exact .throw fun _ => ⟨_, .inr rfl⟩
  · exact .throw fun _ => ⟨_, .inr rfl⟩
  · split
    · exact .pure _
    · exact .throw fun _ => ⟨_, .inr rfl⟩

end Runner

end Decompilation
