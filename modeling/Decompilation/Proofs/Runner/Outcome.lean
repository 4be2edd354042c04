import Decompilation.Proofs.Runner.Lost

/-!
# What a run comes to

A run of ilspycmd ends with a program that ended well, or it reports a problem with the tool or with the
decompilation (`Concludes`), exactly if ilspycmd is remembered or nothing on the way to it is refused
that nobody handles (`run_concludes_iff`): a path that is too long, a folder for the tools that cannot
be made, or a file of settings that holds no text (`Stumbles`).
-/

namespace Decompilation.Runner

open Act
open Files (TooLong Legible)
open Json (Value)
open Settings (target)

variable {r : Runner} {m m₁ m' : Machine} {found : Option String} {paths : List Path}
  {arguments : List String} {assembly : Path}

/-! ## dotnet -/

theorem not_fails_usualDotnetPaths (h : ¬ HomeUnknown m) : ¬ Fails usualDotnetPaths m := by
  have hwindows : onWindows m = .ok (m.system == "Windows") m := rfl
  rw [usualDotnetPaths, fails_bind_of_ok hwindows]
  split
  · exact not_fails_of_ok rfl
  · rw [fails_bind_of_not_fails fun _ _ => not_fails_pure _ _, fails_home_iff]
    exact h

theorem fails_findDotnet?_iff (hhome : ¬ HomeUnknown m) : Fails findDotnet? m ↔
    m.memory.dotnet = none ∧ onSearchPath? "dotnet" m = none ∧
      ∃ paths, usualDotnetPaths m = .ok paths m ∧ StuckOn m paths := by
  rw [findDotnet?, fails_bind_of_ok (get_eq m)]
  cases hmemory : m.memory.dotnet with
  | some path => exact iff_of_false (not_fails_pure _ _) (by simp)
  | none =>
    dsimp only
    cases hsearch : onSearchPath? "dotnet" m with
    | some path => exact iff_of_false (not_fails_of_ok rfl) (by simp)
    | none =>
      obtain ⟨paths, m₁, hpaths⟩ := not_fails_iff.1 (not_fails_usualDotnetPaths hhome)
      obtain rfl := (keeps_usualDotnetPaths (P := (· = m))).ok rfl hpaths
      refine (fails_bind_of_ok hpaths _).trans
        ((fails_bind_of_not_fails fun _ _ => not_fails_of_ok rfl).trans ?_)
      rw [fails_firstExisting?_iff]
      simp [hpaths]

theorem fails_install_iff {dotnet : String} :
    Fails (install r dotnet) m ↔ Fails (Files.makeFolders r.toolsFolder) m :=
  fails_bind_of_not_fails fun _ _ => (raises_tryActions _ _ _ _).not_fails _

/-- Where ilspycmd was looked for in vain the home folder is known. -/
theorem home_known_of_find? (hnew : m.memory.ilspycmd = none) (h : find? r m = .ok none m₁) :
    ¬ HomeUnknown m₁ := by
  cases searched_of_find? hnew h with
  | nowhere _ _ hunfound =>
    intro hunknown
    cases hsearch : onSearchPath? "ilspycmd" m₁ with
    | some path =>
      rw [public?, bind_ok (get_eq m₁), hsearch] at hunfound
      cases hunfound
    | none => exact not_fails_of_ok hunfound (fails_public?_iff.2 ⟨hsearch, .inl hunknown⟩)

/-! ## Ways to stumble -/

/-- On the way to an ilspycmd something is refused that nobody handles. -/
inductive Stumbles (r : Runner) (m : Machine) : Prop
  /-- The search for it cannot go on. -/
  | search (lost : Lost r m)
  /-- A path at which dotnet is looked for is too long. -/
  | dotnet {m₁ : Machine} {paths : List Path} (nowhere : find? r m = .ok none m₁)
      (new : m₁.memory.dotnet = none) (unlisted : onSearchPath? "dotnet" m₁ = none)
      (usual : usualDotnetPaths m₁ = .ok paths m₁) (stuck : StuckOn m₁ paths)
  /-- The folder for the tools cannot be made. -/
  | folder {m₁ m₂ : Machine} {dotnet : String} (nowhere : find? r m = .ok none m₁)
      (found : findDotnet? m₁ = .ok (some dotnet) m₂)
      (refused : Fails (Files.makeFolders r.toolsFolder) m₂)
  /-- What dotnet did made the path of an ilspycmd of one's own too long. -/
  | installed {m₁ m₂ m₃ : Machine} {dotnet said : String} (nowhere : find? r m = .ok none m₁)
      (found : findDotnet? m₁ = .ok (some dotnet) m₂) (installed : install r dotnet m₂ = .ok said m₃)
      (long : TooLong m₃ (own r m₃))
  /-- What dotnet did left a file of settings that holds no text. -/
  | garbled {m₁ m₂ m₃ : Machine} {dotnet said : String} (nowhere : find? r m = .ok none m₁)
      (found : findDotnet? m₁ = .ok (some dotnet) m₂) (installed : install r dotnet m₂ = .ok said m₃)
      (there : Files.isThere (own r m₃) m₃ = .ok true m₃) (stands : m₃.cwd.isGone = false)
      (garbled : ¬ Legible m₃ (target m₃.cwd none))

/-- Nobody moves while ilspycmd is installed. -/
theorem cwd_of_install {m₂ m₃ : Machine} {dotnet said : String} {path : Option String}
    (hfind : find? r m = .ok found m₁) (hdotnet : findDotnet? m₁ = .ok path m₂)
    (hinstall : install r dotnet m₂ = .ok said m₃) : m₃.cwd = m.cwd := by
  have hhosts : Hosts r fun s => s.cwd = m.cwd :=
    .of_takes ⟨fun hm _ hcwd _ _ _ _ => hcwd.trans hm, fun hm => hm⟩ (fun _ hm => hm) (fun _ hm => hm)
      fun _ _ _ _ _ hm _ _ => hm
  have h₁ := (keeps_find? hhosts.seeks).ok rfl hfind
  have h₂ := (keeps_findDotnet? hhosts.toSteady.calm).ok h₁ hdotnet
  exact (keeps_install hhosts dotnet).ok h₂ hinstall

/-! ## Finding -/

/-- The end of an installation: the ilspycmd that is there now is taken, or one is told why there is
none. -/
def takeOwn (r : Runner) (said : String) : Act String := do
  let own ← localTool r
  if ← Files.isThere own then
    remember own.toString
    persist own.toString
    return own.toString
  else if said.isEmpty then
    throw (.reported .tool (.toolNotFound ["ILSPY_CMD", own.toString, "PATH", "~/.dotnet/tools"]))
  else throw (.reported .tool (.installFailed r.toolsFolder.toString (some said)))

theorem resolve_eq (r : Runner) : resolve r = (do
    if let some path := ← find? r then return path
    match ← findDotnet? with
    | none => throw (.reported .tool Problem.sdkMissing)
    | some dotnet => do takeOwn r (← install r dotnet)) := rfl

theorem escapes_takeOwn_iff {said : String} (hcwd : ∀ n ∈ m.cwd, '\x00' ∉ n.toList) :
    Escapes (takeOwn r said) m ↔ TooLong m (own r m) ∨
      Files.isThere (own r m) m = .ok true m ∧ m.cwd.isGone = false ∧
        ¬ Legible m (target m.cwd none) := by
  rw [takeOwn, escapes_bind_of_ok (localTool_eq r m), escapes_bind_iff,
    (Files.silent_isThere _).escapes_iff, Files.fails_isThere_iff]
  refine or_congr_right ?_
  have hpersist (hthere : Files.isThere (own r m) m = .ok true m) := fails_persist_iff
    (m := recalling m (own r m).toString) hcwd (null_not_mem_toString (Files.plain_of_isThere hthere))
  constructor
  · rintro ⟨there, m₁, hthere, h⟩
    obtain ⟨rfl, -⟩ := Files.isThere_cases hthere
    cases there with
    | false =>
      rw [if_neg Bool.false_ne_true] at h
      split at h <;> cases escapes_throw_iff.1 h
    | true =>
      rcases escapes_bind_iff.1 ((escapes_bind_of_ok (remember_eq _ m₁) _).1 h) with
        h | ⟨_, m₂, -, h⟩
      · exact ⟨hthere, (hpersist hthere).1 h.fails⟩
      · exact absurd h (not_escapes_pure _ _)
  · rintro ⟨hthere, hgarbled⟩
    refine ⟨true, m, hthere, (escapes_bind_of_ok (remember_eq _ m) _).2 (escapes_bind_iff.2 (.inl ?_))⟩
    exact (silent_persist _).escapes_iff.2 ((hpersist hthere).2 hgarbled)

/-- The operations on the way to an ilspycmd, and which of them may end with a fault that nobody
handles. -/
theorem escapes_resolve_iff_part : Escapes (resolve r) m ↔ Fails (find? r) m ∨
    ∃ m₁, find? r m = .ok none m₁ ∧ (Fails findDotnet? m₁ ∨
      ∃ dotnet m₂, findDotnet? m₁ = .ok (some dotnet) m₂ ∧ (Fails (install r dotnet) m₂ ∨
        ∃ said m₃, install r dotnet m₂ = .ok said m₃ ∧ Escapes (takeOwn r said) m₃)) := by
  rw [resolve_eq, escapes_bind_iff, (silent_find? r).escapes_iff]
  refine or_congr_right ⟨?_, ?_⟩
  · rintro ⟨found, m₁, hfind, h⟩
    cases found with
    | some tool => exact absurd h (not_escapes_pure _ _)
    | none =>
      refine ⟨m₁, hfind, ?_⟩
      rcases escapes_bind_iff.1 h with h | ⟨dotnet, m₂, hdotnet, h⟩
      · exact .inl h.fails
      cases dotnet with
      | none => cases escapes_throw_iff.1 h
      | some dotnet =>
        exact .inr ⟨dotnet, m₂, hdotnet, (escapes_bind_iff.1 h).imp_left Escapes.fails⟩
  · rintro ⟨m₁, hfind, h⟩
    refine ⟨none, m₁, hfind, escapes_bind_iff.2 ?_⟩
    rcases h with h | ⟨dotnet, m₂, hdotnet, h⟩
    · exact .inl (silent_findDotnet?.escapes_iff.2 h)
    · exact .inr ⟨some dotnet, m₂, hdotnet,
        escapes_bind_iff.2 (h.imp_left (silent_install r dotnet).escapes_iff.2)⟩

/-- To find an ilspycmd that nobody remembers, or to install one, is to stumble or to tell why there is
none. -/
theorem escapes_resolve_iff (hcwd : ∀ n ∈ m.cwd, '\x00' ∉ n.toList)
    (hlegible : Legible m (target m.cwd none)) (hnew : m.memory.ilspycmd = none) :
    Escapes (resolve r) m ↔ Stumbles r m := by
  rw [escapes_resolve_iff_part, fails_find?_iff hcwd hlegible hnew]
  constructor
  · rintro (hlost | ⟨m₁, hfind, h | ⟨dotnet, m₂, hdotnet, h | ⟨said, m₃, hinstall, h⟩⟩⟩)
    · exact .search hlost
    · obtain ⟨hmemory, hsearch, paths, hpaths, hstuck⟩ :=
        (fails_findDotnet?_iff (home_known_of_find? hnew hfind)).1 h
      exact .dotnet hfind hmemory hsearch hpaths hstuck
    · exact .folder hfind hdotnet (fails_install_iff.1 h)
    · have hstands := cwd_of_install hfind hdotnet hinstall
      rcases (escapes_takeOwn_iff fun n hn => hcwd n (hstands ▸ hn)).1 h with
        hlong | ⟨hthere, hgone, hgarbled⟩
      · exact .installed hfind hdotnet hinstall hlong
      · exact .garbled hfind hdotnet hinstall hthere hgone hgarbled
  · intro h
    cases h with
    | search hlost => exact .inl hlost
    | dotnet hfind hmemory hsearch hpaths hstuck =>
      have hdotnet := (fails_findDotnet?_iff (home_known_of_find? hnew hfind)).2
        ⟨hmemory, hsearch, _, hpaths, hstuck⟩
      exact .inr ⟨_, hfind, .inl hdotnet⟩
    | folder hfind hdotnet hrefused =>
      exact .inr ⟨_, hfind, .inr ⟨_, _, hdotnet, .inl (fails_install_iff.2 hrefused)⟩⟩
    | installed hfind hdotnet hinstall hlong =>
      have hstands := cwd_of_install hfind hdotnet hinstall
      refine .inr ⟨_, hfind, .inr ⟨_, _, hdotnet, .inr ⟨_, _, hinstall, ?_⟩⟩⟩
      exact (escapes_takeOwn_iff fun n hn => hcwd n (hstands ▸ hn)).2 (.inl hlong)
    | garbled hfind hdotnet hinstall hthere hgone hgarbled =>
      have hstands := cwd_of_install hfind hdotnet hinstall
      refine .inr ⟨_, hfind, .inr ⟨_, _, hdotnet, .inr ⟨_, _, hinstall, ?_⟩⟩⟩
      exact (escapes_takeOwn_iff fun n hn => hcwd n (hstands ▸ hn)).2 (.inr ⟨hthere, hgone, hgarbled⟩)

/-! ## Running -/

/-- What is found is run, and however that ends is told. -/
theorem escapes_run_iff : Escapes (run r arguments assembly) m ↔ Escapes (resolve r) m := by
  rw [run, escapes_bind_iff]
  refine ⟨fun h => h.resolve_right ?_, .inl⟩
  rintro ⟨tool, m₁, -, h⟩
  rcases escapes_bind_iff.1 h with h | ⟨answer, m₂, -, h⟩
  · exact Process.not_fails_start _ _ _ h.fails
  rcases answer with ⟨_ | _⟩ | c
  · cases escapes_throw_iff.1 h
  · cases escapes_throw_iff.1 h
  · dsimp only at h
    split at h
    · exact not_escapes_pure _ _ h
    · cases escapes_throw_iff.1 h

/-- A run ends with a program that ended well, or with a problem that is reported with the tool or with
the decompilation. -/
def Concludes (act : Act Completed) (m : Machine) : Prop :=
  (∃ c m', act m = .ok c m' ∧ c.code = 0) ∨
    ∃ p f m', act m = .error f m' ∧ (f = .reported .tool p ∨ f = .reported .decompilation p)

theorem code_of_run {c : Completed} (h : run r arguments assembly m = .ok c m') : c.code = 0 := by
  obtain ⟨tool, m₁, -, hrest⟩ := exists_of_bind_ok h
  obtain ⟨answer, m₂, -, hlast⟩ := exists_of_bind_ok hrest
  rcases answer with ⟨_ | _⟩ | c'
  · cases hlast
  · cases hlast
  · dsimp only at hlast
    split at hlast
    · rename_i hcode
      cases hlast
      exact hcode
    · cases hlast

theorem concludes_iff_not_escapes : Concludes (run r arguments assembly) m ↔
    ¬ Escapes (run r arguments assembly) m := by
  cases hrun : run r arguments assembly m with
  | ok c m' =>
    exact iff_of_true (.inl ⟨c, m', hrun, code_of_run hrun⟩) fun h => not_fails_of_ok hrun h.fails
  | error f m' =>
    constructor
    · rintro (⟨c, m₁, hok, -⟩ | ⟨p, f₁, m₁, herror, hreported⟩) ⟨f₂, m₂, hescaped, hsilent⟩
      · rw [hrun] at hok
        cases hok
      · rw [herror] at hescaped
        cases hescaped
        rcases hreported with rfl | rfl <;> cases hsilent
    · intro h
      have hreported : f.isReported = true := by
        rw [← Bool.not_eq_false]
        exact fun hsilent => h ⟨f, m', hrun, hsilent⟩
      obtain ⟨p, hp⟩ := (raises_run r arguments assembly).error hrun hreported
      exact .inr ⟨p, f, m', hrun, hp⟩

/-- **What a run comes to.** Where one stands in a folder whose name has no null byte, and where the
file of settings, if there is one, holds a text, a run of ilspycmd ends with a program that ended with
code zero, or reports a problem with the tool or with the decompilation, exactly if an ilspycmd is
remembered or nothing is refused on the way to it that nobody handles. -/
theorem run_concludes_iff (hcwd : ∀ n ∈ m.cwd, '\x00' ∉ n.toList)
    (hlegible : Legible m (target m.cwd none)) :
    Concludes (run r arguments assembly) m ↔ m.memory.ilspycmd ≠ none ∨ ¬ Stumbles r m := by
  rw [concludes_iff_not_escapes, escapes_run_iff]
  cases hmemory : m.memory.ilspycmd with
  | some tool =>
    exact iff_of_true (fun h => not_fails_of_ok (resolve_of_remembers hmemory) h.fails) (.inl (by simp))
  | none =>
    rw [escapes_resolve_iff hcwd hlegible hmemory]
    simp

/-- A machine with dotnet on the search path, which installs what it is asked for. -/
def sdkMachine (d : Disk) : Machine :=
  { Machine.ofDisk ((d.put ["bin"] .folder).put ["bin", "dotnet"] (.file ⟨[], 0, true, 0⟩)) with
    environment := Table.ofList [("PATH", "/bin")]
    toolbox :=
      { Toolbox.idle with manage := fun _ => .ended [("ilspycmd", .file ⟨[], 0, true, 0⟩)] 0 "" "" } }

theorem legible_of_check {p : Path} (h : (m.disk.stat m.cwd p).toOption.isNone = true) : Legible m p := by
  intro f hf
  rw [hf] at h
  cases h

/-- An ilspycmd that is nowhere is installed, and it is run. -/
theorem run_installed_concludes :
    Concludes (run searchingRunner ["-l", "c"] ⟨.root, ["A.dll"]⟩) (sdkMachine Disk.empty) ∧
      ¬ Stumbles searchingRunner (sdkMachine Disk.empty) := by
  have hrun : ¬ Escapes (run searchingRunner ["-l", "c"] ⟨.root, ["A.dll"]⟩) (sdkMachine Disk.empty) := by
    decide +kernel
  have hconcludes := concludes_iff_not_escapes.2 hrun
  have hclear := (run_concludes_iff (by simp [sdkMachine, Machine.ofDisk])
    (legible_of_check (by decide +kernel))).1 hconcludes
  exact ⟨hconcludes, hclear.resolve_left (not_not_intro rfl)⟩

/-- A machine on which the folder for the tools is a file. -/
def blockedMachine : Machine := sdkMachine (Disk.empty.put ["tools"] (.file ⟨[], 0, false, 0⟩))

/-- Where the folder for the tools is a file a run ends with a refusal that nobody handles. -/
theorem tools_folder_refused : ¬ ∀ (r : Runner) (m : Machine) (arguments : List String)
    (assembly : Path), Sound m.cwd m → (∀ n ∈ m.cwd, '\x00' ∉ n.toList) →
    Legible m (target m.cwd none) → Concludes (run r arguments assembly) m := by
  intro hclaim
  have hsound : Sound blockedMachine.cwd blockedMachine :=
    ⟨rfl, by decide +kernel, Disk.stands_nil _,
      .inr (by simp [blockedMachine, sdkMachine, Machine.ofDisk])⟩
  have hescapes : Escapes (run searchingRunner ["-l", "c"] ⟨.root, ["A.dll"]⟩) blockedMachine := by
    decide +kernel
  have hconcludes := hclaim searchingRunner blockedMachine ["-l", "c"] ⟨.root, ["A.dll"]⟩ hsound
    (by simp [blockedMachine, sdkMachine, Machine.ofDisk]) (legible_of_check (by decide +kernel))
  exact concludes_iff_not_escapes.1 hconcludes hescapes

end Decompilation.Runner
