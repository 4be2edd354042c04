import Decompilation.Proofs.Runner.Launch
import Decompilation.Proofs.Runner.Restart
import Decompilation.Proofs.Runner.Silent

/-!
# Probing

To ask whether ilspycmd is there, for its version or for a diagnosis is to look for it as one does who
wants to run it, and to install nothing. All of them find what a run would come to without an attempt to
start a program, and without a process but for one that surfaces (`probing_agrees`), and none of them
changes more than the file of settings (`Probed`).
-/

namespace Decompilation

open Act
open Disk (TakesFile)
open Files (Takes)
open Json (Value)
open Settings (load target)

variable {r : Runner} {m m₀ m₁ m' s s' : Machine} {found named : Option String} {tool : String}
  {key : String} {value : Option String}

/-! ## What is found -/

namespace Settings

theorem loads_of_get? (h : get? key m = .ok value m') : m' = m ∨ load false m = .ok () m' := by
  rw [get?, bind_ok (get_eq m)] at h
  cases henvironment : m.environment.get? key with
  | some v =>
    rw [henvironment] at h
    cases h
    exact .inl rfl
  | none =>
    rw [henvironment] at h
    obtain ⟨_, m₁, hload, hlast⟩ := exists_of_bind_ok h
    cases hlast
    exact .inr hload

theorem loads_of_getInt {default n : Int} (h : getInt key default m = .ok n m') :
    m' = m ∨ load false m = .ok () m' := by
  obtain ⟨_, m₁, hint, hlast⟩ := exists_of_bind_ok h
  cases hlast
  obtain ⟨_, m₂, hget, hlast⟩ := exists_of_bind_ok hint
  cases hlast
  exact loads_of_get? hget

/-- Settings that have been read need not be read before they are read. -/
theorem load_of_loads (h : s = m ∨ load false m = .ok () s) (hload : load false s = .ok () s') :
    load false m = .ok () s' := by
  rcases h with rfl | h
  · exact hload
  · rw [load_of_loaded (load_cases h).1] at hload
    cases hload
    exact h

theorem exists_settings_of_load (h : load false m = .ok () s) : ∃ settings, s = { m with settings } := by
  rcases (load_cases h).2 with rfl | ⟨-, entries, -, rfl⟩
  · exact ⟨s.settings, rfl⟩
  · exact ⟨_, rfl⟩

end Settings

namespace Runner

/-- ilspycmd where the settings do not name it. -/
def elsewhere? (r : Runner) : Act (Option String) := do
  let own ← localTool r
  if ← Files.isThere own then return some own.toString
  public?

theorem agrees_firstExisting? (hdisk : m₁.disk = m.disk) (hcwd : m₁.cwd = m.cwd) (paths : List Path) :
    Agrees (firstExisting? paths) m m₁ := by
  induction paths with
  | nil => exact .pure _
  | cons p paths ih =>
    refine (Files.agrees_isThere (by rw [hdisk, hcwd])).bind fun there => ?_
    split
    · exact .pure _
    · exact ih

/-- What is found elsewhere depends on the disk, the environment, the accounts' homes and the system. -/
theorem agrees_elsewhere? (hdisk : m₁.disk = m.disk) (hcwd : m₁.cwd = m.cwd)
    (henvironment : m₁.environment = m.environment) (hhomes : m₁.homes = m.homes)
    (hsystem : m₁.system = m.system) : Agrees (elsewhere? r) m m₁ := by
  have hown : Agrees (localTool r) m m₁ :=
    Agrees.bind (.get_bind (by rw [hsystem]) (.pure _)) fun _ => .pure _
  have hsearch : onSearchPath? "ilspycmd" m₁ = onSearchPath? "ilspycmd" m := by
    unfold onSearchPath? searchPath isRunnable
    rw [henvironment, hdisk, hcwd]
  refine hown.bind fun own => (Files.agrees_isThere (by rw [hdisk, hcwd])).bind fun there => ?_
  split
  · exact .pure _
  refine .get_bind (by rw [hsearch]) ?_
  split
  · exact .pure _
  · exact (agrees_usualPaths henvironment hhomes hsystem).bind fun paths =>
      (agrees_firstExisting? hdisk hcwd paths).bind fun _ => .pure _

/-- What is found is what the settings name or, failing that, what is found elsewhere. -/
theorem find?_eq_named_or_elsewhere (hnew : m.memory.ilspycmd = none) (h : find? r m = .ok found m') :
    ∃ named m₁, configured? m = .ok named m₁ ∧
      (named.isSome = true ∧ found = named ∨ named = none ∧ elsewhere? r m₁ = .ok found m₁) := by
  cases searched_of_find? hnew h with
  | configured hnamed => exact ⟨_, _, hnamed, .inl ⟨rfl, rfl⟩⟩
  | @own m₁ hunnamed hthere =>
    exact ⟨_, _, hunnamed, .inr ⟨rfl, (bind_ok (localTool_eq r m₁) _).trans (bind_ok hthere _)⟩⟩
  | @general _ m₁ _ hunnamed habsent hfound _ =>
    exact ⟨_, _, hunnamed, .inr ⟨rfl, (bind_ok (localTool_eq r m₁) _).trans
      ((bind_ok habsent _).trans hfound)⟩⟩
  | nowhere hunnamed habsent hunfound =>
    exact ⟨_, _, hunnamed, .inr ⟨rfl, (bind_ok (localTool_eq r _) _).trans
      ((bind_ok habsent _).trans hunfound)⟩⟩

/-- What the settings name they name when they have been read. -/
theorem configured?_of_load (hload : load false m = .ok () s) (h : configured? m = .ok named m₁) :
    configured? s = .ok named s ∧ (m₁ = m ∨ m₁ = s) := by
  obtain ⟨settings, hs⟩ := Settings.exists_settings_of_load hload
  obtain ⟨value, m₂, hget, hrest⟩ := exists_of_bind_ok h
  obtain ⟨hget', hm₂⟩ := Settings.get?_of_load hload hget
  have hdisk : m₂.disk.stat m₂.cwd = s.disk.stat s.cwd := by
    rcases hm₂ with rfl | rfl
    · rw [hs]
    · rfl
  rw [configured?, bind_ok hget']
  cases value with
  | none =>
    cases hrest
    exact ⟨rfl, hm₂⟩
  | some path =>
    dsimp only at hrest ⊢
    by_cases hempty : path.isEmpty = true
    · rw [if_pos hempty] at hrest ⊢
      cases hrest
      exact ⟨rfl, hm₂⟩
    rw [if_neg hempty] at hrest ⊢
    have hthere : Agrees (do
        if ← Files.isThere (Path.ofString path) then return some path else return none) m₂ s := by
      refine (Files.agrees_isThere (by rw [hdisk])).bind fun there => ?_
      split <;> exact .pure _
    obtain ⟨rfl, hagain⟩ := hthere.ok hrest
    exact ⟨hagain, hm₂⟩

/-- What is found does not depend on whether the settings have been read before. -/
theorem find?_of_load (hload : load false m = .ok () s) (h : find? r m = .ok found m')
    {found' : Option String} (h' : find? r s = .ok found' s') : found' = found := by
  obtain ⟨settings, hs⟩ := Settings.exists_settings_of_load hload
  cases hmemory : m.memory.ilspycmd with
  | some tool =>
    have hmemory' : s.memory.ilspycmd = some tool := by rw [hs, hmemory]
    rw [find?_of_remembers hmemory] at h
    rw [find?_of_remembers hmemory'] at h'
    cases h
    cases h'
    rfl
  | none =>
    obtain ⟨named, m₁, hnamed, hcases⟩ := find?_eq_named_or_elsewhere hmemory h
    obtain ⟨named', s₁, hnamed', hcases'⟩ := find?_eq_named_or_elsewhere (by rw [hs, hmemory]) h'
    obtain ⟨hsame, hm₁⟩ := configured?_of_load hload hnamed
    rw [hsame] at hnamed'
    cases hnamed'
    rcases hcases with ⟨hsome, rfl⟩ | ⟨rfl, helsewhere⟩
    · rcases hcases' with ⟨-, rfl⟩ | ⟨rfl, -⟩
      · rfl
      · cases hsome
    · rcases hcases' with ⟨hsome, -⟩ | ⟨-, helsewhere'⟩
      · cases hsome
      -- the two searches go on from machines that differ in what is read of the settings at most
      have hagrees : Agrees (elsewhere? r) m₁ s := by
        rcases hm₁ with rfl | rfl
        · exact agrees_elsewhere? (by rw [hs]) (by rw [hs]) (by rw [hs]) (by rw [hs]) (by rw [hs])
        · exact agrees_elsewhere? rfl rfl rfl rfl rfl
      rw [(hagrees.ok helsewhere).2] at helsewhere'
      cases helsewhere'
      rfl

/-! ## What probing changes -/

/-- A program is asked for its version. -/
def AsksVersion (c : Call) : Prop := ∃ program, c.command = [program, "--version"]

/-- A machine as it is left by looking for programs and asking for their versions. -/
structure Probing (m₀ m : Machine) : Prop where
  sound : Sound m₀.cwd m
  calls : ∃ asked, m.calls = m₀.calls ++ asked ∧ ∀ c ∈ asked, AsksVersion c
  disk : m.disk = m₀.disk ∨ ∃ q f, m₀.disk.TakesFile q ∧ m.disk = m₀.disk.put q (.file f) ∧
    m.disk.place m.cwd .find (target m₀.cwd none) = .ok q

namespace Probing

theorem refl (h : Sound m.cwd m) : Probing m m :=
  ⟨h, ⟨[], by simp, List.forall_mem_nil _⟩, .inl rfl⟩

theorem of_eq (h : Probing m₀ m) (hdisk : m'.disk = m.disk) (hcwd : m'.cwd = m.cwd)
    (hcalls : m'.calls = m.calls) : Probing m₀ m' :=
  ⟨h.sound.of_eq hdisk hcwd, hcalls ▸ h.calls, by rw [hdisk, hcwd]; exact h.disk⟩

/-- The file of settings is written where it is written the first time. -/
theorem takes_settings {f : File} : Takes (Probing m₀) (target m₀.cwd none) (.file f) := by
  intro m aim q hm hplace hfree
  have hstanding : m.disk.Stands m.cwd := hm.sound.cwd_eq.symm ▸ hm.sound.stands
  have hplace' := hfree.place_find hstanding hplace (by simp)
  refine ⟨hm.sound.put hplace hfree.look?_ne_folder _, hm.calls, .inr ?_⟩
  rcases hm.disk with hdisk | ⟨q₀, f₀, htakes, hdisk, hplace₀⟩
  · exact ⟨q, f, hdisk ▸ hfree.takesFile hstanding hplace, by rw [hdisk], hplace'⟩
  · have hlook : m.disk.look? q₀ = some (.file f₀) := by rw [hdisk, htakes.look?_put, if_pos rfl]
    have hsame := (hfree.stays hstanding hplace).place_find hstanding hplace₀ (by simp [hlook])
    rw [hplace'] at hsame
    obtain rfl : q = q₀ := by injection hsame
    exact ⟨q, f, htakes, by rw [hdisk, Disk.put_put], hplace'⟩

theorem seeks : Seeks (Probing m₀) where
  reread _ hm := hm.of_eq rfl rfl rfl
  dotnet _ hm := hm.of_eq rfl rfl rfl
  remember _ hm := hm.of_eq rfl rfl rfl
  environment _ hm := hm.of_eq rfl rfl rfl
  settings {m p} hm hfile f := by
    obtain ⟨-, rfl⟩ := Settings.of_file hfile
    rw [hm.sound.cwd_eq]
    exact takes_settings

end Probing

/-- The attempt to ask a program for its version. -/
def versionCall (program : String) (m : Machine) : Call :=
  ⟨[program, "--version"], versionSeconds, (m.toolbox.version (Process.stem program)).starts⟩

/-- A program that is asked for its version leaves no files. -/
theorem start_version (program : String) (m : Machine) :
    ∃ answer, Process.start [program, "--version"] versionSeconds m =
      .ok answer { m with calls := m.calls ++ [versionCall program m] } := by
  have hreact : Process.react [program, "--version"] m =
      .ok (m.toolbox.version (Process.stem program), "--tool-path") m := rfl
  rw [Process.start, bind_ok hreact, versionCall]
  cases m.toolbox.version (Process.stem program) <;> exact ⟨_, rfl⟩

theorem versionOf?_eq (program : String) (m : Machine) : ∃ answer, versionOf? program m =
    .ok answer { m with calls := m.calls ++ [versionCall program m] } := by
  obtain ⟨answer, hstart⟩ := start_version program m
  cases answer with
  | ok c => exact ⟨_, bind_ok hstart _⟩
  | error i => exact ⟨_, bind_ok hstart _⟩

theorem Probing.versionOf? (program : String) : Keeps (Probing m₀) (versionOf? program) := by
  intro m hm
  obtain ⟨answer, hanswer⟩ := versionOf?_eq program m
  obtain ⟨asked, hcalls, hasked⟩ := hm.calls
  rw [after_ok hanswer]
  refine ⟨hm.sound.of_eq rfl rfl, ⟨asked ++ [versionCall program m], ?_, ?_⟩, hm.disk⟩
  · rw [hcalls, List.append_assoc]
  · simpa [or_imp, forall_and] using ⟨hasked, program, rfl⟩

theorem Probing.isAvailable : Keeps (Probing m₀) (isAvailable r) :=
  (keeps_find? Probing.seeks).bind fun _ => .pure _

theorem Probing.version? : Keeps (Probing m₀) (version? r) := by
  refine (keeps_find? Probing.seeks).bind fun found => ?_
  split
  · exact .pure _
  · exact (Probing.versionOf? _).bind fun _ => .pure _

theorem Probing.diagnoseDotnet (next : Option String → Option String → Diagnosis) :
    Keeps (Probing m₀) (diagnoseDotnet next) := by
  refine (keeps_findDotnet? Probing.seeks.toCalm).bind fun dotnet => ?_
  cases dotnet with
  | some path => exact (Probing.versionOf? path).bind fun _ => .pure _
  | none => exact .pure _

theorem Probing.diagnose : Keeps (Probing m₀) (diagnose r) := by
  have hcalm : Calm (Probing m₀) := Probing.seeks.toCalm
  rw [diagnose_eq]
  refine .bind .get fun m => (Settings.keeps_getInt hcalm _ _).bind fun files =>
    (Settings.keeps_getInt hcalm _ _).bind fun characters => (Settings.keeps_status hcalm).bind
      fun settings => (keeps_find? Probing.seeks).bind fun found => ?_
  split
  · exact Probing.version?.bind fun _ => Probing.diagnoseDotnet _
  · exact .bind (.pure _) fun _ => Probing.diagnoseDotnet _

/-- What probing leaves: programs were asked for nothing but their versions, no folder was made, and only
what the file of settings leads to was written. -/
structure Probed (m m' : Machine) : Prop where
  calls : ∃ asked, m'.calls = m.calls ++ asked ∧ ∀ c ∈ asked, AsksVersion c
  folders : ∀ p, m'.disk.stat m'.cwd p = .ok .folder → m.disk.stat m.cwd p = .ok .folder
  files : ∀ q, m'.disk.node? q = m.disk.node? q ∨
    m'.disk.place m'.cwd .find (target m.cwd none) = .ok q ∧ ∃ f, m'.disk.node? q = some (.file f)

theorem Probing.probed (h : Probing m m') : Probed m m' := by
  refine ⟨h.calls, fun p hp => ?_, fun q => ?_⟩
  · rw [h.sound.cwd_eq] at hp
    rcases h.disk with hdisk | ⟨q, f, htakes, hdisk, -⟩
    · rwa [hdisk] at hp
    · rw [hdisk] at hp
      rcases htakes.stat_put m.cwd p f with hsame | ⟨-, hfile⟩ | ⟨-, hbelow⟩
      · rwa [hsame] at hp
      · rw [hfile] at hp
        cases hp
      · rw [hbelow] at hp
        cases hp
  · rcases h.disk with hdisk | ⟨q₀, f, htakes, hdisk, hplace⟩
    · exact .inl (by rw [hdisk])
    · by_cases hq : q = q₀
      · subst hq
        exact .inr ⟨hplace, f, by rw [hdisk, Disk.node?_put_self htakes.ne_nil]⟩
      · exact .inl (by rw [hdisk, Disk.node?_put_of_ne hq])

/-! ## What probing tells -/

/-- An operation has no fault but a problem that is reported with the tool. -/
def ReportsAtMost {α : Type} (act : Act α) (m : Machine) : Prop :=
  ∀ f m', act m = .error f m' → ∃ p, f = .reported .tool p

theorem exists_ok_of_silent {α : Type} {act : Act α} (hsilent : Silent act) (h : ReportsAtMost act m) :
    ∃ a m', act m = .ok a m' := by
  refine not_fails_iff.1 ?_
  rintro ⟨f, m', hrun⟩
  obtain ⟨p, rfl⟩ := h f m' hrun
  cases hsilent.error hrun

theorem exists_of_diagnoseDotnet {next : Option String → Option String → Diagnosis} {d : Diagnosis}
    (h : diagnoseDotnet next m = .ok d m') : ∃ dotnet version, d = next dotnet version := by
  obtain ⟨dotnet, m₁, -, hrest⟩ := exists_of_bind_ok h
  cases dotnet with
  | some path =>
    obtain ⟨answer, m₂, -, hlast⟩ := exists_of_bind_ok hrest
    cases hlast
    exact ⟨_, _, rfl⟩
  | none =>
    cases hrest
    exact ⟨_, _, rfl⟩

/-- A diagnosis names the ilspycmd that is found once the settings have been read. -/
theorem exists_find?_of_diagnose {d : Diagnosis} (h : diagnose r m = .ok d m') :
    ∃ s m₁, load false m = .ok () s ∧ find? r s = .ok d.ilspycmd m₁ := by
  rw [diagnose_eq, bind_ok (get_eq m)] at h
  obtain ⟨files, m₁, hfiles, h⟩ := exists_of_bind_ok h
  obtain ⟨characters, m₂, hcharacters, h⟩ := exists_of_bind_ok h
  obtain ⟨settings, s, hstatus, h⟩ := exists_of_bind_ok h
  obtain ⟨found, m₃, hfind, h⟩ := exists_of_bind_ok h
  obtain ⟨_, s', hload, hsettings⟩ := exists_of_bind_ok hstatus
  cases hsettings
  have hload₁ := Settings.load_of_loads (Settings.loads_of_getInt hcharacters) hload
  have hload₀ := Settings.load_of_loads (Settings.loads_of_getInt hfiles) hload₁
  have hfound : d.ilspycmd = found := by
    split at h
    · obtain ⟨version, m₄, -, hrest⟩ := exists_of_bind_ok h
      obtain ⟨_, _, rfl⟩ := exists_of_diagnoseDotnet hrest
      rfl
    · obtain ⟨_, _, rfl⟩ := exists_of_diagnoseDotnet h
      rfl
  exact ⟨s, m₃, hload₀, hfound ▸ hfind⟩

theorem field?_ilspycmd_path (d : Diagnosis) :
    d.toValue.field? "ilspycmd_path" = some (.ofString? d.ilspycmd) := rfl

theorem calls_of_version? {version : Option String} (hfind : find? r m = .ok found m₁)
    (h : version? r m = .ok version m') :
    m'.calls = m.calls ++ found.toList.map (versionCall · m) := by
  obtain ⟨hcalls, htoolbox, -⟩ := rests_of_find? hfind
  have hcall : ∀ tool, versionCall tool m₁ = versionCall tool m := fun tool => by
    rw [versionCall, versionCall, htoolbox]
  rw [version?, bind_ok hfind] at h
  cases found with
  | none =>
    cases h
    simp [hcalls]
  | some tool =>
    obtain ⟨answer, hanswer⟩ := versionOf?_eq tool m₁
    have hlast := (bind_ok hanswer _).symm.trans h
    cases hlast
    simp [hcalls, hcall]

/-- What surfaces is come to without a process, unless a fault stops it that nobody is told of. -/
theorem Surfaces.exists_resolve (hsurfaces : Surfaces r m) (h : ReportsAtMost (resolve r) m) :
    ∃ m', resolve r m = .ok (own r m).toString m' ∧ m'.processes = m.processes := by
  obtain ⟨m₁, hprocesses, hresolve⟩ := hsurfaces.exists_persist
  rw [ReportsAtMost, hresolve] at h
  obtain ⟨tool, m', hrun⟩ := exists_ok_of_silent ((silent_persist _).bind fun _ => .pure _) h
  obtain ⟨_, m₂, hsaved, hlast⟩ := exists_of_bind_ok hrun
  cases hlast
  refine ⟨m', hresolve.trans hrun, ?_⟩
  rw [← hprocesses, Machine.processes, Machine.processes, calls_of_persist hsaved]

/-- **Probing agrees with resolving and installs nothing.** On a sound machine, where asking whether
ilspycmd is there, for a diagnosis and for its version raises nothing but problems reported with the
tool, all three end. They tell of one ilspycmd, if of any: it is there if there is such a one, the
diagnosis has its path, and its version is asked of the program at that path and of no other. It is the
one that resolving comes to without an attempt to start a program. It is also the one that resolving
comes to without a process, unless ilspycmd surfaces; where it does, there is none for the three, and
resolving comes to the one in the tools folder, without a process. However the three end, they ask
programs for nothing but their versions, make no folder and write nothing but the file of settings. -/
theorem probing_agrees (hm : Sound m.cwd m) :
    (ReportsAtMost (isAvailable r) m → ReportsAtMost (diagnose r) m → ReportsAtMost (version? r) m →
      ∃ found : Option String,
        (∀ tool, found = some tool ↔
          (∃ m', resolve r m = .ok tool m' ∧ m'.processes = m.processes) ∧ ¬ Surfaces r m) ∧
        (Surfaces r m → ReportsAtMost (resolve r) m → ∃ m',
          resolve r m = .ok (own r m).toString m' ∧ m'.processes = m.processes) ∧
        (∀ tool, found = some tool ↔ ∃ m', resolve r m = .ok tool m' ∧ m'.calls = m.calls) ∧
        (∃ m', isAvailable r m = .ok found.isSome m') ∧
        (∃ d m', diagnose r m = .ok d m' ∧
          d.toValue.field? "ilspycmd_path" = some (.ofString? found)) ∧
        ∃ version m', version? r m = .ok version m' ∧
          m'.calls = m.calls ++ found.toList.map (versionCall · m)) ∧
    Probed m ((isAvailable r).after m) ∧ Probed m ((diagnose r).after m) ∧
      Probed m ((version? r).after m) := by
  refine ⟨fun havailable hdiagnose hversion => ?_, (Probing.isAvailable m (.refl hm)).probed,
    (Probing.diagnose m (.refl hm)).probed, (Probing.version? m (.refl hm)).probed⟩
  obtain ⟨available, m₁, havailable⟩ := exists_ok_of_silent (silent_isAvailable r) havailable
  obtain ⟨d, m₂, hdiagnose⟩ := exists_ok_of_silent (silent_diagnose r) hdiagnose
  obtain ⟨version, m₃, hversion⟩ := exists_ok_of_silent (silent_version? r) hversion
  obtain ⟨found, m₄, hfind, hlast⟩ := exists_of_bind_ok havailable
  cases hlast
  obtain ⟨s, s', hload, hfind'⟩ := exists_find?_of_diagnose hdiagnose
  refine ⟨found, fun tool => find?_eq_some_iff_unstarted hfind,
    fun hsurfaces => hsurfaces.exists_resolve, fun tool => find?_eq_some_iff_resolve hfind,
    ⟨_, havailable⟩, ⟨d, m₂, hdiagnose, ?_⟩, version, m₃, hversion, calls_of_version? hfind hversion⟩
  rw [field?_ilspycmd_path, find?_of_load hload hfind hfind']

theorem reportsAtMost_of_yields {α : Type} {act : Act α} (h : act.yields m (fun _ => true) = true) :
    ReportsAtMost act m := by
  obtain ⟨a, m₁, hrun, -⟩ := exists_of_yields h
  intro f m' herror
  rw [hrun] at herror
  cases herror

/-- A setting leads nowhere and an ilspycmd is on the search path: it is found and saved, by all three. -/
theorem stale_setting_probed : ∃ m₁ d m₂ version m₃,
    isAvailable searchingRunner staleMachine = .ok true m₁ ∧
    diagnose searchingRunner staleMachine = .ok d m₂ ∧
    d.toValue.field? "ilspycmd_path" = some (.str "/bin/ilspycmd") ∧
    version? searchingRunner staleMachine = .ok version m₃ ∧
    m₃.calls = [⟨["/bin/ilspycmd", "--version"], versionSeconds, true⟩] ∧
    Probed staleMachine m₁ ∧ Probed staleMachine m₂ ∧ Probed staleMachine m₃ := by
  have hresolve : (resolve searchingRunner).endsWith staleMachine
      (fun tool m' => tool == "/bin/ilspycmd" && m'.calls.isEmpty) = true := by
    decide +kernel
  obtain ⟨tool, m', hresolve, hcheck⟩ := exists_of_endsWith hresolve
  rw [Bool.and_eq_true, List.isEmpty_iff] at hcheck
  obtain ⟨htool, hcalls⟩ := hcheck
  obtain rfl := eq_of_beq htool
  obtain ⟨hends, hprobed₁, hprobed₂, hprobed₃⟩ :=
    probing_agrees (r := searchingRunner) (m := staleMachine) sound_staleMachine
  obtain ⟨found, -, -, hfound, ⟨m₁, havailable⟩, ⟨d, m₂, hdiagnose, hpath⟩, version, m₃, hversion,
      hasked⟩ :=
    hends (reportsAtMost_of_yields (by decide +kernel)) (reportsAtMost_of_yields (by decide +kernel))
      (reportsAtMost_of_yields (by decide +kernel))
  obtain rfl := (hfound "/bin/ilspycmd").2 ⟨m', hresolve, hcalls⟩
  rw [after_ok havailable] at hprobed₁
  rw [after_ok hdiagnose] at hprobed₂
  rw [after_ok hversion] at hprobed₃
  exact ⟨m₁, d, m₂, version, m₃, havailable, hdiagnose, hpath, hversion, hasked, hprobed₁, hprobed₂,
    hprobed₃⟩

/-- A machine with a dotnet that does not come to run and an ilspycmd in a folder `lib`, where nobody
looks for it. -/
def surfacingMachine : Machine :=
  { Machine.ofDisk ((((Disk.empty.put ["bin"] .folder).put ["bin", "dotnet"]
      (.file ⟨[], 0, true, 0⟩)).put ["lib"] .folder).put ["lib", "ilspycmd"]
      (.file ⟨[], 0, true, 0⟩)) with
    environment := Table.ofList [("PATH", "/bin")]
    toolbox := { Toolbox.idle with manage := fun _ => .failure "Exec format error" } }

/-- Its tools folder is `lib`, by way of a folder that is missing. -/
def surfacingRunner : Runner := ⟨⟨.root, ["build", "..", "lib"]⟩, .null, .null⟩

/-- ilspycmd is not there for those who ask, and resolving comes to it without a process. -/
theorem unavailable_tool_resolved :
    Sound [] surfacingMachine ∧
    ReportsAtMost (isAvailable surfacingRunner) surfacingMachine ∧
    ReportsAtMost (diagnose surfacingRunner) surfacingMachine ∧
    ReportsAtMost (version? surfacingRunner) surfacingMachine ∧
    ReportsAtMost (resolve surfacingRunner) surfacingMachine ∧
    ∃ available m₁, isAvailable surfacingRunner surfacingMachine = .ok available m₁ ∧
      ¬ (available = true ↔ ∃ tool m₂, resolve surfacingRunner surfacingMachine = .ok tool m₂ ∧
        m₂.processes = surfacingMachine.processes) := by
  have hunavailable : (isAvailable surfacingRunner).yields surfacingMachine (· == false) = true := by
    decide +kernel
  have hresolve : (resolve surfacingRunner).endsWith surfacingMachine
      (fun tool m' => tool == "/build/../lib/ilspycmd" && m'.processes.isEmpty) = true := by
    decide +kernel
  obtain ⟨available, m₁, havailable, hfalse⟩ := exists_of_yields hunavailable
  obtain ⟨tool, m₂, hresolve, hcheck⟩ := exists_of_endsWith hresolve
  rw [Bool.and_eq_true, List.isEmpty_iff] at hcheck
  refine ⟨⟨rfl, by decide +kernel, Disk.stands_nil _, .inr (by simp)⟩,
    reportsAtMost_of_yields (by decide +kernel), reportsAtMost_of_yields (by decide +kernel),
    reportsAtMost_of_yields (by decide +kernel), reportsAtMost_of_yields (by decide +kernel),
    available, m₁, havailable, fun hagree => ?_⟩
  have htrue := hagree.2 ⟨tool, m₂, hresolve, hcheck.2⟩
  rw [htrue] at hfalse
  cases hfalse

end Runner

end Decompilation
