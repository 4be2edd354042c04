import Decompilation.Proofs.Runner.Remember
import Decompilation.Proofs.Runner.Search

/-!
# Finding ilspycmd after a restart

An ilspycmd that was found or installed is found by the process that found it whatever happens to the
disk, and by a process that is started after it, provided that the search finds nothing on the way that
was not there the first time (`resolve_restarted`).
-/

namespace Decompilation

open Act

/-- A process is started, with an environment and without anything remembered. -/
def Machine.restarted (m : Machine) (environment : Table String String) : Machine :=
  { m with environment, settings := ⟨Table.empty, false⟩, memory := ⟨none, none⟩, shared := none }

namespace Runner

open EnvFile (IsKey IsValue)
open Files (HoldsBytes)
open Settings (currentText target usualEntries)

variable {r : Runner} {m m' m₁ : Machine} {tool : String} {value : Option String}

/-! ## What must not come up -/

/-- Where nothing was there is nothing. -/
def StaysAbsent (m m' : Machine) (p : Path) : Prop :=
  Files.isThere p m = .ok false m → Files.isThere p m' = .ok false m'

/-- The paths at which the search looks, but for the one that is configured and those on the search path;
usual folders come behind the search path. -/
def places (r : Runner) : Act (List Path) := do
  let own ← localTool r
  match onSearchPath? "ilspycmd" (← get) with
  | some _ => return [own]
  | none => return own :: (← usualPaths)

/-- The usual file of settings is as it was, but that the path of an ilspycmd may have been saved. -/
def KeepsSettings (m m' : Machine) (tool : String) : Prop :=
  m'.disk.stat m'.cwd (target m.cwd none) = m.disk.stat m.cwd (target m.cwd none) ∨
  ∃ text, currentText (target m.cwd none) m = .ok text m ∧
    HoldsBytes m' (target m.cwd none) (Text.Utf8.encode (EnvFile.assign "ILSPY_CMD" tool text))

/-- Nothing has come up that the search for an ilspycmd meets before the one that it found. -/
structure Undisturbed (r : Runner) (m m' : Machine) (tool : String) : Prop where
  /-- At the configured path. -/
  named : ∀ path m₁, Settings.get? "ILSPY_CMD" m = .ok (some path) m₁ →
    StaysAbsent m m' (Path.ofString path)
  /-- At the other paths. -/
  sooner : ∀ paths, places r m = .ok paths m →
    ∀ p ∈ paths.takeWhile (·.toString != tool), StaysAbsent m m' p
  /-- In a file of settings that is written by lines: only newlines end lines that matter. -/
  lines : m.environment.get? "ILSPY_CMD" = none → m'.disk ≠ m.disk →
    ∀ text, currentText (target m.cwd none) m = .ok text m →
      (EnvFile.parse (Text.joinWith ['\n'] (Text.lines text))).get? "ILSPY_CMD" =
        (EnvFile.parse text).get? "ILSPY_CMD"
  /-- In a file of settings that is there when dotnet has installed one. -/
  settings : m.environment.get? "ILSPY_CMD" = none → (∃ m₁, find? r m = .ok none m₁) →
    KeepsSettings m m' tool

theorem isKey_setting : IsKey "ILSPY_CMD" := by decide +kernel

/-! ## What is configured -/

theorem exists_settings_of_get? (hnew : m.settings.loaded = false) {key : String}
    (h : Settings.get? key m = .ok value m₁) : ∃ settings, m₁ = { m with settings } := by
  rcases Settings.get?_cases hnew h with ⟨v, -, -, rfl⟩ | ⟨-, entries, -, -, rfl⟩
  · exact ⟨m₁.settings, rfl⟩
  · exact ⟨_, rfl⟩

theorem stands_of_usualEntries {entries : Table String String} (h : usualEntries m = .ok entries m') :
    m.cwd.isGone = false := by
  obtain ⟨p, m₁, hfile, -⟩ := exists_of_bind_ok h
  exact (Settings.of_file hfile).1

/-- A process that is started reads the setting that was read before, or the one that was saved. -/
theorem get?_restarted (hnew : m.settings.loaded = false) (hcwd : m'.cwd = m.cwd)
    (htool : IsValue tool) (hundisturbed : Undisturbed r m m' tool)
    (hkept : m.environment.get? "ILSPY_CMD" = none → KeepsSettings m m' tool)
    (h : Settings.get? "ILSPY_CMD" m = .ok value m₁) :
    ∃ value' settings, Settings.get? "ILSPY_CMD" (m'.restarted m.environment) =
        .ok value' { m'.restarted m.environment with settings } ∧
      (value' = value ∨ value' = some tool) := by
  set s := m'.restarted m.environment
  rcases Settings.get?_cases hnew h with ⟨v, hv, rfl, -⟩ | ⟨hnone, entries, hentries, rfl, -⟩
  · have hagain : Settings.get? "ILSPY_CMD" s = .ok (some v) s := Settings.get?_of_environment hv
    exact ⟨some v, s.settings, hagain, .inl rfl⟩
  have hread : ∀ entries', usualEntries s = .ok entries' s → Settings.get? "ILSPY_CMD" s =
      .ok (entries'.get? "ILSPY_CMD") { s with settings := ⟨entries', true⟩ } := fun _ h' =>
    Settings.get?_of_usualEntries hnone rfl h'
  have hstands := stands_of_usualEntries hentries
  by_cases hstat : m'.disk.stat m'.cwd (target m.cwd none) = m.disk.stat m.cwd (target m.cwd none)
  · have hsame : Agrees usualEntries m s := Settings.agrees_usualEntries hcwd hstat
    exact ⟨_, _, hread entries (hsame.ok hentries).2, .inl rfl⟩
  · -- the file was written: a line of the setting that is left in it names what it named
    obtain ⟨text, htext, hholds⟩ := (hkept hnone).resolve_left hstat
    have hdisk : m'.disk ≠ m.disk := fun hdisk => hstat (by rw [hdisk, hcwd])
    have hold := Settings.usualEntries_of_currentText hstands htext
    rw [hentries] at hold
    obtain rfl : entries = EnvFile.parse text := by injection hold
    have htarget : target s.cwd none = target m.cwd none := congrArg (target · none) hcwd
    obtain ⟨entries', hentries', hvalue⟩ := Settings.usualEntries_of_assigned (m := s)
      ((congrArg Place.isGone hcwd).trans hstands) isKey_setting htool (htarget ▸ hholds)
    rw [hundisturbed.lines hnone hdisk text htext] at hvalue
    exact ⟨_, _, hread entries' hentries', hvalue.symm⟩

theorem exists_settings_of_configured? {found : Option String} (hnew : m.settings.loaded = false)
    (h : configured? m = .ok found m₁) : ∃ settings, m₁ = { m with settings } := by
  obtain ⟨value, m₂, hget, hrest⟩ := exists_of_bind_ok h
  obtain ⟨settings, rfl⟩ := exists_settings_of_get? hnew hget
  refine ⟨settings, ?_⟩
  cases value with
  | none =>
    cases hrest
    rfl
  | some path =>
    dsimp only at hrest
    split at hrest
    · cases hrest
      rfl
    obtain ⟨there, m₃, hthere, hlast⟩ := exists_of_bind_ok hrest
    obtain ⟨rfl, -⟩ := Files.isThere_cases hthere
    split at hlast <;> cases hlast <;> rfl

/-- Where no ilspycmd was configured, none is configured but the one that was found. -/
theorem configured?_restarted (hnew : m.settings.loaded = false) (hcwd : m'.cwd = m.cwd)
    (htool : IsValue tool) (hundisturbed : Undisturbed r m m' tool)
    (hkept : m.environment.get? "ILSPY_CMD" = none → KeepsSettings m m' tool)
    (hthere : Files.isThere (Path.ofString tool) m' = .ok true m')
    (h : configured? m = .ok none m₁) :
    ∃ found settings, configured? (m'.restarted m.environment) =
        .ok found { m'.restarted m.environment with settings } ∧
      (found = none ∨ found = some tool) := by
  obtain ⟨value, hget, habsent⟩ := configured?_eq_none_iff.1 h
  obtain ⟨old, rfl⟩ := exists_settings_of_get? hnew hget
  obtain ⟨value', settings, hget', hvalue⟩ :=
    get?_restarted hnew hcwd htool hundisturbed hkept hget
  rcases hvalue with rfl | rfl
  · refine ⟨none, settings, configured?_eq_none_iff.2 ⟨_, hget', fun path hpath => ?_⟩, .inl rfl⟩
    refine (habsent path hpath).imp_right fun hpath' => ?_
    rw [hpath] at hget
    have hbefore : Files.isThere (Path.ofString path) m = .ok false m :=
      Files.isThere_congr (by rfl) hpath'
    exact Files.isThere_congr (by rfl) (hundisturbed.named path _ hget hbefore)
  · cases hempty : tool.isEmpty with
    | true =>
      refine ⟨none, settings, configured?_eq_none_iff.2 ⟨_, hget', fun path hpath => .inl ?_⟩,
        .inl rfl⟩
      rwa [← Option.some.inj hpath]
    | false =>
      exact ⟨_, settings, configured?_eq_some hget' hempty (Files.isThere_congr (by rfl) hthere),
        .inr rfl⟩

/-! ## What is found -/

/-- Paths that the search has passed by are passed by again. -/
theorem stays_absent_of_sooner {paths looked rest : List Path} (hpaths : paths = looked ++ rest)
    (hsooner : ∀ p ∈ paths.takeWhile (·.toString != tool), StaysAbsent m m' p)
    (hcanonical : ∀ p ∈ looked, p.Canonical)
    (habsent : ∀ p ∈ looked, Files.isThere p m = .ok false m)
    (hthere : Files.isThere (Path.ofString tool) m = .ok true m) :
    ∀ p ∈ looked, Files.isThere p m' = .ok false m' := by
  have hother : ∀ p ∈ looked, (p.toString != tool) = true := by
    intro p hp
    refine bne_iff_ne.2 fun htool => ?_
    have hsame := habsent p hp
    rw [← htool, Path.ofString_toString (hcanonical p hp), hsame] at hthere
    cases hthere
  intro p hp
  refine hsooner p ?_ (habsent p hp)
  rw [hpaths, List.takeWhile_append_of_pos hother]
  exact List.mem_append_left _ hp

theorem onSearchPath?_congr (henvironment : m₁.environment = m.environment)
    (hrunnable : ∀ path, isRunnable m₁ path = isRunnable m path) (name : String) :
    onSearchPath? name m₁ = onSearchPath? name m := by
  unfold onSearchPath? searchPath
  simp only [henvironment, hrunnable]

theorem isRunnable_of_onSearchPath? {name path : String} (h : onSearchPath? name m = some path) :
    isRunnable m path = true := by
  obtain ⟨folder, -, hfolder⟩ := List.exists_of_findSome?_eq_some h
  dsimp only at hfolder
  split at hfolder
  · rename_i hrunnable
    rwa [Option.some.inj hfolder] at hrunnable
  · cases hfolder

theorem isThere_of_isRunnable {path : String} (h : isRunnable m path = true) :
    Files.isThere (Path.ofString path) m = .ok true m := by
  unfold isRunnable at h
  split at h
  · rename_i f hstat
    exact Files.isThere_of_stat hstat
  · cases h

theorem agrees_places (hdisk : m₁.disk = m.disk) (hcwd : m₁.cwd = m.cwd)
    (henvironment : m₁.environment = m.environment) (hhomes : m₁.homes = m.homes)
    (hsystem : m₁.system = m.system) : Agrees (places r) m m₁ := by
  have hown : Agrees (localTool r) m m₁ :=
    Agrees.bind (.get_bind (by rw [hsystem]) (.pure _)) fun _ => .pure _
  have hsearch : onSearchPath? "ilspycmd" m₁ = onSearchPath? "ilspycmd" m :=
    onSearchPath?_congr henvironment (fun path => by rw [isRunnable, isRunnable, hdisk, hcwd]) _
  refine hown.bind fun own => .get_bind (by rw [hsearch]) ?_
  split
  · exact .pure _
  · exact (agrees_usualPaths henvironment hhomes hsystem).bind fun _ => .pure _

/-- What is found on the search path or in a usual folder is there. -/
theorem isThere_of_public? (h : public? m = .ok (some tool) m') :
    Files.isThere (Path.ofString tool) m = .ok true m := by
  obtain ⟨-, hsearch | ⟨-, paths, front, found, back, hpaths, rfl, -, hthere, rfl⟩⟩ :=
    public?_eq_some_iff.1 h
  · exact isThere_of_isRunnable (isRunnable_of_onSearchPath? hsearch)
  · rwa [Path.ofString_toString (canonical_usualPaths hpaths found (by simp))]

section Again

variable {s : Machine} {p : Path} {q : Place} {f : File} {text : List Char}
  (hwrote : Files.Wrote m m' p q f text) (hdisk : s.disk = m'.disk) (hcwd : s.cwd = m'.cwd)
include hwrote hdisk hcwd

theorem isThere_of_wrote {path : Path} (h : Files.isThere path m = .ok true m) :
    Files.isThere path s = .ok true s := by
  obtain ⟨-, hstat⟩ := Files.isThere_cases h
  obtain ⟨n, hn⟩ := hstat.1 rfl
  obtain ⟨n', hn'⟩ := hwrote.exists_stat hn
  rw [← hdisk, ← hcwd] at hn'
  exact Files.isThere_of_stat hn'

theorem isRunnable_of_wrote (path : String) : isRunnable s path = isRunnable m path := by
  rw [← hwrote.isRunnable_eq path]
  unfold isRunnable
  rw [hdisk, hcwd]

/-- What was found behind an ilspycmd of one's own is found again, where nothing has come up before
it. -/
theorem public?_again (henvironment : s.environment = m.environment) (hhomes : s.homes = m.homes)
    (hsystem : s.system = m.system) (htools : r.toolsFolder.Canonical)
    (hsooner : ∀ paths, places r m = .ok paths m →
      ∀ p ∈ paths.takeWhile (·.toString != tool), StaysAbsent m s p)
    (habsent : Files.isThere (own r m) m = .ok false m) (h : public? m = .ok (some tool) m) :
    Files.isThere (own r s) s = .ok false s ∧ public? s = .ok (some tool) s := by
  have hthere := isThere_of_public? h
  have hown : own r s = own r m := by rw [own, own, hsystem]
  have hsearch := onSearchPath?_congr henvironment (isRunnable_of_wrote hwrote hdisk hcwd) "ilspycmd"
  obtain ⟨-, hfound | ⟨hnone, paths, front, found, back, hpaths, rfl, hfront, hfound, rfl⟩⟩ :=
    public?_eq_some_iff.1 h
  · have hplaces : places r m = .ok [own r m] m := by
      rw [places, bind_ok (localTool_eq r m), bind_ok (get_eq m), hfound]
      rfl
    have hstays := stays_absent_of_sooner (List.append_nil [own r m]).symm (hsooner _ hplaces)
      (List.forall_mem_singleton.2 (canonical_own htools m)) (List.forall_mem_singleton.2 habsent) hthere
    rw [hown]
    exact ⟨hstays _ (List.mem_singleton_self _), public?_eq_some_iff.2 ⟨rfl, .inl (hsearch.trans hfound)⟩⟩
  · have hplaces : places r m = .ok (own r m :: (front ++ found :: back)) m := by
      rw [places, bind_ok (localTool_eq r m), bind_ok (get_eq m), hnone]
      exact bind_ok hpaths _
    have hcanonical := canonical_usualPaths hpaths
    have hstays := stays_absent_of_sooner (List.cons_append ..).symm (hsooner _ hplaces)
      (List.forall_mem_cons.2 ⟨canonical_own htools m, fun p hp => hcanonical p (by simp [hp])⟩)
      (List.forall_mem_cons.2 ⟨habsent, hfront⟩) hthere
    obtain ⟨habsent', hfront'⟩ := List.forall_mem_cons.1 hstays
    rw [hown]
    refine ⟨habsent', public?_eq_some_iff.2 ⟨rfl, .inr ⟨hsearch.trans hnone, _, front, found, back,
      ((agrees_usualPaths henvironment hhomes hsystem).ok hpaths).2, rfl, hfront', ?_, rfl⟩⟩⟩
    exact isThere_of_wrote hwrote hdisk hcwd hfound

end Again

/-! ## The whole search -/

/-- An ilspycmd that was found and saved is found again. -/
theorem find?_restarted_of_saved (hnew : m.settings.loaded = false)
    (htools : r.toolsFolder.Canonical) (htool : IsValue tool) {q : Place} {f : File}
    {text : List Char} (hunnamed : configured? m = .ok none m₁)
    (habsent : Files.isThere (own r m₁) m₁ = .ok false m₁)
    (hfound : public? m₁ = .ok (some tool) m₁)
    (hsaved : Saved (recalling m₁ tool) m' tool q f text)
    (hundisturbed : Undisturbed r m m' tool) :
    ∃ m₂, find? r (m'.restarted m.environment) = .ok (some tool) m₂ ∧ m₂.calls = m'.calls := by
  obtain ⟨old, rfl⟩ := exists_settings_of_configured? hnew hunnamed
  obtain ⟨environment, new, hm'⟩ := hsaved.only
  have hcwd : m'.cwd = m.cwd := by rw [hm']; rfl
  have hhomes : m'.homes = m.homes := by rw [hm']; rfl
  have hsystem : m'.system = m.system := by rw [hm']; rfl
  have hwrote : Files.Wrote { m with settings := old } _ _ q f _ := hsaved.wrote.of_eq rfl rfl
  have hread : Agrees (currentText (target m.cwd none)) (recalling { m with settings := old } tool) m :=
    Settings.agrees_currentText rfl
  have hkept : KeepsSettings m m' tool :=
    .inr ⟨text, (hread.ok hsaved.read).2, hsaved.holdsBytes rfl hcwd⟩
  have hthere := isThere_of_wrote (s := m') hwrote rfl hcwd (isThere_of_public? hfound)
  obtain ⟨found, settings, hagain, hcases⟩ :=
    configured?_restarted hnew hcwd htool hundisturbed (fun _ => hkept) hthere hunnamed
  rcases hcases with rfl | rfl
  · have hsooner : ∀ paths, places r { m with settings := old } = .ok paths { m with settings := old } →
        ∀ p ∈ paths.takeWhile (·.toString != tool), StaysAbsent { m with settings := old }
          { m'.restarted m.environment with settings } p := by
      intro paths hpaths p hp habsent₁
      have hplaces : Agrees (places r) { m with settings := old } m := agrees_places rfl rfl rfl rfl rfl
      have hstays := hundisturbed.sooner paths (hplaces.ok hpaths).2 p hp
      exact Files.isThere_congr (by rfl) (hstays (Files.isThere_congr (by rfl) habsent₁))
    obtain ⟨habsent', hfound'⟩ := public?_again hwrote (s := { m'.restarted m.environment with settings })
      rfl hcwd rfl hhomes hsystem htools hsooner habsent hfound
    obtain ⟨m₂, hpersist, hcalls⟩ := hsaved.exists_persist htool
      (s := recalling { m'.restarted m.environment with settings } tool) rfl hcwd
    exact ⟨m₂, (Searched.general hagain habsent' hfound' hpersist).find?_eq rfl, hcalls⟩
  · exact ⟨_, (Searched.configured hagain).find?_eq rfl, rfl⟩

/-- An ilspycmd of one's own stays where it is while its path is saved. -/
theorem own_of_persist (hm : Sound m.cwd m) (hthere : Files.isThere (own r m) m = .ok true m)
    (h : persist tool (recalling m tool) = .ok () m') :
    m'.cwd = m.cwd ∧ own r m' = own r m ∧ Files.isThere (own r m') m' = .ok true m' := by
  have hsound : Sound m.cwd (recalling m tool) := hm.of_eq rfl rfl
  rcases persist_cases hsound h with ⟨environment, rfl⟩ | ⟨q, f, text, hsaved⟩
  · exact ⟨rfl, rfl, Files.isThere_congr (by rfl) hthere⟩
  · obtain ⟨environment, settings, hm'⟩ := hsaved.only
    have hcwd : m'.cwd = m.cwd := by rw [hm']; rfl
    have hown : own r m' = own r m := by rw [hm']; rfl
    have hwrote : Files.Wrote m _ _ q f _ := hsaved.wrote.of_eq rfl rfl
    refine ⟨hcwd, hown, ?_⟩
    rw [hown]
    exact isThere_of_wrote (s := m') hwrote rfl hcwd hthere

/-- An ilspycmd of one's own that was installed is found again. -/
theorem find?_restarted_of_installed (hnew : m.settings.loaded = false) (hcwd : m'.cwd = m.cwd)
    (htools : r.toolsFolder.Canonical) (htool : IsValue (own r m').toString)
    (hunnamed : configured? m = .ok none m₁)
    (hkept : m.environment.get? "ILSPY_CMD" = none → KeepsSettings m m' (own r m').toString)
    (hthere : Files.isThere (own r m') m' = .ok true m')
    (hundisturbed : Undisturbed r m m' (own r m').toString) :
    ∃ m₂, find? r (m'.restarted m.environment) = .ok (some (own r m').toString) m₂ ∧
      m₂.calls = m'.calls := by
  have hread : Files.isThere (Path.ofString (own r m').toString) m' = .ok true m' := by
    rwa [Path.ofString_toString (canonical_own htools m')]
  obtain ⟨found, settings, hagain, hcases⟩ :=
    configured?_restarted hnew hcwd htool hundisturbed hkept hread hunnamed
  rcases hcases with rfl | rfl
  · have hown : Files.isThere (own r { m'.restarted m.environment with settings })
        { m'.restarted m.environment with settings } = .ok true _ :=
      Files.isThere_congr (by rfl) hthere
    exact ⟨_, (Searched.own hagain hown).find?_eq rfl, rfl⟩
  · exact ⟨_, (Searched.configured hagain).find?_eq rfl, rfl⟩

/-- **What was found is found again.** An ilspycmd that a process that has just started finds, or
installs, it finds again at once whatever has happened in between. A process that is started after it,
in the same folder and with the same environment, finds the same one and starts no program, provided
that the path can be saved as a setting and nothing has come up before it. -/
theorem resolve_restarted (hnew : m.restarted m.environment = m) (hsound : Sound m.cwd m)
    (htools : r.toolsFolder.Canonical) (h : resolve r m = .ok tool m') :
    (∀ m₁, m₁.memory.ilspycmd = m'.memory.ilspycmd → resolve r m₁ = .ok tool m₁) ∧
    (IsValue tool → Undisturbed r m m' tool →
      ∃ m₁, resolve r (m'.restarted m.environment) = .ok tool m₁ ∧ m₁.calls = m'.calls) := by
  refine ⟨fun m₁ hm₁ => resolve_of_remembers (hm₁.trans (memory_of_resolve h)),
    fun htool hundisturbed => ?_⟩
  have hloaded : m.settings.loaded = false := by rw [← hnew]; rfl
  have hmemory : m.memory.ilspycmd = none := by rw [← hnew]; rfl
  -- where nothing was written the second process starts on the machine of the first one
  have hagain : m'.restarted m.environment = m →
      ∃ m₁, resolve r (m'.restarted m.environment) = .ok tool m₁ ∧ m₁.calls = m'.calls :=
    fun hsame => ⟨m', hsame ▸ h, rfl⟩
  rcases resolve_cases h with hfind | ⟨m₁, m₂, m₃, dotnet, said, hnowhere, hdotnet, hinstall, hthere,
    rfl, hsaved⟩
  · cases searched_of_find? hmemory hfind with
    | configured hnamed =>
      obtain ⟨settings, rfl⟩ := exists_settings_of_configured? hloaded hnamed
      exact hagain hnew
    | own hunnamed hthere =>
      obtain ⟨settings, rfl⟩ := exists_settings_of_configured? hloaded hunnamed
      exact hagain hnew
    | @general _ m₁ _ hunnamed habsent hfound hsaved =>
      obtain ⟨settings, rfl⟩ := exists_settings_of_configured? hloaded hunnamed
      have hsound₁ : Sound m.cwd (recalling { m with settings } tool) := hsound.of_eq rfl rfl
      rcases persist_cases hsound₁ hsaved with ⟨environment, rfl⟩ | ⟨q, f, text, hsaved⟩
      · exact hagain hnew
      · obtain ⟨m₂, hfind₂, hcalls⟩ := find?_restarted_of_saved hloaded htools htool hunnamed habsent
          hfound hsaved hundisturbed
        exact ⟨m₂, resolve_of_find? hfind₂, hcalls⟩
  · have hsound₁ : Sound m.cwd m₁ := (keeps_find? (Sound.hosts r).seeks).ok hsound hnowhere
    have hsound₂ : Sound m.cwd m₂ := (keeps_findDotnet? Sound.steady.calm).ok hsound₁ hdotnet
    have hsound₃ : Sound m.cwd m₃ := (keeps_install (Sound.hosts r) dotnet).ok hsound₂ hinstall
    obtain ⟨hcwd, hown, hthere'⟩ := own_of_persist (hsound₃.cwd_eq.symm ▸ hsound₃) hthere hsaved
    rw [← hown] at htool hundisturbed ⊢
    cases searched_of_find? hmemory hnowhere with
    | nowhere hunnamed =>
      obtain ⟨m₄, hfind₄, hcalls⟩ := find?_restarted_of_installed hloaded
        (hcwd.trans hsound₃.cwd_eq) htools htool hunnamed
        (fun hnone => hundisturbed.settings hnone ⟨m₁, hnowhere⟩) hthere' hundisturbed
      exact ⟨m₄, resolve_of_find? hfind₄, hcalls⟩

/-- A machine with an ilspycmd on the search path, a tools folder, and something at the place of the usual
file of settings. -/
def searchedMachine (environment : List (String × String)) (settings : Node) : Machine :=
  { Machine.ofDisk (((((Disk.empty.put ["bin"] .folder).put ["bin", "ilspycmd"]
      (.file ⟨[], 0, true, 0⟩)).put ["tools"] .folder).put [".env"] settings)) with
    environment := Table.ofList (("PATH", "/bin") :: environment) }

def searchingRunner : Runner := ⟨⟨.root, ["tools"]⟩, .null, .null⟩

/-- A setting that leads nowhere. -/
def staleMachine : Machine :=
  searchedMachine [] (.file (File.ofBytes (Text.Utf8.encode "ILSPY_CMD=/gone\n".toList)))

theorem sound_staleMachine : Sound [] staleMachine :=
  ⟨rfl, by decide +kernel, Disk.stands_nil _, .inr (by simp)⟩

theorem isThere_of_yields {p : Path} {answer : Bool}
    (h : (Files.isThere p).yields m (· == answer) = true) : Files.isThere p m = .ok answer m := by
  obtain ⟨there, m₁, hthere, hsame⟩ := exists_of_yields h
  obtain ⟨rfl, -⟩ := Files.isThere_cases hthere
  rw [hthere, eq_of_beq hsame]

/-- What a run on a machine with a stale setting leaves. -/
theorem undisturbed_staleMachine
    (hgone : Files.isThere ⟨.root, ["gone"]⟩ m' = .ok false m')
    (hown : Files.isThere ⟨.root, ["tools", "ilspycmd"]⟩ m' = .ok false m') :
    Undisturbed searchingRunner staleMachine m' "/bin/ilspycmd" where
  named path m₁ hget _ := by
    have hvalue := check_of_yields (· == some "/gone") (by decide +kernel) hget
    obtain rfl : path = "/gone" := Option.some.inj (eq_of_beq hvalue)
    exact hgone
  sooner paths hpaths p hp _ := by
    have hfound := check_of_yields (·.takeWhile (·.toString != "/bin/ilspycmd") ==
      [⟨.root, ["tools", "ilspycmd"]⟩]) (by decide +kernel) hpaths
    rw [eq_of_beq hfound, List.mem_singleton] at hp
    rwa [hp]
  lines _ _ text htext := by
    have hsame := check_of_yields (· == "ILSPY_CMD=/gone\n".toList) (by decide +kernel) htext
    rw [eq_of_beq hsame]
    decide +kernel
  settings _ h := by
    obtain ⟨m₁, hnowhere⟩ := h
    have hfound := check_of_yields Option.isSome (by decide +kernel) hnowhere
    cases hfound

/-- A stale setting is replaced. -/
theorem stale_setting_replaced :
    ∃ m' m₁, resolve searchingRunner staleMachine = .ok "/bin/ilspycmd" m' ∧
      resolve searchingRunner (m'.restarted staleMachine.environment) = .ok "/bin/ilspycmd" m₁ ∧
      m₁.calls = m'.calls := by
  have hrun : (resolve searchingRunner).endsWith staleMachine (fun tool m' =>
      tool == "/bin/ilspycmd" && (Files.isThere ⟨.root, ["gone"]⟩).yields m' (· == false) &&
      (Files.isThere ⟨.root, ["tools", "ilspycmd"]⟩).yields m' (· == false)) = true := by
    decide +kernel
  obtain ⟨tool, m', hresolve, hcheck⟩ := exists_of_endsWith hrun
  rw [Bool.and_eq_true, Bool.and_eq_true] at hcheck
  obtain ⟨⟨htool, hgone⟩, hown⟩ := hcheck
  obtain rfl := eq_of_beq htool
  have hrestarted := resolve_restarted (r := searchingRunner) rfl sound_staleMachine (by decide +kernel)
    hresolve
  obtain ⟨m₁, hagain, hcalls⟩ := hrestarted.2 (by decide +kernel)
    (undisturbed_staleMachine (isThere_of_yields hgone) (isThere_of_yields hown))
  exact ⟨m', m₁, hresolve, hagain, hcalls⟩

/-- The usual file of settings is a link to the path of an ilspycmd of one's own, where nothing is. -/
def linkedMachine : Machine :=
  searchedMachine [("ILSPY_CMD", "/gone")] (.link "tools/ilspycmd")

/-- A file of settings that comes to be at the path of an ilspycmd of one's own is taken for it. -/
theorem settings_taken_for_tool : ¬ ∀ (r : Runner) (m m' : Machine) (tool : String),
    m.restarted m.environment = m → Sound m.cwd m → r.toolsFolder.Canonical →
    resolve r m = .ok tool m' → IsValue tool →
    (∀ path, m.environment.get? "ILSPY_CMD" = some path ∨
      (∃ entries, usualEntries m = .ok entries m ∧ entries.get? "ILSPY_CMD" = some path) →
      StaysAbsent m m' (Path.ofString path)) →
    ∃ m₁, resolve r (m'.restarted m.environment) = .ok tool m₁ ∧ m₁.calls = m'.calls := by
  intro hclaim
  have hrun : (resolve searchingRunner).endsWith linkedMachine (fun tool m' =>
      tool == "/bin/ilspycmd" && (Files.isThere ⟨.root, ["gone"]⟩).yields m' (· == false) &&
      (resolve searchingRunner).yields (m'.restarted linkedMachine.environment)
        (· == "/tools/ilspycmd")) = true := by
    decide +kernel
  obtain ⟨tool, m', hresolve, hcheck⟩ := exists_of_endsWith hrun
  rw [Bool.and_eq_true, Bool.and_eq_true] at hcheck
  obtain ⟨⟨htool, hgone⟩, hother⟩ := hcheck
  obtain rfl := eq_of_beq htool
  have hsound : Sound [] linkedMachine := ⟨rfl, by decide +kernel, Disk.stands_nil _, .inr (by simp)⟩
  obtain ⟨m₁, hagain, -⟩ := hclaim searchingRunner linkedMachine m' "/bin/ilspycmd" rfl hsound
    (by decide +kernel) hresolve (by decide +kernel) (fun path hpath _ => by
      rcases hpath with hpath | ⟨entries, hentries, hpath⟩
      · have hvalue : linkedMachine.environment.get? "ILSPY_CMD" = some "/gone" := by decide +kernel
        obtain rfl : path = "/gone" := Option.some.inj (hpath.symm.trans hvalue)
        exact isThere_of_yields hgone
      · have hnone := check_of_yields (fun t : Table String String =>
          t.get? "ILSPY_CMD" == none) (by decide +kernel) hentries
        rw [hpath] at hnone
        cases hnone)
  have hsame := check_of_yields (· == "/tools/ilspycmd") hother hagain
  revert hsame
  decide +kernel

end Runner

end Decompilation
