import Decompilation.Proofs.Disk.Overwrite
import Decompilation.Proofs.Runner.Sound
import Decompilation.Proofs.Settings.Reread

/-!
# How ilspycmd is found

Where no ilspycmd is remembered, the search for it takes one of four ways (`searched_of_find?`), and the
way that it takes is the answer (`Searched.find?_eq`). One that is found on the search path or in a usual
folder is saved as a setting, or the system does not let it (`persist_cases`).
-/

namespace Decompilation.Runner

open Act
open EnvFile (IsValue)
open Files (Wrote)
open Settings (currentText target)

variable {r : Runner} {m m' m₁ : Machine} {tool : String} {found : Option String} {paths : List Path}

/-! ## Paths -/

/-- The path of an ilspycmd of one's own. -/
def own (r : Runner) (m : Machine) : Path :=
  r.toolsFolder / (if m.system == "Windows" then "ilspycmd.exe" else "ilspycmd")

theorem localTool_eq (r : Runner) (m : Machine) : localTool r m = .ok (own r m) m := rfl

theorem localTool_cases {p : Path} (h : localTool r m = .ok p m') : p = own r m ∧ m' = m := by
  rw [localTool_eq] at h
  cases h
  exact ⟨rfl, rfl⟩

theorem canonical_own (h : r.toolsFolder.Canonical) (m : Machine) : (own r m).Canonical :=
  Path.Canonical.joinText h _

section Agrees

variable (henvironment : m₁.environment = m.environment) (hhomes : m₁.homes = m.homes)
include henvironment hhomes

theorem agrees_expandHome (p : Path) : Agrees (expandHome p) m m₁ := by
  unfold expandHome
  split
  · split
    · dsimp only
      split
      · exact .throw_bind _ _
      refine .get_bind (by rw [henvironment, hhomes]) ?_
      split
      · split
        · exact .throw_bind _ _
        · exact .pure _
      · exact .throw _
    · exact .pure _
  · exact .pure _

/-- The usual folders depend on the environment, the accounts' homes and the system. -/
theorem agrees_usualPaths (hsystem : m₁.system = m.system) : Agrees usualPaths m m₁ := by
  refine (agrees_expandHome henvironment hhomes _).bind fun home => ?_
  have hwindows : Agrees onWindows m m₁ := .get_bind (by rw [hsystem]) (.pure _)
  refine hwindows.bind fun windows => ?_
  split
  · have hprofile : Agrees (environmentText "USERPROFILE") m m₁ :=
      .get_bind (by rw [henvironment]) (.pure _)
    exact hprofile.bind fun _ => .pure _
  · exact .pure _

end Agrees

theorem canonical_expandHome {p q : Path} (hp : p.Canonical) (h : expandHome p m = .ok q m') :
    q.Canonical := by
  obtain ⟨anchor, segments⟩ := p
  cases anchor with
  | root | doubleRoot =>
    cases h
    exact hp
  | here =>
    cases segments with
    | nil =>
      cases h
      exact hp
    | cons s rest =>
      rw [expandHome] at h
      dsimp only at h
      split at h
      · split at h
        · cases h
        obtain ⟨m₁, m₂, hget, hrest⟩ := exists_of_bind_ok h
        cases hget
        cases hhome : homeOf? s m.environment m.homes with
        | none =>
          rw [hhome] at hrest
          cases hrest
        | some folder =>
          rw [hhome] at hrest
          dsimp only at hrest
          split at hrest
          · cases hrest
          · cases hrest
            intro t ht
            rcases List.mem_append.1 ht with ht | ht
            · exact Path.canonical_ofString _ t ht
            · exact hp t (List.mem_cons_of_mem _ ht)
      · cases h
        exact hp

theorem canonical_usualPaths (h : usualPaths m = .ok paths m') : ∀ p ∈ paths, p.Canonical := by
  obtain ⟨home, m₁, hhome, hrest⟩ := exists_of_bind_ok h
  have hcanonical : home.Canonical := canonical_expandHome (Path.canonical_ofString _) hhome
  obtain ⟨windows, m₂, -, hrest⟩ := exists_of_bind_ok hrest
  cases windows with
  | true =>
    obtain ⟨profile, m₃, -, hlast⟩ := exists_of_bind_ok hrest
    cases hlast
    have hprofile := Path.canonical_ofString profile
    simpa using ⟨((hcanonical.joinText _).joinText _).joinText _,
      ((hprofile.joinText _).joinText _).joinText _⟩
  | false =>
    cases hrest
    simpa using ⟨((hcanonical.joinText _).joinText _).joinText _,
      Path.canonical_ofString _, Path.canonical_ofString _⟩

/-- The first path is found at which something is. -/
theorem firstExisting?_eq_some_iff {p : Path} : firstExisting? paths m = .ok (some p) m' ↔
    m' = m ∧ ∃ front back, paths = front ++ p :: back ∧
      (∀ q ∈ front, Files.isThere q m = .ok false m) ∧ Files.isThere p m = .ok true m := by
  constructor
  · intro h
    induction paths with
    | nil => cases h
    | cons q paths ih =>
      obtain ⟨there, m₁, hthere, hrest⟩ := exists_of_bind_ok h
      obtain ⟨rfl, -⟩ := Files.isThere_cases hthere
      cases there with
      | true =>
        cases hrest
        exact ⟨rfl, [], paths, rfl, by simp, hthere⟩
      | false =>
        obtain ⟨rfl, front, back, rfl, hfront, hp⟩ := ih hrest
        exact ⟨rfl, q :: front, back, rfl, List.forall_mem_cons.2 ⟨hthere, hfront⟩, hp⟩
  · rintro ⟨rfl, front, back, rfl, hfront, hp⟩
    induction front with
    | nil => exact bind_ok hp _
    | cons q front ih =>
      obtain ⟨hq, hfront⟩ := List.forall_mem_cons.1 hfront
      exact (bind_ok hq _).trans (ih hfront)

/-! ## Ways of the search -/

/-- A machine on which an ilspycmd is remembered. -/
def recalling (m : Machine) (tool : String) : Machine :=
  { m with memory := { m.memory with ilspycmd := some tool } }

theorem remember_eq (tool : String) (m : Machine) : remember tool m = .ok () (recalling m tool) := rfl

/-- The search for an ilspycmd, told step by step. -/
inductive Searched (r : Runner) (m : Machine) : Option String → Machine → Prop
  | configured {tool : String} {m₁ : Machine} (named : configured? m = .ok (some tool) m₁) :
      Searched r m (some tool) (recalling m₁ tool)
  | own {m₁ : Machine} (unnamed : configured? m = .ok none m₁)
      (there : Files.isThere (own r m₁) m₁ = .ok true m₁) :
      Searched r m (some (own r m₁).toString) (recalling m₁ (own r m₁).toString)
  | general {tool : String} {m₁ m' : Machine} (unnamed : configured? m = .ok none m₁)
      (absent : Files.isThere (own r m₁) m₁ = .ok false m₁)
      (found : public? m₁ = .ok (some tool) m₁)
      (saved : persist tool (recalling m₁ tool) = .ok () m') : Searched r m (some tool) m'
  | nowhere {m₁ : Machine} (unnamed : configured? m = .ok none m₁)
      (absent : Files.isThere (own r m₁) m₁ = .ok false m₁)
      (unfound : public? m₁ = .ok none m₁) : Searched r m none m₁

theorem searched_of_find? (hnew : m.memory.ilspycmd = none) (h : find? r m = .ok found m') :
    Searched r m found m' := by
  rw [find?, bind_ok (get_eq m), hnew] at h
  obtain ⟨configured, m₁, hconfigured, hrest⟩ := exists_of_bind_ok h
  cases configured with
  | some tool =>
    cases hrest
    exact .configured hconfigured
  | none =>
    obtain ⟨p, m₂, hp, hrest⟩ := exists_of_bind_ok hrest
    obtain ⟨rfl, rfl⟩ := localTool_cases hp
    obtain ⟨there, m₃, hthere, hrest⟩ := exists_of_bind_ok hrest
    obtain ⟨rfl, -⟩ := Files.isThere_cases hthere
    cases there with
    | true =>
      cases hrest
      exact .own hconfigured hthere
    | false =>
      obtain ⟨found', m₄, hpublic, hlast⟩ := exists_of_bind_ok hrest
      obtain rfl := (keeps_public? (P := (· = m₃))).ok rfl hpublic
      cases found' with
      | none =>
        cases hlast
        exact .nowhere hconfigured hthere hpublic
      | some tool =>
        obtain ⟨_, m₅, hremembered, hlast⟩ := exists_of_bind_ok hlast
        cases hremembered
        obtain ⟨_, m₆, hsaved, hlast⟩ := exists_of_bind_ok hlast
        cases hlast
        exact .general hconfigured hthere hpublic hsaved

theorem Searched.find?_eq (hnew : m.memory.ilspycmd = none) (h : Searched r m found m') :
    find? r m = .ok found m' := by
  rw [find?, bind_ok (get_eq m), hnew]
  cases h with
  | configured hnamed => exact (bind_ok hnamed _).trans rfl
  | own hunnamed hthere =>
    exact (bind_ok hunnamed _).trans ((bind_ok (localTool_eq r _) _).trans (bind_ok hthere _))
  | general hunnamed habsent hfound hsaved =>
    refine (bind_ok hunnamed _).trans ((bind_ok (localTool_eq r _) _).trans
      ((bind_ok habsent _).trans ((bind_ok hfound _).trans ?_)))
    exact bind_ok hsaved _
  | nowhere hunnamed habsent hunfound =>
    exact (bind_ok hunnamed _).trans ((bind_ok (localTool_eq r _) _).trans
      ((bind_ok habsent _).trans (bind_ok hunfound _)))

theorem resolve_of_find? (h : find? r m = .ok (some tool) m') : resolve r m = .ok tool m' :=
  bind_ok h _

/-- ilspycmd is found, or it is nowhere and installed. -/
theorem resolve_cases (h : resolve r m = .ok tool m') : find? r m = .ok (some tool) m' ∨
    ∃ m₁ m₂ m₃ dotnet said, find? r m = .ok none m₁ ∧ findDotnet? m₁ = .ok (some dotnet) m₂ ∧
      install r dotnet m₂ = .ok said m₃ ∧ Files.isThere (own r m₃) m₃ = .ok true m₃ ∧
      tool = (own r m₃).toString ∧ persist tool (recalling m₃ tool) = .ok () m' := by
  obtain ⟨found, m₁, hfind, hrest⟩ := exists_of_bind_ok h
  cases found with
  | some path =>
    cases hrest
    exact .inl hfind
  | none =>
    obtain ⟨dotnet, m₂, hdotnet, hrest⟩ := exists_of_bind_ok hrest
    cases dotnet with
    | none => cases hrest
    | some dotnet =>
      obtain ⟨said, m₃, hinstall, hrest⟩ := exists_of_bind_ok hrest
      obtain ⟨p, m₄, hp, hrest⟩ := exists_of_bind_ok hrest
      obtain ⟨rfl, rfl⟩ := localTool_cases hp
      obtain ⟨there, m₅, hthere, hlast⟩ := exists_of_bind_ok hrest
      obtain ⟨rfl, -⟩ := Files.isThere_cases hthere
      cases there with
      | false =>
        rw [if_neg Bool.false_ne_true] at hlast
        split at hlast <;> cases hlast
      | true =>
        obtain ⟨_, m₆, hremembered, hlast⟩ := exists_of_bind_ok hlast
        cases hremembered
        obtain ⟨_, m₇, hsaved, hlast⟩ := exists_of_bind_ok hlast
        cases hlast
        exact .inr ⟨m₁, m₂, m₅, dotnet, said, hfind, hdotnet, hinstall, hthere, rfl, hsaved⟩

/-! ## The configured one -/

/-- A setting that leads nowhere is none. -/
theorem configured?_eq_none_iff : configured? m = .ok none m' ↔
    ∃ value, Settings.get? "ILSPY_CMD" m = .ok value m' ∧ ∀ path, value = some path →
      path.isEmpty = true ∨ Files.isThere (Path.ofString path) m' = .ok false m' := by
  constructor
  · intro h
    obtain ⟨value, m₁, hget, hrest⟩ := exists_of_bind_ok h
    cases value with
    | none =>
      cases hrest
      exact ⟨none, hget, by simp⟩
    | some path =>
      dsimp only at hrest
      split at hrest
      · rename_i hempty
        cases hrest
        exact ⟨some path, hget, fun path' hpath => .inl (Option.some.inj hpath ▸ hempty)⟩
      obtain ⟨there, m₂, hthere, hlast⟩ := exists_of_bind_ok hrest
      obtain ⟨rfl, -⟩ := Files.isThere_cases hthere
      cases there with
      | true => cases hlast
      | false =>
        cases hlast
        exact ⟨some path, hget, fun path' hpath => .inr (Option.some.inj hpath ▸ hthere)⟩
  · rintro ⟨value, hget, hnone⟩
    rw [configured?, bind_ok hget]
    cases value with
    | none => rfl
    | some path =>
      dsimp only
      by_cases hempty : path.isEmpty = true
      · rw [if_pos hempty]
        rfl
      · rw [if_neg hempty, bind_ok ((hnone path rfl).resolve_left hempty)]
        rfl

theorem configured?_eq_some {path : String} (hget : Settings.get? "ILSPY_CMD" m = .ok (some path) m')
    (hempty : path.isEmpty = false) (hthere : Files.isThere (Path.ofString path) m' = .ok true m') :
    configured? m = .ok (some path) m' := by
  rw [configured?, bind_ok hget]
  dsimp only
  rw [hempty, if_neg Bool.false_ne_true, bind_ok hthere]
  rfl

/-! ## The others -/

/-- One on the search path comes first, then one in the usual folders. -/
theorem public?_eq_some_iff : public? m = .ok (some tool) m' ↔
    m' = m ∧ (onSearchPath? "ilspycmd" m = some tool ∨
      onSearchPath? "ilspycmd" m = none ∧ ∃ paths front found back,
        usualPaths m = .ok paths m ∧ paths = front ++ found :: back ∧
        (∀ p ∈ front, Files.isThere p m = .ok false m) ∧ Files.isThere found m = .ok true m ∧
        found.toString = tool) := by
  cases hsearch : onSearchPath? "ilspycmd" m with
  | some path =>
    have hpublic : public? m = .ok (some path) m := by
      rw [public?, bind_ok (get_eq m), hsearch]
      rfl
    rw [hpublic]
    constructor
    · intro h
      cases h
      exact ⟨rfl, .inl rfl⟩
    · rintro ⟨rfl, htool | ⟨hnone, -⟩⟩
      · rw [htool]
      · cases hnone
  | none =>
    rw [public?, bind_ok (get_eq m), hsearch]
    constructor
    · intro h
      obtain ⟨paths, m₁, hpaths, hrest⟩ := exists_of_bind_ok h
      obtain rfl := (keeps_usualPaths (P := (· = m))).ok rfl hpaths
      obtain ⟨found, m₂, hfound, hlast⟩ := exists_of_bind_ok hrest
      cases found with
      | none => cases hlast
      | some found =>
        obtain ⟨rfl, front, back, hsplit, hfront, hthere⟩ := firstExisting?_eq_some_iff.1 hfound
        cases hlast
        exact ⟨rfl, .inr ⟨rfl, paths, front, found, back, hpaths, hsplit, hfront, hthere, rfl⟩⟩
    · rintro ⟨rfl, htool | ⟨-, paths, front, found, back, hpaths, hsplit, hfront, hthere, rfl⟩⟩
      · cases htool
      · have hfound := firstExisting?_eq_some_iff.2 ⟨rfl, front, back, hsplit, hfront, hthere⟩
        exact (bind_ok hpaths _).trans (bind_ok hfound _)

/-! ## Saving it -/

/-- The path of an ilspycmd was saved in the usual file of settings. -/
structure Saved (m m' : Machine) (tool : String) (q : Place) (f : File) (text : List Char) : Prop where
  accepted : Settings.setVariable "ILSPY_CMD" tool m =
    .ok () { m with environment := m.environment.insert "ILSPY_CMD" tool }
  stands : m.cwd.isGone = false
  read : currentText (target m.cwd none) m = .ok text m
  wrote : Wrote m { m with disk := m'.disk } (target m.cwd none) q f
    (EnvFile.assign "ILSPY_CMD" tool text)
  only : ∃ environment settings, m' = { m with disk := m'.disk, environment, settings }

theorem exists_saved (hm : Sound m.cwd m) {p : Path}
    (h : Settings.save "ILSPY_CMD" tool none m = .ok p m') : ∃ q f text, Saved m m' tool q f text := by
  obtain ⟨_, m₁, hvariable, hrest⟩ := exists_of_bind_ok h
  obtain ⟨p', m₂, hfile, -⟩ := exists_of_bind_ok hrest
  obtain rfl := Settings.setVariable_cases hvariable
  obtain ⟨hstands, -⟩ := Settings.of_file hfile
  obtain ⟨rfl, m₃, m₄, text, rfl, htext, hwrite, rfl⟩ := Settings.save_cases h
  have hsound : Sound m.cwd { m with environment := m.environment.insert "ILSPY_CMD" tool } :=
    hm.of_eq rfl rfl
  obtain ⟨q, f, hwrote⟩ := Files.exists_of_writeText hsound hwrite
  have hread : Agrees (currentText (target m.cwd none))
      { m with environment := m.environment.insert "ILSPY_CMD" tool } m :=
    Settings.agrees_currentText rfl
  exact ⟨q, f, text, hvariable, hstands, (hread.ok htext).2, hwrote.of_eq rfl rfl, _, _,
    by rw [hwrote.only_disk]⟩

theorem persist_of_save {p : Path} (h : Settings.save "ILSPY_CMD" tool none m = .ok p m') :
    persist tool m = .ok () m' := by
  have hsaved : (do let _ ← Settings.save "ILSPY_CMD" tool none : Act Unit) m = .ok () m' :=
    bind_ok h _
  exact orElse_of_ok hsaved _

/-- The path of an ilspycmd is saved as a setting, or nothing changes but the environment. -/
theorem persist_cases (hm : Sound m.cwd m) (h : persist tool m = .ok () m') :
    (∃ environment, m' = { m with environment }) ∨ ∃ q f text, Saved m m' tool q f text := by
  rcases orElse_ok h with hsaved | ⟨f, m₁, hrefused, hpassed⟩
  · obtain ⟨p, m₁, hsave, hrest⟩ := exists_of_bind_ok hsaved
    cases hrest
    exact .inr (exists_saved hm hsave)
  · have hkept : m' = m₁ := by
      split at hpassed <;> cases hpassed
      rfl
    rcases cases_of_bind_error hrefused with herror | ⟨p, m₂, -, hlast⟩
    · exact .inl (hkept ▸ Settings.exists_of_save_error herror)
    · cases hlast

namespace Saved

variable {q : Place} {f : File} {text : List Char} {s : Machine}

/-- The file holds the text in which the path was assigned. -/
theorem holdsBytes (h : Saved m m' tool q f text) (hdisk : s.disk = m'.disk) (hcwd : s.cwd = m.cwd) :
    Files.HoldsBytes s (target m.cwd none)
      (Text.Utf8.encode (EnvFile.assign "ILSPY_CMD" tool text)) := by
  refine ⟨f, ?_, h.wrote.content⟩
  rw [hdisk, hcwd]
  exact h.wrote.stat

/-- A path that was saved is saved again where nothing happened to the disk. -/
theorem exists_persist (h : Saved m m' tool q f text) (htool : IsValue tool)
    (hdisk : s.disk = m'.disk) (hcwd : s.cwd = m.cwd) :
    ∃ s', persist tool s = .ok () s' ∧ s'.calls = s.calls := by
  set s₁ : Machine := { s with environment := s.environment.insert "ILSPY_CMD" tool }
  have hvariable : Settings.setVariable "ILSPY_CMD" tool s = .ok () s₁ :=
    Settings.setVariable_of_ok h.accepted s
  have hgone : s₁.cwd.isGone = false := (congrArg Place.isGone hcwd).trans h.stands
  have htarget : target s₁.cwd none = target m.cwd none := congrArg (target · none) hcwd
  have hkey : EnvFile.IsKey "ILSPY_CMD" := by decide +kernel
  have hholds := h.holdsBytes (s := s₁) hdisk hcwd
  have hread := Settings.readText_of_holdsBytes hholds
    (EnvFile.return_not_mem_assign hkey htool.unbroken text)
  obtain ⟨f', hstat, -⟩ := hholds
  have htext : currentText (target m.cwd none) s₁ = .ok _ s₁ :=
    (bind_ok (Files.isThere_of_stat hstat) _).trans hread
  rw [← htarget] at htext
  obtain ⟨d, hwrite⟩ := h.wrote.exists_writeText (s := s₁) hdisk hcwd
    (EnvFile.assign "ILSPY_CMD" tool (EnvFile.assign "ILSPY_CMD" tool text))
  have hsave := Settings.save_of_writeText hvariable (fun _ => hgone) htext (htarget ▸ hwrite)
  exact ⟨_, persist_of_save hsave, rfl⟩

end Saved

end Decompilation.Runner
