import Decompilation.Proofs.Disk.Refused
import Decompilation.Proofs.Runner.Restart
import Decompilation.Proofs.Runner.Silent

/-!
# Where the search for ilspycmd cannot go on

The search asks whether something is at one path after the other, and it ends without an answer where the
system has none: where a path is too long, where nobody knows the home folder or where one stands in a
folder that is gone (`Lost`). That is all that keeps it from an answer (`fails_find?_iff`): that what it
found cannot be saved it passes over (`not_fails_persist`).
-/

namespace Decompilation

open Act
open Disk (Plain)
open Files (TooLong Legible)
open Settings (load target usualEntries)

variable {r : Runner} {m m₁ m' : Machine} {p : Path} {n : Node} {f : Fault} {key tool : String}
  {paths : List Path}

/-! ## Settings -/

namespace Settings

theorem not_fails_entriesIn (hn : m.disk.stat m.cwd p = .ok n) (hlegible : Legible m p) :
    ¬ Fails (entriesIn p) m := by
  cases hread : (do return EnvFile.parse (← Files.readLines p) : Act (Table String String)) m with
  | ok entries m₁ => exact not_fails_of_ok (orElse_of_ok hread _)
  | error f m₁ =>
    have hrefusal : f.isRefusal = true := by
      rcases cases_of_bind_error hread with hlines | ⟨text, m₂, -, hlast⟩
      · exact Files.isRefusal_of_readLines hn hlegible hlines
      · cases hlast
    have hpassed : entriesIn p m = (pure ∅ : Act (Table String String)) m₁ := by
      rw [entriesIn, orElse_of_error hread, if_pos hrefusal]
    exact not_fails_of_ok hpassed

theorem fails_usualEntries_iff (hlegible : Legible m (target m.cwd none)) :
    Fails usualEntries m ↔ m.cwd.isGone = true ∨ TooLong m (target m.cwd none) := by
  by_cases hgone : m.cwd.isGone = true
  · exact iff_of_true ⟨_, _, bind_error (file_of_gone hgone) _⟩ (.inl hgone)
  rw [Bool.not_eq_true] at hgone
  rw [usualEntries, fails_bind_of_ok (file_eq hgone), fails_bind_iff, Files.fails_isThere_iff, hgone]
  simp only [Bool.false_eq_true, false_or]
  refine ⟨fun h => h.resolve_right ?_, .inl⟩
  rintro ⟨there, m₁, hthere, hfails⟩
  obtain ⟨rfl, hfound⟩ := Files.isThere_cases hthere
  cases there with
  | false => exact not_fails_pure _ _ hfails
  | true =>
    obtain ⟨n, hn⟩ := hfound.1 rfl
    exact not_fails_entriesIn hn hlegible hfails

/-- Settings cannot be read where one stands in a folder that is gone, or that is too far away. -/
theorem fails_load_iff (hlegible : Legible m (target m.cwd none)) : Fails (load false) m ↔
    m.settings.loaded = false ∧ (m.cwd.isGone = true ∨ TooLong m (target m.cwd none)) := by
  cases hloaded : m.settings.loaded with
  | true => exact iff_of_false (not_fails_of_ok (load_of_loaded hloaded)) (by simp)
  | false =>
    have hentries : Fails (load false) m ↔ Fails usualEntries m := by
      rw [Fails, load_eq hloaded]
      exact fails_bind_of_not_fails fun _ _ => not_fails_of_ok rfl
    rw [hentries, fails_usualEntries_iff hlegible]
    simp

theorem fails_get?_iff (hlegible : Legible m (target m.cwd none)) : Fails (get? key) m ↔
    m.environment.get? key = none ∧ m.settings.loaded = false ∧
      (m.cwd.isGone = true ∨ TooLong m (target m.cwd none)) := by
  cases henvironment : m.environment.get? key with
  | some v => exact iff_of_false (not_fails_of_ok (get?_of_environment henvironment)) (by simp)
  | none =>
    have hload : Fails (get? key) m ↔ Fails (load false) m := by
      rw [get?, fails_bind_of_ok (get_eq m), henvironment]
      exact fails_bind_of_not_fails fun _ _ => not_fails_of_ok rfl
    rw [hload, fails_load_iff hlegible]
    simp

/-- A path without null bytes is taken as an environment variable. -/
theorem setVariable_of_plain (h : '\x00' ∉ tool.toList) : setVariable "ILSPY_CMD" tool m =
    .ok () { m with environment := m.environment.insert "ILSPY_CMD" tool } := by
  have hkey : ("ILSPY_CMD".toList.elem '\x00' || tool.toList.elem '\x00') = false := by
    rw [Bool.or_eq_false_iff]
    exact ⟨by decide +kernel, by simpa using h⟩
  rw [setVariable, hkey, if_neg Bool.false_ne_true, if_neg (by decide +kernel),
    if_neg (by decide +kernel)]
  rfl

theorem isRefusal_of_saveIn (hplain : Plain p) (hlegible : Legible m p) {value : String}
    (h : saveIn p key value m = .error f m') : f.isRefusal = true := by
  rcases cases_of_bind_error h with htext | ⟨text, m₁, htext, hrest⟩
  · rcases cases_of_bind_error htext with hthere | ⟨there, m₁, hthere, hread⟩
    · exact Files.isRefusal_of_isThere hthere
    obtain ⟨rfl, hfound⟩ := Files.isThere_cases hthere
    cases there with
    | false => cases hread
    | true =>
      obtain ⟨n, hn⟩ := hfound.1 rfl
      exact Files.isRefusal_of_readText hn hlegible hread
  · rcases cases_of_bind_error hrest with hwrite | ⟨_, m₂, -, hlast⟩
    · exact Files.isRefusal_of_writeText hplain hwrite
    · cases hlast

theorem plain_target (hcwd : ∀ n ∈ m.cwd, '\x00' ∉ n.toList) : Plain (target m.cwd none) := by
  intro s hs
  have hsegments : (target m.cwd none).segments = m.cwd ++ [".env"] := by
    change (Path.join (Disk.pathOf m.cwd) (Path.ofString ".env")).segments = _
    have hname : Path.ofString ".env" = ⟨.here, [".env"]⟩ := by decide
    rw [hname]
    rfl
  rw [hsegments, List.mem_append, List.mem_singleton] at hs
  rcases hs with hs | rfl
  · exact hcwd s hs
  · decide +kernel

/-- A setting that cannot be saved is refused by the system. -/
theorem isRefusal_of_save (hcwd : ∀ n ∈ m.cwd, '\x00' ∉ n.toList)
    (hlegible : m.cwd.isGone = false → Legible m (target m.cwd none)) (htool : '\x00' ∉ tool.toList)
    (h : save "ILSPY_CMD" tool none m = .error f m') : f.isRefusal = true := by
  rw [save, bind_ok (setVariable_of_plain htool)] at h
  set m₁ : Machine := { m with environment := m.environment.insert "ILSPY_CMD" tool }
  by_cases hgone : m.cwd.isGone = true
  · have hfile := file_of_gone (m := m₁) hgone
    injection (bind_error hfile _).symm.trans h with hf
    rw [← hf]
    rfl
  · rw [Bool.not_eq_true] at hgone
    have hfile := file_eq (m := m₁) hgone
    exact isRefusal_of_saveIn (m := m₁) (plain_target hcwd) (hlegible hgone)
      ((bind_ok hfile _).symm.trans h)

/-- A file that holds no text is not overwritten. -/
theorem save_of_not_legible (htool : '\x00' ∉ tool.toList) (hgone : m.cwd.isGone = false)
    (h : ¬ Legible m (target m.cwd none)) :
    ∃ e m', save "ILSPY_CMD" tool none m = .error (.undecodable e) m' := by
  obtain ⟨g, hstat, hgarbled⟩ : ∃ g, m.disk.stat m.cwd (target m.cwd none) = .ok (.file g) ∧
      ∀ text, Text.Utf8.decode g.content ≠ .ok text := by
    simpa [Legible] using h
  set m₁ : Machine := { m with environment := m.environment.insert "ILSPY_CMD" tool }
  have hfile : file m₁ = .ok (target m.cwd none) m₁ := file_eq (m := m₁) hgone
  have hthere : Files.isThere (target m.cwd none) m₁ = .ok true m₁ :=
    Files.isThere_of_stat (m := m₁) hstat
  obtain ⟨e, he⟩ : ∃ e, Files.readText (target m.cwd none) m₁ = .error (.undecodable e) m₁ := by
    rw [Files.readText_of_stat (m := m₁) hstat]
    cases hdecode : Text.Utf8.decode g.content with
    | ok text => exact absurd hdecode (hgarbled text)
    | error e => exact ⟨e, rfl⟩
  have htext : currentText (target m.cwd none) m₁ = .error (.undecodable e) m₁ :=
    (bind_ok hthere _).trans he
  exact ⟨e, m₁, (bind_ok (setVariable_of_plain htool) _).trans
    ((bind_ok hfile _).trans (bind_error htext _))⟩

end Settings

namespace Runner

/-- To save the path of an ilspycmd may be refused, which is passed over. It fails where the file of
settings holds no text. -/
theorem fails_persist_iff (hcwd : ∀ n ∈ m.cwd, '\x00' ∉ n.toList) (htool : '\x00' ∉ tool.toList) :
    Fails (persist tool) m ↔ m.cwd.isGone = false ∧ ¬ Legible m (target m.cwd none) := by
  constructor
  · intro h
    by_contra hlegible
    refine absurd h ?_
    cases hsave : (do let _ ← Settings.save "ILSPY_CMD" tool none : Act Unit) m with
    | ok u m₁ => exact not_fails_of_ok (orElse_of_ok hsave _)
    | error f m₁ =>
      have hrefusal : f.isRefusal = true := by
        rcases cases_of_bind_error hsave with herror | ⟨p, m₂, -, hlast⟩
        · exact Settings.isRefusal_of_save hcwd
            (fun hgone => by_contra fun h => hlegible ⟨hgone, h⟩) htool herror
        · cases hlast
      have hpassed : (if f.isRefusal then pure () else throw f : Act Unit) m₁ = .ok () m₁ := by
        rw [if_pos hrefusal]
        rfl
      exact not_fails_of_ok ((orElse_of_error hsave _).trans hpassed)
  · rintro ⟨hgone, hgarbled⟩
    obtain ⟨e, m', hsave⟩ := Settings.save_of_not_legible htool hgone hgarbled
    have hrun : (do let _ ← Settings.save "ILSPY_CMD" tool none : Act Unit) m =
        .error (.undecodable e) m' := bind_error hsave _
    exact ⟨_, _, orElse_of_error hrun _⟩

/-! ## Asking at one path after the other -/

/-- One of some paths is too long, and nothing is at those before it. -/
def StuckOn (m : Machine) (paths : List Path) : Prop :=
  ∃ front p back, paths = front ++ p :: back ∧ (∀ q ∈ front, Files.isThere q m = .ok false m) ∧
    TooLong m p

theorem fails_firstExisting?_iff : Fails (firstExisting? paths) m ↔ StuckOn m paths := by
  induction paths with
  | nil => exact iff_of_false (not_fails_pure _ _) fun ⟨front, p, back, hnil, _⟩ => by simp at hnil
  | cons p paths ih =>
    rw [firstExisting?, fails_bind_iff, Files.fails_isThere_iff]
    constructor
    · rintro (hlong | ⟨there, m₁, hthere, hrest⟩)
      · exact ⟨[], p, paths, rfl, by simp, hlong⟩
      obtain ⟨rfl, -⟩ := Files.isThere_cases hthere
      cases there with
      | true => exact absurd hrest (not_fails_pure _ _)
      | false =>
        obtain ⟨front, q, back, rfl, hfront, hlong⟩ := ih.1 hrest
        exact ⟨p :: front, q, back, rfl, List.forall_mem_cons.2 ⟨hthere, hfront⟩, hlong⟩
    · rintro ⟨front, q, back, hsplit, hfront, hlong⟩
      cases front with
      | nil =>
        obtain ⟨rfl, -⟩ := List.cons.inj hsplit
        exact .inl hlong
      | cons p' front =>
        obtain ⟨rfl, hback⟩ := List.cons.inj hsplit
        obtain ⟨hp, hfront⟩ := List.forall_mem_cons.1 hfront
        exact .inr ⟨false, m, hp, ih.2 ⟨front, q, back, hback, hfront, hlong⟩⟩

/-! ## The home folder -/

/-- Nobody knows the home folder: it is in neither the environment nor the system, or it is given by
somebody's home folder. -/
def HomeUnknown (m : Machine) : Prop :=
  ∀ folder, (m.environment.get? "HOME").or m.homes.own = some folder → folder.startsWith "~" = true

theorem startsWith_tilde_iff (s : String) : s.startsWith "~" = true ↔ s.toList.head? = some '~' := by
  rw [String.startsWith_string_iff]
  constructor
  · rintro ⟨rest, hrest⟩
    rw [← hrest]
    rfl
  · intro h
    obtain ⟨rest, hrest⟩ := List.head?_eq_some_iff.1 h
    exact ⟨rest, hrest.symm⟩

/-- Slashes at the end of a text do not matter for a tilde at its start. -/
theorem head?_rdropWhile_slash (l : List Char) :
    (l.rdropWhile (· == '/')).head? = some '~' ↔ l.head? = some '~' := by
  have hprefix := List.rdropWhile_prefix (· == '/') l
  constructor
  · intro h
    obtain ⟨rest, hrest⟩ := List.head?_eq_some_iff.1 h
    obtain ⟨back, hback⟩ := hprefix
    rw [← hback, hrest]
    rfl
  · intro h
    obtain ⟨rest, rfl⟩ := List.head?_eq_some_iff.1 h
    have hne : ('~' :: rest).rdropWhile (· == '/') ≠ [] := by
      rw [Ne, List.rdropWhile_eq_nil_iff]
      exact fun hall => absurd (hall '~' (List.mem_cons_self ..)) (by decide)
    obtain ⟨c, front, hcut⟩ := List.exists_cons_of_ne_nil hne
    rw [hcut] at hprefix ⊢
    obtain ⟨rfl, -⟩ := List.cons_prefix_cons.1 hprefix
    rfl

/-- The folder of a home starts with a tilde where the home does. -/
theorem startsWith_tilde_homeFolder (h : String) :
    (homeFolder h).startsWith "~" = true ↔ h.startsWith "~" = true := by
  have hcut := head?_rdropWhile_slash h.toList
  rw [List.rdropWhile] at hcut
  rw [startsWith_tilde_iff, startsWith_tilde_iff, ← hcut, homeFolder]
  split
  · rename_i hempty
    rw [String.isEmpty_iff, ← String.toList_inj, String.toList_ofList] at hempty
    rw [hempty]
    decide +kernel
  · rw [String.toList_ofList]

/-- The home folder is not known where there is none or it starts with a tilde. -/
theorem fails_home_iff : Fails home m ↔ HomeUnknown m := by
  have hpath : Path.ofString "~" = ⟨.here, ["~"]⟩ := by decide
  have htilde : "~".startsWith "~" = true := (startsWith_tilde_iff _).2 (by decide)
  rw [HomeUnknown, home, hpath, expandHome]
  dsimp only
  rw [if_pos htilde, if_neg (by decide), fails_bind_of_ok (get_eq m), homeOf?, if_pos rfl]
  cases (m.environment.get? "HOME").or m.homes.own with
  | none => exact iff_of_true ⟨_, _, rfl⟩ (by simp)
  | some folder =>
    simp only [Option.map_some, Option.some.injEq, forall_eq', ← startsWith_tilde_homeFolder folder]
    by_cases hagain : (homeFolder folder).startsWith "~" = true
    · rw [if_pos hagain]
      exact iff_of_true ⟨_, _, bind_error rfl _⟩ hagain
    · rw [if_neg hagain]
      exact iff_of_false (not_fails_pure _ _) hagain

theorem fails_usualPaths_iff : Fails usualPaths m ↔ HomeUnknown m := by
  rw [usualPaths, ← fails_home_iff]
  refine fails_bind_of_not_fails fun home m₁ => Raises.not_fails ?_ m₁
  refine .bind (.bind .get fun _ => .pure _) fun windows => ?_
  split
  · exact .bind (.bind .get fun _ => .pure _) fun _ => .pure _
  · exact .pure _

/-! ## The search -/

theorem fails_configured?_iff : Fails configured? m ↔ Fails (Settings.get? "ILSPY_CMD") m ∨
    ∃ path m₁, Settings.get? "ILSPY_CMD" m = .ok (some path) m₁ ∧ path.isEmpty = false ∧
      TooLong m₁ (Path.ofString path) := by
  rw [configured?, fails_bind_iff]
  refine or_congr_right ?_
  constructor
  · rintro ⟨setting, m₁, hget, hfails⟩
    cases setting with
    | none => exact absurd hfails (not_fails_pure _ _)
    | some path =>
      dsimp only at hfails
      split at hfails
      · exact absurd hfails (not_fails_pure _ _)
      · rename_i hempty
        rw [fails_bind_of_not_fails fun there _ => by split <;> exact not_fails_pure _ _] at hfails
        exact ⟨path, m₁, hget, Bool.eq_false_iff.2 hempty, Files.fails_isThere_iff.1 hfails⟩
  · rintro ⟨path, m₁, hget, hempty, hlong⟩
    refine ⟨some path, m₁, hget, ?_⟩
    dsimp only
    rw [hempty, if_neg Bool.false_ne_true]
    exact fails_bind_iff.2 (.inl (Files.fails_isThere_iff.2 hlong))

theorem fails_public?_iff : Fails public? m ↔ onSearchPath? "ilspycmd" m = none ∧
    (HomeUnknown m ∨ ∃ paths, usualPaths m = .ok paths m ∧ StuckOn m paths) := by
  rw [public?, fails_bind_of_ok (get_eq m)]
  cases hsearch : onSearchPath? "ilspycmd" m with
  | some path => exact iff_of_false (not_fails_pure _ _) (by simp)
  | none =>
    dsimp only
    rw [fails_bind_iff, fails_usualPaths_iff]
    simp only [true_and]
    refine or_congr_right ⟨?_, ?_⟩
    · rintro ⟨paths, m₁, hpaths, hfails⟩
      obtain rfl := (keeps_usualPaths (P := (· = m))).ok rfl hpaths
      exact ⟨paths, hpaths, fails_firstExisting?_iff.1
        ((fails_bind_of_not_fails fun _ _ => not_fails_pure _ _).1 hfails)⟩
    · rintro ⟨paths, hpaths, hstuck⟩
      exact ⟨paths, m, hpaths, fails_bind_iff.2 (.inl (fails_firstExisting?_iff.2 hstuck))⟩

/-- The search for an ilspycmd cannot go on: the settings cannot be read, a path that it asks at is too
long, or nobody knows the home folder. -/
inductive Lost (r : Runner) (m : Machine) : Prop
  | settings (unset : m.environment.get? "ILSPY_CMD" = none) (unread : m.settings.loaded = false)
      (away : m.cwd.isGone = true ∨ TooLong m (target m.cwd none))
  | named {path : String} {m₁ : Machine}
      (set : Settings.get? "ILSPY_CMD" m = .ok (some path) m₁) (given : path.isEmpty = false)
      (long : TooLong m₁ (Path.ofString path))
  | own {m₁ : Machine} (unnamed : configured? m = .ok none m₁) (long : TooLong m₁ (own r m₁))
  | home {m₁ : Machine} (unnamed : configured? m = .ok none m₁)
      (absent : Files.isThere (Runner.own r m₁) m₁ = .ok false m₁)
      (unlisted : onSearchPath? "ilspycmd" m₁ = none) (unknown : HomeUnknown m₁)
  | usual {m₁ : Machine} {paths : List Path} (unnamed : configured? m = .ok none m₁)
      (absent : Files.isThere (Runner.own r m₁) m₁ = .ok false m₁)
      (unlisted : onSearchPath? "ilspycmd" m₁ = none) (usual : usualPaths m₁ = .ok paths m₁)
      (stuck : StuckOn m₁ paths)

theorem null_not_mem_toString (h : Plain p) : '\x00' ∉ p.toString.toList := by
  intro hnull
  rcases Path.mem_toString hnull with h' | h' | ⟨s, hs, hnull⟩
  · cases h'
  · cases h'
  · exact h s hs hnull

theorem null_not_mem_of_isThere (h : Files.isThere (Path.ofString tool) m = .ok true m') :
    '\x00' ∉ tool.toList := by
  intro hnull
  rcases Path.mem_ofString hnull with h' | h' | ⟨s, hs, hnull⟩
  · cases h'
  · cases h'
  · exact Files.plain_of_isThere h s hs hnull

/-- To look at what is configured changes neither the disk nor where one stands. -/
theorem stays_of_configured? {named : Option String} (h : configured? m = .ok named m₁) :
    m₁.disk = m.disk ∧ m₁.cwd = m.cwd := by
  have hcalm : Calm fun s : Machine => s.disk = m.disk ∧ s.cwd = m.cwd :=
    ⟨fun _ hm => hm, fun _ hm => hm⟩
  exact (keeps_configured? hcalm).ok ⟨rfl, rfl⟩ h

/-- What is found in a public place is saved, for the settings still hold the text that they held at
first. -/
theorem not_fails_persist_of_public? (hcwd : ∀ n ∈ m.cwd, '\x00' ∉ n.toList)
    (hlegible : Legible m (target m.cwd none)) (hnamed : configured? m = .ok none m₁)
    (hpublic : public? m₁ = .ok (some tool) m') : ¬ Fails (persist tool) (recalling m₁ tool) := by
  obtain ⟨hdisk, hstands⟩ := stays_of_configured? hnamed
  have hlegible' : Legible m₁ (target m₁.cwd none) := by
    rw [Legible, hdisk, hstands]
    exact hlegible
  intro hfails
  obtain ⟨-, hillegible⟩ := (fails_persist_iff (m := recalling m₁ tool)
    (fun n hn => hcwd n (hstands ▸ hn)) (null_not_mem_of_isThere (isThere_of_public? hpublic))).1 hfails
  exact hillegible hlegible'

/-- The search for an ilspycmd that nobody remembers fails where one of its parts does: where the
configuration is read, where it asks for an ilspycmd of its own, and in the public places. -/
theorem fails_find?_iff_part (hcwd : ∀ n ∈ m.cwd, '\x00' ∉ n.toList)
    (hlegible : Legible m (target m.cwd none)) (hnew : m.memory.ilspycmd = none) :
    Fails (find? r) m ↔ Fails configured? m ∨ ∃ m₁, configured? m = .ok none m₁ ∧
      (TooLong m₁ (own r m₁) ∨
        Files.isThere (own r m₁) m₁ = .ok false m₁ ∧ Fails public? m₁) := by
  rw [find?, fails_bind_of_ok (get_eq m), hnew]
  refine fails_bind_iff.trans (or_congr_right ⟨?_, ?_⟩)
  · rintro ⟨named, m₁, hnamed, h⟩
    cases named with
    | some tool => exact absurd h (not_fails_of_ok rfl)
    | none =>
      refine ⟨m₁, hnamed, ?_⟩
      rcases fails_bind_iff.1 ((fails_bind_of_ok (localTool_eq r m₁) _).1 h) with
        hthere | ⟨there, m₂, hthere, h⟩
      · exact .inl (Files.fails_isThere_iff.1 hthere)
      obtain ⟨rfl, -⟩ := Files.isThere_cases hthere
      cases there with
      | true => exact absurd h (not_fails_of_ok rfl)
      | false =>
        refine .inr ⟨hthere, (fails_bind_iff.1 h).resolve_right ?_⟩
        rintro ⟨found, m₃, hpublic, hfound⟩
        cases found with
        | none => exact not_fails_pure _ _ hfound
        | some tool =>
          -- what was found is remembered, and it is saved
          obtain rfl := (keeps_public? (P := (· = m₂))).ok rfl hpublic
          have hpersist := not_fails_persist_of_public? hcwd hlegible hnamed hpublic
          have hrest := (fails_bind_of_ok (remember_eq tool m₃) _).1 hfound
          exact hpersist ((fails_bind_of_not_fails fun _ _ => not_fails_pure _ _).1 hrest)
  · rintro ⟨m₁, hnamed, h⟩
    refine ⟨none, m₁, hnamed, (fails_bind_of_ok (localTool_eq r m₁) _).2 ?_⟩
    rcases h with hlong | ⟨habsent, hpublic⟩
    · exact fails_bind_iff.2 (.inl (Files.fails_isThere_iff.2 hlong))
    · exact (fails_bind_of_ok habsent _).2 (fails_bind_iff.2 (.inl hpublic))

/-- The search for an ilspycmd that nobody remembers fails exactly if it is lost. -/
theorem fails_find?_iff (hcwd : ∀ n ∈ m.cwd, '\x00' ∉ n.toList)
    (hlegible : Legible m (target m.cwd none)) (hnew : m.memory.ilspycmd = none) :
    Fails (find? r) m ↔ Lost r m := by
  rw [fails_find?_iff_part hcwd hlegible hnew, fails_configured?_iff, Settings.fails_get?_iff hlegible]
  constructor
  · rintro ((⟨hunset, hunread, haway⟩ | ⟨path, m₁, hset, hgiven, hlong⟩) |
      ⟨m₁, hunnamed, hlong | ⟨habsent, hpublic⟩⟩)
    · exact .settings hunset hunread haway
    · exact .named hset hgiven hlong
    · exact .own hunnamed hlong
    · obtain ⟨hunlisted, hunknown | ⟨paths, husual, hstuck⟩⟩ := fails_public?_iff.1 hpublic
      · exact .home hunnamed habsent hunlisted hunknown
      · exact .usual hunnamed habsent hunlisted husual hstuck
  · intro h
    cases h with
    | settings hunset hunread haway => exact .inl (.inl ⟨hunset, hunread, haway⟩)
    | named hset hgiven hlong => exact .inl (.inr ⟨_, _, hset, hgiven, hlong⟩)
    | own hunnamed hlong => exact .inr ⟨_, hunnamed, .inl hlong⟩
    | home hunnamed habsent hunlisted hunknown =>
      exact .inr ⟨_, hunnamed, .inr ⟨habsent, fails_public?_iff.2 ⟨hunlisted, .inl hunknown⟩⟩⟩
    | usual hunnamed habsent hunlisted husual hstuck =>
      exact .inr ⟨_, hunnamed,
        .inr ⟨habsent, fails_public?_iff.2 ⟨hunlisted, .inr ⟨_, husual, hstuck⟩⟩⟩⟩

end Runner

end Decompilation
