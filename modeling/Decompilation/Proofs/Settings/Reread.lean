import Decompilation.Proofs.Settings.Save

/-!
# Settings that are read again

What a process that has just started reads as a setting comes from the environment, or from the file of
settings (`get?_cases`). It depends on what the path of that file leads to and nothing else
(`agrees_usualEntries`).
-/

namespace Decompilation.Settings

open Act
open EnvFile (IsKey IsValue)
open Files (HoldsBytes)

variable {m m' m₁ : Machine} {p : Path} {key v : String} {value : Option String} {text : List Char}
  {entries : Table String String}

/-! ## What a path leads to -/

section Agrees

variable (h : m₁.disk.stat m₁.cwd p = m.disk.stat m.cwd p)
include h

theorem agrees_entriesIn : Agrees (entriesIn p) m m₁ := by
  refine ((Files.agrees_readLines h).bind fun _ => .pure _).orElse fun f => ?_
  split
  · exact .pure _
  · exact .throw _

theorem agrees_currentText : Agrees (currentText p) m m₁ := by
  refine (Files.agrees_isThere h).bind fun there => ?_
  split
  · exact Files.agrees_readText h
  · exact .pure _

end Agrees

/-! ## The usual file -/

/-- The settings in the file in the folder that one stands in. -/
def usualEntries : Act (Table String String) := do
  let p ← file
  if ← Files.isThere p then entriesIn p else return ∅

theorem keeps_usualEntries {P : Machine → Prop} : Keeps P usualEntries := by
  refine keeps_file.bind fun p => (Files.keeps_isThere p).bind fun there => ?_
  split
  · exact keeps_entriesIn p
  · exact .pure _

theorem agrees_usualEntries (hcwd : m₁.cwd = m.cwd)
    (h : m₁.disk.stat m₁.cwd (target m.cwd none) = m.disk.stat m.cwd (target m.cwd none)) :
    Agrees usualEntries m m₁ := by
  by_cases hgone : m.cwd.isGone = true
  · exact .inr ⟨_, bind_error (file_of_gone hgone) _, bind_error (file_of_gone (hcwd ▸ hgone)) _⟩
  rw [Bool.not_eq_true] at hgone
  have hfile : file m₁ = .ok (target m.cwd none) m₁ := hcwd ▸ file_eq (hcwd ▸ hgone)
  rw [Agrees, usualEntries, bind_ok (file_eq hgone), bind_ok hfile]
  refine (Files.agrees_isThere h).bind fun there => ?_
  split
  · exact agrees_entriesIn h
  · exact .pure _

/-- The settings in the usual file are those in its text. -/
theorem usualEntries_of_currentText (hgone : m.cwd.isGone = false)
    (h : currentText (target m.cwd none) m = .ok text m') :
    usualEntries m = .ok (EnvFile.parse text) m := by
  obtain ⟨there, m₁, hthere, htext⟩ := exists_of_bind_ok h
  obtain ⟨rfl, -⟩ := Files.isThere_cases hthere
  rw [usualEntries, bind_ok (file_eq hgone), bind_ok hthere]
  cases there with
  | false =>
    cases htext
    rfl
  | true => exact entriesIn_of_readText htext

/-- A setting that was assigned in a text is read from the file that holds the text: it has its value,
or the one that it has in the text before where every separator ends a line. -/
theorem usualEntries_of_assigned (hgone : m.cwd.isGone = false) (hkey : IsKey key) (hv : IsValue v)
    (h : HoldsBytes m (target m.cwd none) (Text.Utf8.encode (EnvFile.assign key v text))) :
    ∃ entries, usualEntries m = .ok entries m ∧ (entries.get? key = some v ∨
      entries.get? key = (EnvFile.parse (Text.joinWith ['\n'] (Text.lines text))).get? key) := by
  have hread := readText_of_holdsBytes h (EnvFile.return_not_mem_assign hkey hv.unbroken text)
  obtain ⟨f, hstat, -⟩ := h
  have htext : currentText (target m.cwd none) m = .ok (EnvFile.assign key v text) m :=
    (bind_ok (Files.isThere_of_stat hstat) _).trans hread
  exact ⟨_, usualEntries_of_currentText hgone htext, EnvFile.get?_parse_assign hkey hv text⟩

/-! ## A setting -/

theorem load_eq (hnew : m.settings.loaded = false) : load false m = (do
    let entries ← usualEntries
    modify fun m : Machine => { m with settings := ⟨entries, true⟩ }) m := by
  rw [load, bind_ok (get_eq m), hnew, usualEntries, bind_assoc]
  refine congrFun (congrArg (file >>= ·) (funext fun p => ?_)) m
  rw [bind_assoc]
  refine congrArg (Files.isThere p >>= ·) (funext fun there => ?_)
  cases there <;> rfl

/-- Settings that have been read are not read again. -/
theorem load_of_loaded (h : m.settings.loaded = true) : load false m = .ok () m := by
  rw [load, bind_ok (get_eq m), h]
  rfl

/-- Settings are remembered once they are read. -/
theorem load_cases (h : load false m = .ok () m') : m'.settings.loaded = true ∧
    (m' = m ∨ m.settings.loaded = false ∧
      ∃ entries, usualEntries m = .ok entries m ∧ m' = { m with settings := ⟨entries, true⟩ }) := by
  cases hloaded : m.settings.loaded with
  | true =>
    rw [load_of_loaded hloaded] at h
    cases h
    exact ⟨hloaded, .inl rfl⟩
  | false =>
    rw [load_eq hloaded] at h
    obtain ⟨entries, m₁, hentries, hsettings⟩ := exists_of_bind_ok h
    obtain rfl := keeps_usualEntries.ok rfl hentries
    cases hsettings
    exact ⟨rfl, .inr ⟨rfl, entries, hentries, rfl⟩⟩

theorem get?_of_loaded (h : m.settings.loaded = true) (key : String) :
    get? key m = .ok ((m.environment.get? key).or (m.settings.entries.get? key)) m := by
  rw [get?, bind_ok (get_eq m)]
  cases m.environment.get? key with
  | some v => rfl
  | none => exact bind_ok (load_of_loaded h) _

/-- A setting is read from what there is when the settings have been read. -/
theorem get?_of_load (hload : load false m = .ok () m') (h : get? key m = .ok value m₁) :
    get? key m' = .ok value m' ∧ (m₁ = m ∨ m₁ = m') := by
  rw [get?, bind_ok (get_eq m)] at h
  obtain ⟨hloaded, hcases⟩ := load_cases hload
  have hsame : m'.environment = m.environment := by
    rcases hcases with rfl | ⟨-, entries, -, rfl⟩ <;> rfl
  rw [get?_of_loaded hloaded, hsame]
  cases hvariable : m.environment.get? key with
  | some v =>
    rw [hvariable] at h
    cases h
    exact ⟨rfl, .inl rfl⟩
  | none =>
    rw [hvariable] at h
    have hlast := (bind_ok hload _).symm.trans h
    cases hlast
    exact ⟨rfl, .inr rfl⟩

theorem get?_of_environment (h : m.environment.get? key = some v) :
    get? key m = .ok (some v) m := by
  rw [get?, bind_ok (get_eq m), h]
  rfl

theorem get?_of_usualEntries (henvironment : m.environment.get? key = none)
    (hnew : m.settings.loaded = false) (h : usualEntries m = .ok entries m) :
    get? key m = .ok (entries.get? key) { m with settings := ⟨entries, true⟩ } := by
  rw [get?, bind_ok (get_eq m), henvironment]
  exact bind_ok ((load_eq hnew).trans (bind_ok h _)) _

/-- A setting comes from the environment or, failing that, from the usual file. -/
theorem get?_cases (hnew : m.settings.loaded = false) (h : get? key m = .ok value m') :
    (∃ v, m.environment.get? key = some v ∧ value = some v ∧ m' = m) ∨
    m.environment.get? key = none ∧ ∃ entries, usualEntries m = .ok entries m ∧
      value = entries.get? key ∧ m' = { m with settings := ⟨entries, true⟩ } := by
  cases henvironment : m.environment.get? key with
  | some v =>
    rw [get?_of_environment henvironment] at h
    cases h
    exact .inl ⟨v, rfl, rfl, rfl⟩
  | none =>
    rw [get?, bind_ok (get_eq m), henvironment] at h
    obtain ⟨_, m₁, hload, hvalue⟩ := exists_of_bind_ok h
    rw [load_eq hnew] at hload
    obtain ⟨entries, m₂, hentries, hsettings⟩ := exists_of_bind_ok hload
    obtain rfl := keeps_usualEntries.ok rfl hentries
    cases hsettings
    cases hvalue
    exact .inr ⟨rfl, entries, hentries, rfl, rfl⟩

end Decompilation.Settings
