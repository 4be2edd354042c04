import Decompilation.Proofs.Disk.Written
import Decompilation.Proofs.Runner.Host
import Decompilation.Proofs.Settings.EnvFile
import Decompilation.Proofs.Text.Utf8

/-!
# Settings that are saved

Saving a setting writes the file of settings (`save_cases`). Where the file `Stores` settings it stores
them with the new one afterwards, so what has been saved in a file that was not there is read from it
(`entriesIn_saveAll`).
-/

namespace Decompilation.Settings

open Act
open EnvFile (AreSettings IsKey IsValue)
open Files (HoldsBytes)

variable {cwd : Place} {m m' : Machine} {p : Path} {key value : String} {given : Option Path}
  {text : List Char} {t : Table String String}

/-! ## Reading -/

theorem currentText_cases (h : currentText p m = .ok text m') : m' = m ∧
    ((∀ n, m.disk.stat m.cwd p ≠ .ok n) ∧ text = [] ∨ Files.readText p m = .ok text m) := by
  obtain ⟨there, m₁, hthere, hrest⟩ := exists_of_bind_ok h
  obtain ⟨rfl, hfound⟩ := Files.isThere_cases hthere
  obtain rfl := (keeps_currentText (P := (· = m₁)) p).ok rfl h
  refine ⟨rfl, ?_⟩
  cases there with
  | false =>
    cases hrest
    exact .inl ⟨fun n hn => by simpa using hfound.2 ⟨n, hn⟩, rfl⟩
  | true => exact .inr hrest

/-- A text is read from the file that holds it, with newlines for all line ends. -/
theorem readText_of_encode (h : HoldsBytes m p (Text.Utf8.encode text)) :
    Files.readText p m = .ok (Text.unifyBreaks text) m := by
  obtain ⟨f, hstat, hcontent⟩ := h
  rw [Files.readText_of_stat hstat, hcontent, Text.Utf8.decode_encode]

theorem readText_of_holdsBytes (h : HoldsBytes m p (Text.Utf8.encode text)) (htext : '\r' ∉ text) :
    Files.readText p m = .ok text m := by
  rw [readText_of_encode h, Text.unifyBreaks_of_not_mem htext]

/-- The settings in a file are those in its text. -/
theorem entriesIn_of_readText (h : Files.readText p m = .ok text m') :
    entriesIn p m = .ok (EnvFile.parse text) m := by
  have hlines : Files.readLines p m = .ok text m := by
    obtain ⟨f, m₁, hopen, hdecode⟩ := exists_of_bind_ok h
    obtain rfl := (Files.keeps_openFile (P := (· = m)) p).ok rfl hopen
    rw [Files.readLines, bind_ok hopen]
    cases hcontent : Text.Utf8.decode f.content with
    | error fault =>
      rw [hcontent] at hdecode
      cases hdecode
    | ok s =>
      rw [hcontent] at hdecode
      cases hdecode
      rfl
  have hparse : (do return EnvFile.parse (← Files.readLines p) : Act (Table String String)) m =
      .ok (EnvFile.parse text) m := bind_ok hlines _
  exact orElse_of_ok hparse _

theorem entriesIn_of_holdsBytes (h : HoldsBytes m p (Text.Utf8.encode text)) (htext : '\r' ∉ text) :
    entriesIn p m = .ok (EnvFile.parse text) m :=
  entriesIn_of_readText (readText_of_holdsBytes h htext)

/-- Where there is no file there are no settings. -/
theorem entriesIn_of_error {r : Refusal} (h : m.disk.stat m.cwd p = .error r)
    (hr : r ≠ .nullByte) : entriesIn p m = .ok Table.empty m := by
  have hopen : Files.openFile p m = .error (Fault.ofRefusal r p) m := by
    rw [Files.openFile, bind_ok (get_eq m), h]
    rfl
  have hparse : (do return EnvFile.parse (← Files.readLines p) : Act (Table String String)) m =
      .error (Fault.ofRefusal r p) m := bind_error (bind_error hopen _) _
  have hrefusal : (Fault.ofRefusal r p).isRefusal = true := bne_iff_ne.2 hr
  refine (orElse_of_error hparse _).trans ?_
  rw [if_pos hrefusal]
  rfl

/-! ## Saving -/

/-- The file in which a setting is saved: the one that is given, or the usual one. -/
def target (cwd : Place) (given : Option Path) : Path := given.getD (Disk.pathOf cwd / ".env")

theorem setVariable_cases (h : setVariable key value m = .ok () m') :
    m' = { m with environment := m.environment.insert key value } := by
  unfold setVariable at h
  split at h
  · cases h
  split at h
  · cases h
  split at h
  · cases h
  · cases h
    rfl

theorem file_eq (h : m.cwd.isGone = false) : file m = .ok (target m.cwd none) m := by
  have hcwd : cwdPath m = .ok (Disk.pathOf m.cwd) m := by
    rw [cwdPath, bind_ok (get_eq m), h]
    rfl
  exact bind_ok hcwd _

theorem file_of_gone (h : m.cwd.isGone = true) : file m = .error (.refused .missing []) m := by
  have hcwd : cwdPath m = .error (.refused .missing []) m := by
    rw [cwdPath, bind_ok (get_eq m), if_pos h]
    rfl
  exact bind_error hcwd _

theorem of_file (h : file m = .ok p m') : m.cwd.isGone = false ∧ p = target m.cwd none := by
  by_cases hgone : m.cwd.isGone = true
  · rw [file_of_gone hgone] at h
    cases h
  · rw [Bool.not_eq_true] at hgone
    rw [file_eq hgone] at h
    cases h
    exact ⟨hgone, rfl⟩

/-- A setting is saved in a file and in what is remembered. -/
def saveIn (p : Path) (key value : String) : Act Path := do
  let text ← currentText p
  Files.writeText p (EnvFile.assign key value text)
  modify fun m =>
    { m with settings := { m.settings with entries := m.settings.entries.insert key value } }
  return p

theorem save_eq (h : save key value given m = .ok p m') :
    saveIn (target m.cwd given) key value
      { m with environment := m.environment.insert key value } = .ok p m' := by
  obtain ⟨_, m₁, hvariable, hrest⟩ := exists_of_bind_ok h
  obtain rfl := setVariable_cases hvariable
  cases given with
  | some p => exact hrest
  | none =>
    obtain ⟨q, m₂, hfile, hsave⟩ := exists_of_bind_ok hrest
    obtain ⟨-, rfl⟩ := of_file hfile
    obtain rfl := file_cases hfile
    exact hsave

/-- A setting is saved in the environment, in the file and in what is remembered. -/
theorem save_cases (h : save key value given m = .ok p m') : p = target m.cwd given ∧
    ∃ m₁ m₂ text, m₁ = { m with environment := m.environment.insert key value } ∧
      currentText p m₁ = .ok text m₁ ∧
      Files.writeText p (EnvFile.assign key value text) m₁ = .ok () m₂ ∧
      m' = { m₂ with settings :=
        { m₂.settings with entries := m₂.settings.entries.insert key value } } := by
  obtain ⟨text, m₁, htext, hrest⟩ := exists_of_bind_ok (save_eq h)
  obtain ⟨rfl, -⟩ := currentText_cases htext
  obtain ⟨_, m₂, hwrite, hlast⟩ := exists_of_bind_ok hrest
  cases hlast
  exact ⟨rfl, _, m₂, text, rfl, htext, hwrite, rfl⟩

theorem save_of_writeText {m₁ m₂ : Machine} (hvariable : setVariable key value m = .ok () m₁)
    (hgone : given = none → m₁.cwd.isGone = false)
    (htext : currentText (target m₁.cwd given) m₁ = .ok text m₁)
    (hwrite : Files.writeText (target m₁.cwd given) (EnvFile.assign key value text) m₁ = .ok () m₂) :
    save key value given m = .ok (target m₁.cwd given) { m₂ with settings :=
      { m₂.settings with entries := m₂.settings.entries.insert key value } } := by
  refine (bind_ok hvariable _).trans ?_
  cases given with
  | none =>
    refine (bind_ok (file_eq (hgone rfl)) _).trans ?_
    exact (bind_ok htext _).trans (bind_ok hwrite _)
  | some p => exact (bind_ok htext _).trans (bind_ok hwrite _)

/-- A setting that the environment takes it takes again. -/
theorem setVariable_of_ok (h : setVariable key value m = .ok () m') (m₁ : Machine) :
    setVariable key value m₁ =
      .ok () { m₁ with environment := m₁.environment.insert key value } := by
  unfold setVariable at h ⊢
  split at h
  · cases h
  split at h
  · cases h
  split at h
  · cases h
  · rename_i hnull hequals hempty
    rw [if_neg hnull, if_neg hequals, if_neg hempty]
    rfl

theorem setVariable_error {f : Fault} (h : setVariable key value m = .error f m') : m' = m := by
  unfold setVariable at h
  split at h
  · cases h
    rfl
  split at h
  · cases h
    rfl
  split at h
  · cases h
    rfl
  · cases h

theorem saveIn_error {f : Fault} (h : saveIn p key value m = .error f m') : m' = m := by
  rcases cases_of_bind_error h with htext | ⟨text, m₁, htext, hrest⟩
  · exact (keeps_currentText (P := (· = m)) p).error rfl htext
  obtain ⟨rfl, -⟩ := currentText_cases htext
  rcases cases_of_bind_error hrest with hwrite | ⟨_, m₂, -, hlast⟩
  · exact Files.writeText_error hwrite
  · cases hlast

/-- Where a setting cannot be saved nothing changes but the environment. -/
theorem exists_of_save_error {f : Fault} (h : save key value given m = .error f m') :
    ∃ environment, m' = { m with environment } := by
  rcases cases_of_bind_error h with hvariable | ⟨_, m₁, hvariable, hrest⟩
  · exact ⟨m.environment, setVariable_error hvariable⟩
  obtain rfl := setVariable_cases hvariable
  refine ⟨m.environment.insert key value, ?_⟩
  cases given with
  | some p => exact saveIn_error hrest
  | none =>
    rcases cases_of_bind_error hrest with hfile | ⟨p, m₂, hfile, hsave⟩
    · exact (keeps_file (P := (· = { m with environment := m.environment.insert key value }))).error
        rfl hfile
    · obtain rfl := file_cases hfile
      exact saveIn_error hsave

/-! ## Saving one after the other -/

/-- A path leads to the settings that were saved there, or to nothing if there are none. -/
structure Stores (cwd : Place) (p : Path) (t : Table String String) (m : Machine) : Prop where
  sound : Sound cwd m
  settings : AreSettings t.toList
  text : t.toList = [] ∧ (∃ r, m.disk.stat m.cwd p = .error r ∧ r ≠ .nullByte) ∨
    HoldsBytes m p (Text.Utf8.encode (EnvFile.render t.toList))

namespace Stores

/-- The text that a setting is assigned in is that of the settings saved so far. -/
theorem eq_render (h : Stores cwd p t m) (hrun : currentText p m = .ok text m') :
    text = EnvFile.render t.toList := by
  obtain ⟨-, hcases⟩ := currentText_cases hrun
  rcases h.text with ⟨hnil, r, hr, -⟩ | hholds
  · rw [hnil]
    rcases hcases with ⟨-, rfl⟩ | hread
    · rfl
    · obtain ⟨f, m₁, hopen, -⟩ := exists_of_bind_ok hread
      rw [Files.openFile, bind_ok (get_eq m), hr] at hopen
      cases hopen
  · have hread := readText_of_holdsBytes hholds (EnvFile.return_not_mem_render h.settings)
    rcases hcases with ⟨hnone, -⟩ | hread'
    · obtain ⟨f, hstat, -⟩ := hholds
      exact absurd hstat (hnone _)
    · rw [hread] at hread'
      cases hread'
      rfl

/-- A setting that is saved is stored with the others. -/
theorem save (h : Stores cwd p t m) (hkey : IsKey key) (hvalue : IsValue value)
    (hgiven : target cwd given = p) {p' : Path} (hrun : Settings.save key value given m = .ok p' m') :
    Stores cwd p (t.insert key value) m' := by
  obtain ⟨rfl, m₁, m₂, text, rfl, htext, hwrite, rfl⟩ := save_cases hrun
  have htarget : target m.cwd given = p := by rw [h.sound.cwd_eq, hgiven]
  rw [htarget] at htext hwrite
  have h₁ : Stores cwd p t { m with environment := m.environment.insert key value } :=
    ⟨h.sound.of_eq rfl rfl, h.settings, h.text⟩
  obtain rfl := h₁.eq_render htext
  have hsound := (Files.keeps_writeText (fun _ => Sound.takes _ _) _).ok h₁.sound hwrite
  obtain ⟨q, f, hwrote⟩ := Files.exists_of_writeText h₁.sound hwrite
  have hcontent := hwrote.content
  rw [EnvFile.assign_render h.settings t.nodup hkey] at hcontent
  exact ⟨hsound.of_eq rfl rfl, h.settings.put hkey hvalue, .inr ⟨f, hwrote.stat, hcontent⟩⟩

/-- What is stored is read. -/
theorem entriesIn (h : Stores cwd p t m) : Settings.entriesIn p m = .ok t m := by
  rcases h.text with ⟨hnil, r, hstat, hr⟩ | hholds
  · have hempty : t = Table.empty := Table.toList_inj.1 hnil
    rw [hempty, entriesIn_of_error hstat hr]
  · have hsame : Table.ofList t.toList = t :=
      Table.toList_inj.1 ((Table.toList_ofList_eq_iff _).2 t.nodup)
    rw [entriesIn_of_holdsBytes hholds (EnvFile.return_not_mem_render h.settings),
      EnvFile.parse_render h.settings, hsame]

end Stores

/-- A setting that is to be saved, with the file for it if it is not the usual one. -/
structure Assignment where
  key : String
  value : String
  given : Option Path

/-- Settings are saved one after the other. -/
def saveAll : List Assignment → Act Unit
  | [] => return ()
  | a :: rest => do
    let _ ← save a.key a.value a.given
    saveAll rest

/-- Settings that are saved one after the other in one file. -/
def SavesIn (cwd : Place) (p : Path) (assignments : List Assignment) : Prop :=
  ∀ a ∈ assignments, IsKey a.key ∧ IsValue a.value ∧ target cwd a.given = p

theorem Stores.saveAll {assignments : List Assignment} (h : Stores cwd p t m)
    (hall : SavesIn cwd p assignments) (hrun : saveAll assignments m = .ok () m') :
    Stores cwd p (assignments.foldl (fun t a => t.insert a.key a.value) t) m' := by
  induction assignments generalizing t m with
  | nil =>
    cases hrun
    exact h
  | cons a rest ih =>
    obtain ⟨p', m₁, hsave, hrest⟩ := exists_of_bind_ok hrun
    obtain ⟨hkey, hvalue, hgiven⟩ := hall a (List.mem_cons_self ..)
    exact ih (h.save hkey hvalue hgiven hsave)
      (fun a' ha' => hall a' (List.mem_cons_of_mem _ ha')) hrest

/-- **Settings that are saved are read.** On a sound machine, where settings with keys and values that
stand for themselves are saved one after the other in a file that was not there, the settings in that
file are then those of all keys, in the order in which they were first saved, each with the value that
was saved last. -/
theorem entriesIn_saveAll {assignments : List Assignment} {r : Refusal} (hsound : Sound m.cwd m)
    (habsent : m.disk.stat m.cwd p = .error r) (hr : r ≠ .nullByte)
    (hall : SavesIn m.cwd p assignments) (hrun : saveAll assignments m = .ok () m') :
    ∃ t, entriesIn p m' = .ok t m' ∧ t.keys = (assignments.map Assignment.key).eraseDups ∧
      ∀ key, t.get? key =
        (assignments.reverse.find? fun a => a.key == key).map Assignment.value := by
  have hstart : Stores m.cwd p Table.empty m :=
    ⟨hsound, List.forall_mem_nil _, .inl ⟨rfl, r, habsent, hr⟩⟩
  refine ⟨_, (hstart.saveAll hall hrun).entriesIn, ?_, fun key => ?_⟩
  · rw [Table.keys_foldl_insert, Table.keys_empty]
    simp
  · rw [Table.get?_foldl_insert, Table.get?_empty, Option.or_none]

/-- A key that another key starts with, a value with an equals sign, a comment sign and a quote, and a
key that is saved again. -/
def sampleAssignments : List Assignment :=
  [⟨"KEY", "one", none⟩, ⟨"KEY_2", "a=b # 'c'", some ⟨.root, [".env"]⟩⟩, ⟨"KEY", "", none⟩]

theorem sampleAssignments_read : ∃ m' t,
    saveAll sampleAssignments (.ofDisk .empty) = .ok () m' ∧
    entriesIn ⟨.root, [".env"]⟩ m' = .ok t m' ∧ t.keys = ["KEY", "KEY_2"] ∧
    t.get? "KEY" = some "" ∧ t.get? "KEY_2" = some "a=b # 'c'" := by
  have hsound : Sound [] (.ofDisk .empty) :=
    ⟨rfl, by decide +kernel, Disk.stands_nil _, .inr (by simp)⟩
  have hall : SavesIn [] ⟨.root, [".env"]⟩ sampleAssignments := by
    unfold SavesIn
    decide +kernel
  have hyields : (saveAll sampleAssignments).yields (.ofDisk .empty) (fun _ => true) = true := by
    decide +kernel
  obtain ⟨_, m', hrun, -⟩ := exists_of_yields hyields
  obtain ⟨t, hentries, hkeys, hget⟩ := entriesIn_saveAll (r := .missing) hsound
    (by decide +kernel) (by decide) hall hrun
  refine ⟨m', t, hrun, hentries, hkeys.trans (by decide +kernel), (hget _).trans (by decide +kernel),
    (hget _).trans (by decide +kernel)⟩

end Decompilation.Settings
