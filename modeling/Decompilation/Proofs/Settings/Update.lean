import Decompilation.Proofs.Disk.Overwrite
import Decompilation.Proofs.Settings.Assign
import Decompilation.Proofs.Settings.Reread

/-!
# Saving in a file that is there

A setting that is saved in a file of settings that somebody has written is read from it unless a line
overrules it (`entriesIn_save_iff`). All other settings stay in the file, in their order, and to save the
setting once more changes nothing in it (`save_keeps_others`).
-/

namespace Decompilation.Settings

open Act
open EnvFile (IsKey IsValue Overruled)
open Files (HoldsBytes)
open Text (isBreak unifyBreaks)

variable {m m' : Machine} {p : Path} {key value : String} {given : Option Path} {text : List Char}

/-! ## What saving leaves -/

/-- A file had a text and got another one, and it can be written again. -/
structure Edited (m m' : Machine) (p : Path) (text edited : List Char) : Prop where
  read : currentText p m = .ok text m
  cwd_eq : m'.cwd = m.cwd
  sound : Sound m.cwd m'
  holds : HoldsBytes m' p (Text.Utf8.encode edited)
  writes : ∀ s : Machine, s.disk = m'.disk → s.cwd = m'.cwd →
    ∀ again, ∃ d, Files.writeText p again s = .ok () { s with disk := d }

/-- A setting that is saved is assigned in the text of the file. -/
theorem exists_edited (hm : Sound m.cwd m) (hrun : save key value given m = .ok p m') :
    ∃ text, Edited m m' p text (EnvFile.assign key value text) := by
  obtain ⟨-, m₁, m₂, text, rfl, htext, hwrite, rfl⟩ := save_cases hrun
  have hm₁ : Sound m.cwd { m with environment := m.environment.insert key value } :=
    hm.of_eq rfl rfl
  obtain ⟨q, f, hwrote⟩ := Files.exists_of_writeText hm₁ hwrite
  have hm₂ := (Files.keeps_writeText (fun _ => Sound.takes _ _) _).ok hm₁ hwrite
  have hread : Agrees (currentText p)
      { m with environment := m.environment.insert key value } m := agrees_currentText rfl
  refine ⟨text, (hread.ok htext).2, hm₂.cwd_eq, hm₂.of_eq rfl rfl, ⟨f, hwrote.stat, hwrote.content⟩,
    fun s hdisk hcwd => hwrote.exists_writeText hdisk hcwd⟩

theorem currentText_of_encode (h : HoldsBytes m p (Text.Utf8.encode text)) :
    currentText p m = .ok (unifyBreaks text) m := by
  have hread := readText_of_encode h
  obtain ⟨f, hstat, -⟩ := h
  exact (bind_ok (Files.isThere_of_stat hstat) _).trans hread

/-- A setting that is saved is assigned in the text that the file holds. -/
theorem edited_of_encode (hm : Sound m.cwd m)
    (hfile : HoldsBytes m (target m.cwd given) (Text.Utf8.encode text))
    (hrun : save key value given m = .ok p m') :
    Edited m m' p (unifyBreaks text) (EnvFile.assign key value (unifyBreaks text)) := by
  obtain ⟨old, hedited⟩ := exists_edited hm hrun
  obtain ⟨rfl, -⟩ := save_cases hrun
  have hread := hedited.read
  rw [currentText_of_encode hfile] at hread
  obtain rfl : unifyBreaks text = old := by injection hread
  exact hedited

/-- The settings in a file in which a key was assigned. -/
theorem Edited.entriesIn {old : List Char} (h : Edited m m' p old (EnvFile.assign key value old))
    (hkey : IsKey key) (hvalue : ∀ c ∈ value.toList, isBreak c = false) :
    entriesIn p m' = .ok (EnvFile.parse (EnvFile.assign key value old)) m' :=
  entriesIn_of_holdsBytes h.holds (EnvFile.return_not_mem_assign hkey hvalue old)

/-! ## The setting -/

/-- **A setting that is saved is read, unless a line overrules it.** On a sound machine, where a setting
with a key and a value that stand for themselves is saved in a file that holds a text, the key has that
value in the file afterwards exactly if the last line of the text that sets the key is replaced or sets
it to the value, or if no line is replaced at all. -/
theorem entriesIn_save_iff (hm : Sound m.cwd m) (hkey : IsKey key) (hvalue : IsValue value)
    (hfile : HoldsBytes m (target m.cwd given) (Text.Utf8.encode text))
    (hrun : save key value given m = .ok p m') :
    ∃ t, entriesIn p m' = .ok t m' ∧
      (t.get? key = some value ↔ ¬ Overruled key value (Text.lines (unifyBreaks text))) := by
  have hedited := edited_of_encode hm hfile hrun
  exact ⟨_, hedited.entriesIn hkey hvalue.unbroken, EnvFile.get?_parse_assign_iff hkey hvalue _⟩

/-- A machine on which the usual file of settings has a text. -/
def machineWith (text : String) : Machine :=
  .ofDisk (Disk.empty.put [".env"] (.file (File.ofBytes (Text.Utf8.encode text.toList))))

theorem holdsBytes_of_check (text : String) {p : Path}
    (h : ((m.disk.stat m.cwd p).toOption ==
      some (Node.file (File.ofBytes (Text.Utf8.encode text.toList)))) = true) :
    HoldsBytes m p (Text.Utf8.encode text.toList) := by
  cases hstat : m.disk.stat m.cwd p with
  | error r =>
    rw [hstat] at h
    cases h
  | ok n =>
    rw [hstat] at h
    exact ⟨_, hstat.trans (congrArg Except.ok (Option.some.inj (eq_of_beq h))), rfl⟩

/-- Lines that set the key with and without blanks, one of them twice, and a comment. -/
def mixedText : String := "K = a\n  K=b\n# K=c\nK=\"d\"\nKEY=e\n"

theorem saved_setting_read : ∃ m' t, save "K" "v = 'w'" none (machineWith mixedText) =
      .ok ⟨.root, [".env"]⟩ m' ∧
    entriesIn ⟨.root, [".env"]⟩ m' = .ok t m' ∧ t.get? "K" = some "v = 'w'" := by
  have hsound : Sound [] (machineWith mixedText) :=
    ⟨rfl, by decide +kernel, Disk.stands_nil _, .inr (by simp)⟩
  have hkey : IsKey "K" := by decide +kernel
  have hvalue : IsValue "v = 'w'" := by decide +kernel
  have hyields : (save "K" "v = 'w'" none).yields (machineWith mixedText)
      (· == ⟨.root, [".env"]⟩) = true := by
    decide +kernel
  obtain ⟨p, m', hrun, hp⟩ := exists_of_yields hyields
  obtain rfl := eq_of_beq hp
  obtain ⟨t, hentries, hget⟩ := entriesIn_save_iff hsound hkey hvalue
    (holdsBytes_of_check mixedText (by decide +kernel)) hrun
  refine ⟨m', t, hrun, hentries, hget.2 ?_⟩
  exact (EnvFile.get?_parse_assign_iff hkey hvalue _).1 (by decide +kernel)

/-- A line with a blank in front of its equals sign overrules the line in front of it that is
replaced. -/
theorem saved_setting_overruled : ¬ ∀ (m m' : Machine) (p : Path) (key value : String)
    (given : Option Path) (text : List Char), Sound m.cwd m → IsKey key → IsValue value →
    HoldsBytes m (target m.cwd given) (Text.Utf8.encode text) → save key value given m = .ok p m' →
    ∃ t, entriesIn p m' = .ok t m' ∧ t.get? key = some value := by
  intro hclaim
  have hsound : Sound [] (machineWith "K=a\nK = b\n") :=
    ⟨rfl, by decide +kernel, Disk.stands_nil _, .inr (by simp)⟩
  have hends : (save "K" "v" none).endsWith (machineWith "K=a\nK = b\n") (fun p m' =>
      (entriesIn p).yields m' fun t => t.get? "K" == some "b") = true := by
    decide +kernel
  obtain ⟨p, m', hrun, hread⟩ := exists_of_endsWith hends
  obtain ⟨t, hentries, hget⟩ := hclaim _ _ _ "K" "v" none "K=a\nK = b\n".toList hsound
    (by decide +kernel) (by decide +kernel)
    (holdsBytes_of_check "K=a\nK = b\n" (by decide +kernel)) hrun
  have hother := check_of_yields (fun t : Table String String => t.get? "K" == some "b") hread hentries
  rw [hget] at hother
  cases hother

/-! ## The others -/

/-- A setting that was saved is saved again. -/
theorem exists_save_again {old : List Char} (hrun : save key value given m = .ok p m')
    (hedited : Edited m m' p old (EnvFile.assign key value old)) :
    ∃ m'', save key value given m' = .ok p m'' := by
  obtain ⟨_, m₁, hvariable, hrest⟩ := exists_of_bind_ok hrun
  have hagain := setVariable_of_ok hvariable m'
  have hgone : given = none → m'.cwd.isGone = false := by
    rintro rfl
    obtain ⟨q, m₂, hplace, -⟩ := exists_of_bind_ok hrest
    have hcwd : m₁.cwd = m.cwd := by rw [setVariable_cases hvariable]
    rw [hedited.cwd_eq, ← hcwd]
    exact (of_file hplace).1
  set s : Machine := { m' with environment := m'.environment.insert key value }
  have htarget : target s.cwd given = p := by rw [hedited.cwd_eq, (save_cases hrun).1]
  have hholds : HoldsBytes s p (Text.Utf8.encode (EnvFile.assign key value old)) := hedited.holds
  have htext := currentText_of_encode hholds
  obtain ⟨d, hwrite⟩ := hedited.writes s rfl rfl
    (EnvFile.assign key value (unifyBreaks (EnvFile.assign key value old)))
  rw [← htarget] at htext hwrite
  have hsave := save_of_writeText hagain hgone htext hwrite
  rw [htarget] at hsave
  exact ⟨_, hsave⟩

/-- **Saving a setting keeps all others.** On a sound machine, where a setting is saved in a file that
holds a text whose lines end with newlines or carriage returns, every other key is set in the file to
what it was set to before, if to anything, and the other keys are in the same order. The value need not
stand for itself. To save the setting once more leaves the same bytes. -/
theorem save_keeps_others (hm : Sound m.cwd m) (hkey : IsKey key)
    (hvalue : ∀ c ∈ value.toList, isBreak c = false)
    (hfile : HoldsBytes m (target m.cwd given) (Text.Utf8.encode text))
    (hlines : ∀ c ∈ text, isBreak c = true → c = '\n' ∨ c = '\r')
    (hrun : save key value given m = .ok p m') :
    (∃ t t', entriesIn p m = .ok t m ∧ entriesIn p m' = .ok t' m' ∧
      (∀ key', key' ≠ key → t'.get? key' = t.get? key') ∧
      t'.keys.filter (· ≠ key) = t.keys.filter (· ≠ key)) ∧
    ∃ m'' bytes, save key value given m' = .ok p m'' ∧ HoldsBytes m' p bytes ∧
      HoldsBytes m'' p bytes := by
  have hedited := edited_of_encode hm hfile hrun
  obtain ⟨m'', hagain⟩ := exists_save_again hrun hedited
  have herase := EnvFile.erase_parse_assign hkey hvalue (Text.isBreak_unifyBreaks hlines)
  constructor
  · refine ⟨_, _, ?_, hedited.entriesIn hkey hvalue, fun key' hother =>
      Table.get?_of_erase_eq herase hother, ?_⟩
    · obtain ⟨rfl, -⟩ := save_cases hrun
      exact entriesIn_of_readText (readText_of_encode hfile)
    · rw [← Table.keys_erase, ← Table.keys_erase, herase]
  · have htarget : target m'.cwd given = p := by rw [hedited.cwd_eq, (save_cases hrun).1]
    have hedited' := edited_of_encode (hedited.cwd_eq ▸ hedited.sound) (htarget ▸ hedited.holds) hagain
    have hreturn := EnvFile.return_not_mem_assign hkey hvalue (unifyBreaks text)
    refine ⟨m'', _, hagain, hedited.holds, ?_⟩
    have hholds := hedited'.holds
    rwa [Text.unifyBreaks_of_not_mem hreturn, EnvFile.assign_assign hkey hvalue] at hholds

/-- Carriage returns, a key that the key starts, a line without a key, a key that comes twice, one with a
blank, and no newline at the end. -/
def crowdedText : String := "KEY=1\r\nK=\"a\"\r=x\nL=2\n\n#K=c\nK = b\nL = '3'\r\nK=d"

theorem crowdedText_kept : ∃ m' t', save "K" " 'v " none (machineWith crowdedText) =
      .ok ⟨.root, [".env"]⟩ m' ∧
    entriesIn ⟨.root, [".env"]⟩ m' = .ok t' m' ∧ t'.get? "KEY" = some "1" ∧ t'.get? "L" = some "3" ∧
    t'.get? "#K" = none ∧ t'.keys.filter (· ≠ "K") = ["KEY", "L"] ∧
    ∃ m'' bytes, save "K" " 'v " none m' = .ok ⟨.root, [".env"]⟩ m'' ∧
      HoldsBytes m' ⟨.root, [".env"]⟩ bytes ∧ HoldsBytes m'' ⟨.root, [".env"]⟩ bytes := by
  have hsound : Sound [] (machineWith crowdedText) :=
    ⟨rfl, by decide +kernel, Disk.stands_nil _, .inr (by simp)⟩
  have hlines : ∀ c ∈ crowdedText.toList, isBreak c = true → c = '\n' ∨ c = '\r' := by
    have hall : crowdedText.toList.all (fun c => !isBreak c || c == '\n' || c == '\r') = true := by
      decide +kernel
    intro c hc hbreak
    simpa [hbreak] using List.all_eq_true.1 hall c hc
  have hyields : (save "K" " 'v " none).yields (machineWith crowdedText)
      (· == ⟨.root, [".env"]⟩) = true := by
    decide +kernel
  obtain ⟨p, m', hrun, hp⟩ := exists_of_yields hyields
  obtain rfl := eq_of_beq hp
  obtain ⟨⟨t, t', hbefore, hafter, hget, hkeys⟩, hagain⟩ := save_keeps_others hsound
    (by decide +kernel) (by decide +kernel) (holdsBytes_of_check crowdedText (by decide +kernel))
    hlines hrun
  have hentries := check_of_yields (fun t : Table String String => t.get? "KEY" == some "1" &&
    t.get? "L" == some "3" && t.get? "#K" == none && t.keys.filter (· ≠ "K") == ["KEY", "L"])
    (by decide +kernel) hbefore
  simp only [Bool.and_eq_true, beq_iff_eq] at hentries
  obtain ⟨⟨⟨hshort, hlast⟩, hcomment⟩, hothers⟩ := hentries
  exact ⟨m', t', hrun, hafter, (hget _ (by decide)).trans hshort, (hget _ (by decide)).trans hlast,
    (hget _ (by decide)).trans hcomment, hkeys.trans hothers, hagain⟩

end Decompilation.Settings
