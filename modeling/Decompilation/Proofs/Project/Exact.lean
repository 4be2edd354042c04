import Decompilation.Proofs.Disk.Written
import Decompilation.Proofs.Project.Rewrite

/-!
# Files that hold a text

A file is compared with a text by what it reads as, and what is written is bytes. The two agree
(`Exact`) except where the file is compared by bytes that are not those of a text without carriage returns
(`writeIfChanged_exact_iff`).
-/

namespace Decompilation.Project

open Act
open Files (HoldsBytes)

variable {cwd : Place} {m m' : Machine} {p : Path} {text : List Char} {changed : Bool}

/-- A file got a text byte by byte, and it counts as changed unless it had these bytes before. -/
structure Exact (m m' : Machine) (p : Path) (text : List Char) (changed : Bool) : Prop where
  holds : HoldsBytes m' p (Text.Utf8.encode text)
  changed_iff : changed = true ↔ ¬ HoldsBytes m p (Text.Utf8.encode text)

/-- Bytes are those of a text without carriage returns. -/
def IsPlain (bytes : List UInt8) : Prop := ∃ s, '\r' ∉ s ∧ bytes = Text.Utf8.encode s

/-- The text by which a path is listed: from a root if there is one, below which it must lie. -/
def listedAs? (p : Path) : Option Path → Option String
  | none => some p.toString
  | some root => (p.below? root).map Path.toString

theorem readAs_of_plain {f : File} {s : List Char} (hs : '\r' ∉ s)
    (hcontent : f.content = Text.Utf8.encode s) : readAs f = s := by
  rw [readAs, hcontent, Text.unifyBreaks_decodeLenient hs]

/-- What a file reads as has no carriage returns. -/
theorem return_not_mem_readAs (f : File) : '\r' ∉ readAs f := Text.return_not_mem_unifyBreaks _

theorem stat_unique {f f' : File} (h : m.disk.stat m.cwd p = .ok (.file f))
    (h' : m.disk.stat m.cwd p = .ok (.file f')) : f = f' :=
  Node.file.inj (Except.ok.inj (h.symm.trans h'))

/-- A file is left alone because it reads as the text, or it was looked for and the text written. -/
theorem writeIfChanged_cases (h : writeIfChanged p text m = .ok changed m') :
    (∃ f, m.disk.stat m.cwd p = .ok (.file f) ∧ readAs f = text ∧ changed = false ∧ m' = m) ∨
    ((∀ f, m.disk.stat m.cwd p = .ok (.file f) → readAs f ≠ text) ∧ changed = true ∧
      ∃ m₁, Files.makeFolders p.parent m = .ok () m₁ ∧ Files.writeText p text m₁ = .ok () m') := by
  obtain ⟨same, m₁, hholds, hlast⟩ := exists_of_bind_ok h
  obtain rfl : m₁ = m := (keeps_holdsText p text (P := (· = m))).ok rfl hholds
  cases same with
  | true =>
    cases hlast
    obtain ⟨answer, m₂, hfile, -⟩ := exists_of_bind_ok hholds
    cases answer with
    | false =>
      rw [holdsText, bind_ok hfile] at hholds
      cases hholds
    | true =>
      obtain ⟨-, f, hstat⟩ := Files.stat_of_isFile hfile
      rw [holdsText_of_stat hstat] at hholds
      simp only [EStateM.Result.ok.injEq, beq_iff_eq, and_true] at hholds
      exact .inl ⟨f, hstat, hholds, rfl, rfl⟩
  | false =>
    obtain ⟨_, m₂, hfolders, htexts⟩ := exists_of_bind_ok hlast
    obtain ⟨_, m₃, hput, hdone⟩ := exists_of_bind_ok htexts
    cases hdone
    refine .inr ⟨fun f hstat hread => ?_, rfl, m₂, hfolders, hput⟩
    rw [holdsText_of_stat hstat, hread, beq_self_eq_true] at hholds
    cases hholds

/-- A file that is there gets a text exactly if, wherever it reads as the text or holds it, its bytes
are those of a text without carriage returns. -/
theorem exact_iff (hm : Sound cwd m) (hrun : writeIfChanged p text m = .ok changed m') :
    Exact m m' p text changed ↔ ∀ f, m.disk.stat m.cwd p = .ok (.file f) →
      readAs f = text ∨ f.content = Text.Utf8.encode text → IsPlain f.content := by
  rcases writeIfChanged_cases hrun with ⟨f, hstat, hread, rfl, rfl⟩ | ⟨hother, rfl, m₁, hfolders, hput⟩
  · constructor
    · rintro ⟨⟨f', hstat', hbytes⟩, -⟩ f'' hstat'' -
      obtain rfl := stat_unique hstat' hstat
      obtain rfl := stat_unique hstat'' hstat
      exact ⟨text, hread ▸ return_not_mem_readAs f'', hbytes⟩
    · intro hplain
      obtain ⟨s, hs, hcontent⟩ := hplain f hstat (.inl hread)
      have htext : s = text := (readAs_of_plain hs hcontent).symm.trans hread
      have hholds : HoldsBytes m' p (Text.Utf8.encode text) := ⟨f, hstat, htext ▸ hcontent⟩
      exact ⟨hholds, by simp [hholds]⟩
  · have hm₁ := (Files.keeps_makeFolders fun _ _ => Sound.takes _ _).ok hm hfolders
    obtain ⟨q, f', hwrote⟩ := Files.exists_of_writeText hm₁ hput
    constructor
    · rintro ⟨-, hchanged⟩ f hstat (hread | hbytes)
      · exact absurd hread (hother f hstat)
      · exact absurd ⟨f, hstat, hbytes⟩ (hchanged.1 rfl)
    · refine fun hplain => ⟨⟨f', hwrote.stat, hwrote.content⟩, fun _ => ?_, fun _ => rfl⟩
      rintro ⟨f, hstat, hbytes⟩
      obtain ⟨s, hs, hcontent⟩ := hplain f hstat (.inr hbytes)
      have htext : s = text := by
        rw [← Text.Utf8.decodeLenient_encode s, ← hcontent, hbytes, Text.Utf8.decodeLenient_encode]
      exact hother f hstat ((readAs_of_plain hs hcontent).trans htext)

/-- Nothing that stood on the disk is different, but for the file that the path leads to. -/
theorem stands_of_writeIfChanged (hm : Sound cwd m)
    (hrun : writeIfChanged p text m = .ok changed m') {q : Place} {n : Node}
    (hn : m.disk.node? q = some n) :
    m'.disk.node? q = some n ∨ m'.disk.place m'.cwd .find p = .ok q := by
  rcases writeIfChanged_cases hrun with ⟨f, -, -, -, rfl⟩ | ⟨-, -, m₁, hfolders, hput⟩
  · exact .inl hn
  · have hm₁ := (Files.keeps_makeFolders fun _ _ => Sound.takes _ _).ok hm hfolders
    obtain ⟨q', f', hwrote⟩ := Files.exists_of_writeText hm₁ hput
    by_cases hq : q = q'
    · exact .inr (hq ▸ hwrote.place)
    · rw [hwrote.only_disk]
      exact .inl ((Disk.node?_put_of_ne hq).trans (Files.extends_of_makeFolders hfolders q n hn))

/-- A path is listed if its file was changed. -/
theorem writeAndList_eq (hrun : writeIfChanged p text m = .ok changed m') {root : Option Path}
    {name : String} (hname : changed = true → listedAs? p root = some name) (written : List String) :
    writeAndList p text written root m =
      .ok (if changed then written ++ [name] else written) m' := by
  unfold writeAndList
  rw [bind_ok hrun]
  cases changed with
  | false => rfl
  | true =>
    cases root with
    | none =>
      cases hname rfl
      rfl
    | some root =>
      obtain ⟨q, hbelow, rfl⟩ := Option.map_eq_some_iff.1 (hname rfl)
      have hrelative : relative root p m' = .ok q.toString m' := by
        rw [relative, hbelow]
        rfl
      exact bind_ok hrelative _

/-- **Writing a file where it changes.** On a sound machine, where a text is written unless the file has
it already, the file holds the text byte by byte afterwards and counts as changed unless it did before,
exactly if the file that was there is one whose bytes decide this: wherever it reads as the text or
holds it, its bytes are those of a text without carriage returns. Nothing else that stood on the disk is
different, and the path is listed if the file was changed. -/
theorem writeIfChanged_exact_iff (hm : Sound m.cwd m)
    (hrun : writeIfChanged p text m = .ok changed m') :
    (Exact m m' p text changed ↔ ∀ f, m.disk.stat m.cwd p = .ok (.file f) →
      readAs f = text ∨ f.content = Text.Utf8.encode text → IsPlain f.content) ∧
    (∀ q n, m.disk.node? q = some n →
      m'.disk.node? q = some n ∨ m'.disk.place m'.cwd .find p = .ok q) ∧
    ∀ root name written, (changed = true → listedAs? p root = some name) →
      writeAndList p text written root m =
        .ok (if changed then written ++ [name] else written) m' :=
  ⟨exact_iff hm hrun, fun _ _ => stands_of_writeIfChanged hm hrun,
    fun _ _ written hname => writeAndList_eq hrun hname written⟩

/-- A machine with a file that ends with a carriage return and a newline. -/
def dosMachine : Machine :=
  .ofDisk (Disk.empty.put ["f"] (.file (File.ofBytes [0x61, 0x0D, 0x0A])))

theorem sound_dosMachine : Sound [] dosMachine :=
  ⟨rfl, by decide +kernel, Disk.stands_nil _, .inr (by simp)⟩

theorem stat_dosMachine : dosMachine.disk.stat dosMachine.cwd ⟨.root, ["f"]⟩ =
    .ok (.file (File.ofBytes [0x61, 0x0D, 0x0A])) := by
  decide +kernel

/-- Another text is written over a file with a carriage return. -/
theorem dos_file_written_over :
    Sound [] dosMachine ∧
    ∃ m', writeIfChanged ⟨.root, ["f"]⟩ ['b', '\n'] dosMachine = .ok true m' ∧
      Exact dosMachine m' ⟨.root, ["f"]⟩ ['b', '\n'] true ∧
      writeAndList ⟨.root, ["f"]⟩ ['b', '\n'] [] (some ⟨.root, []⟩) dosMachine = .ok ["f"] m' := by
  have hyields : (writeIfChanged ⟨.root, ["f"]⟩ ['b', '\n']).yields dosMachine (· == true) = true := by
    decide +kernel
  obtain ⟨changed, m', hrun, hchanged⟩ := exists_of_yields hyields
  obtain rfl : changed = true := by simpa using hchanged
  obtain ⟨hexact, -, hlist⟩ := writeIfChanged_exact_iff sound_dosMachine hrun
  refine ⟨sound_dosMachine, m', hrun, hexact.2 fun f hf hsame => ?_,
    hlist _ _ _ fun _ => by decide +kernel⟩
  obtain rfl := stat_unique hf stat_dosMachine
  exact absurd hsame (by decide +kernel)

/-- A file that ends with a carriage return and a newline is left as it is where a text is written that
ends with a newline. -/
theorem dos_file_taken_for_text :
    Sound [] dosMachine ∧
    ∃ m', writeIfChanged ⟨.root, ["f"]⟩ ['a', '\n'] dosMachine = .ok false m' ∧
      ¬ Exact dosMachine m' ⟨.root, ["f"]⟩ ['a', '\n'] false := by
  have hyields : (writeIfChanged ⟨.root, ["f"]⟩ ['a', '\n']).yields dosMachine (· == false) = true := by
    decide +kernel
  obtain ⟨changed, m', hrun, hchanged⟩ := exists_of_yields hyields
  obtain rfl : changed = false := by simpa using hchanged
  refine ⟨sound_dosMachine, m', hrun, fun hexact => ?_⟩
  have hheld : HoldsBytes dosMachine ⟨.root, ["f"]⟩ (Text.Utf8.encode ['a', '\n']) := by
    by_contra hnot
    cases hexact.changed_iff.2 hnot
  obtain ⟨f, hf, hbytes⟩ := hheld
  obtain rfl := stat_unique hf stat_dosMachine
  exact absurd hbytes (by decide +kernel)

end Decompilation.Project
