import Decompilation.Json.Printer
import Decompilation.Proofs.Text.Lines

/-!
# The lines of printed values

A printed value is made of rows (`rows_printAt`): none of its lines is empty or starts with a backtick,
and all that stands in them is printable ASCII. What a string holds makes no difference, for its line
breaks are escaped and the line that it stands on starts with blanks, a bracket or its quote.
-/

namespace Decompilation.Json

open Decimal (Scaled NumberStyle Binary64 positional scientific writeDecimal)
open Text (splitOn isBreak)

variable {l s t : List Char} {c : Char}

/-- The printable characters of ASCII. -/
def isGlyph (c : Char) : Bool := ' ' ≤ c && c ≤ '~'

theorem isGlyph_iff : isGlyph c = true ↔ 32 ≤ c.toNat ∧ c.toNat ≤ 126 := by
  simp only [isGlyph, Bool.and_eq_true, decide_eq_true_eq, Char.le_def, UInt32.le_iff_toNat_le,
    Char.toNat_val]
  rfl

theorem isBreak_of_isGlyph (h : isGlyph c = true) : isBreak c = false := by
  rw [isGlyph_iff] at h
  rw [Bool.eq_false_iff]
  simp only [isBreak, Ne, Bool.or_eq_true, Bool.and_eq_true, decide_eq_true_eq, beq_iff_eq]
  omega

theorem eq_newline_of_glyphs (hl : ∀ c ∈ l, isGlyph c = true) :
    ∀ c ∈ l, isBreak c = true → c = '\n' := fun c hc hbreak => by
  cases (isBreak_of_isGlyph (hl c hc)).symm.trans hbreak

/-! ## Rows -/

/-- A line that is not empty, starts with no backtick and is printable ASCII. -/
structure Row (l : List Char) : Prop where
  ne_nil : l ≠ []
  head : l.head? ≠ some '\x60'
  glyph : ∀ c ∈ l, isGlyph c = true

/-- Rows with newlines between them. -/
inductive Rows : List Char → Prop
  | last {l : List Char} (h : Row l) : Rows l
  | next {l s : List Char} (h : Row l) (hs : Rows s) : Rows (l ++ '\n' :: s)

namespace Row

theorem cons (hc : isGlyph c = true) (hne : c ≠ '\x60') (hl : ∀ d ∈ l, isGlyph d = true) :
    Row (c :: l) :=
  ⟨by simp, by simpa using hne, List.forall_mem_cons.2 ⟨hc, hl⟩⟩

/-- A row that is written out. -/
theorem of_check (h : (isGlyph c && c != '\x60' && l.all isGlyph) = true) : Row (c :: l) := by
  simp only [Bool.and_eq_true, bne_iff_ne, List.all_eq_true] at h
  exact .cons h.1.1 h.1.2 h.2

theorem append (hl : Row l) (ht : ∀ c ∈ t, isGlyph c = true) : Row (l ++ t) := by
  obtain ⟨c, r, rfl⟩ := List.exists_cons_of_ne_nil hl.ne_nil
  exact ⟨by simp, hl.head, List.forall_mem_append.2 ⟨hl.glyph, ht⟩⟩

theorem newline_not_mem (hl : Row l) : '\n' ∉ l := fun hmem => by
  cases (isBreak_of_isGlyph (hl.glyph _ hmem)).symm.trans rfl

end Row

namespace Rows

theorem append (hs : Rows s) (ht : ∀ c ∈ t, isGlyph c = true) : Rows (s ++ t) := by
  induction hs with
  | last hl => exact .last (hl.append ht)
  | next hl _ ih =>
    rw [List.append_assoc, List.cons_append]
    exact .next hl ih

theorem behind (hl : Row l) (hs : Rows s) : Rows (l ++ s) := by
  cases hs with
  | last hs => exact .last (hl.append hs.glyph)
  | next hs hrest =>
    rw [← List.append_assoc]
    exact .next (hl.append hs.glyph) hrest

theorem newline (hs : Rows s) (ht : Rows t) : Rows (s ++ '\n' :: t) := by
  induction hs with
  | last hl => exact .next hl ht
  | next hl _ ih =>
    rw [List.append_assoc, List.cons_append]
    exact .next hl ih

/-- Blanks in front of a row are a part of it. -/
theorem indented (n : Nat) (hs : Rows s) : Rows (List.replicate n ' ' ++ s) := by
  cases n with
  | zero => exact hs
  | succ n =>
    refine behind (.cons rfl (by decide) fun c hc => ?_) hs
    rw [(List.mem_replicate.1 hc).2]
    rfl

theorem newlineAt (indent level : Nat) (hs : Rows s) (ht : Rows t) :
    Rows (s ++ (Json.newline indent level ++ t)) :=
  hs.newline (ht.indented _)

theorem of_mem_splitOn (hs : Rows s) : ∀ l ∈ splitOn '\n' s, Row l := by
  induction hs with
  | last hl =>
    rw [Text.splitOn_of_not_mem hl.newline_not_mem]
    exact List.forall_mem_singleton.2 hl
  | next hl _ ih =>
    rw [Text.splitOn_append_cons hl.newline_not_mem]
    exact List.forall_mem_cons.2 ⟨hl, ih⟩

/-- Newlines are the only line separators in rows. -/
theorem eq_newline_of_isBreak (hs : Rows s) : ∀ c ∈ s, isBreak c = true → c = '\n' := by
  induction hs with
  | last hl => exact eq_newline_of_glyphs hl.glyph
  | next hl _ ih =>
    exact List.forall_mem_append.2
      ⟨eq_newline_of_glyphs hl.glyph, List.forall_mem_cons.2 ⟨fun _ => rfl, ih⟩⟩

end Rows

/-! ## Numbers -/

/-- The characters that finite numbers are written with. -/
def isNumeral (c : Char) : Bool := c.isDigit || c == '.' || c == 'e' || c == '+' || c == '-'

theorem isGlyph_of_isNumeral (h : isNumeral c = true) : isGlyph c = true ∧ c ≠ '\x60' := by
  simp only [isNumeral, Bool.or_eq_true, beq_iff_eq] at h
  rcases h with (((hdigit | rfl) | rfl) | rfl) | rfl
  · have hrange : 48 ≤ c.toNat ∧ c.toNat ≤ 57 := Char.isDigit_iff_toNat.1 hdigit
    refine ⟨isGlyph_iff.2 (by omega), ?_⟩
    rintro rfl
    cases hdigit
  all_goals exact ⟨rfl, by decide⟩

theorem row_of_numerals (hne : l ≠ []) (hl : ∀ c ∈ l, isNumeral c = true) : Row l := by
  obtain ⟨c, l, rfl⟩ := List.exists_cons_of_ne_nil hne
  obtain ⟨hglyph, htick⟩ := isGlyph_of_isNumeral (hl c (List.mem_cons_self ..))
  exact .cons hglyph htick fun d hd => (isGlyph_of_isNumeral (hl d (List.mem_cons_of_mem _ hd))).1

theorem isNumeral_toDigits (n : Nat) : ∀ c ∈ Nat.toDigits 10 n, isNumeral c = true := by
  intro c hc
  have hdigit := Nat.isDigit_of_mem_toDigits (by decide) (by decide) hc
  simp [isNumeral, hdigit]

theorem isNumeral_replicate (n : Nat) : ∀ c ∈ List.replicate n '0', isNumeral c = true := by
  intro c hc
  rw [(List.mem_replicate.1 hc).2]
  rfl

theorem row_int (n : Int) : Row (toString n).toList := by
  rw [Int.toString_eq_repr, Int.repr_eq_if]
  split
  · rw [Nat.toList_repr]
    exact row_of_numerals Nat.toDigits_ne_nil (isNumeral_toDigits _)
  · rw [String.toList_append, Nat.toList_repr]
    exact row_of_numerals (by simp) (List.forall_mem_cons.2 ⟨rfl, isNumeral_toDigits _⟩)

variable {ds : List Char} {point : Int}

theorem row_positional (hds : ∀ c ∈ ds, isNumeral c = true) : Row (positional ds point) := by
  unfold positional
  dsimp only
  split
  · refine row_of_numerals (by simp) ?_
    simp only [List.cons_append, List.forall_mem_cons, List.forall_mem_append]
    exact ⟨rfl, rfl, isNumeral_replicate _, hds⟩
  · split
    · refine row_of_numerals (by simp) ?_
      simp only [List.forall_mem_append, List.forall_mem_cons]
      exact ⟨⟨hds, isNumeral_replicate _⟩, rfl, rfl, List.forall_mem_nil _⟩
    · refine row_of_numerals (by simp) ?_
      simp only [List.forall_mem_append, List.forall_mem_cons]
      exact ⟨fun c hc => hds c (List.mem_of_mem_take hc), rfl,
        fun c hc => hds c (List.mem_of_mem_drop hc)⟩

theorem row_scientific (hds : ∀ c ∈ ds, isNumeral c = true) : Row (scientific ds point) := by
  unfold scientific
  dsimp only
  refine row_of_numerals (by simp) ?_
  simp only [List.forall_mem_append, List.forall_mem_cons]
  refine ⟨?_, rfl, ?_, ?_⟩
  · split
    · exact List.forall_mem_nil _
    · exact hds
    · rw [List.forall_mem_cons] at hds
      exact List.forall_mem_cons.2 ⟨hds.1, List.forall_mem_cons.2 ⟨rfl, hds.2⟩⟩
  · split <;> rfl
  · split
    · exact List.forall_mem_cons.2 ⟨rfl, isNumeral_toDigits _⟩
    · exact isNumeral_toDigits _

theorem row_writeDecimal (style : NumberStyle) (x : Scaled) : Row (writeDecimal style x) := by
  have hds : ∀ c ∈ x.pointed.1, isNumeral c = true := by
    intro c hc
    have hkept := (List.dropWhile_sublist _).subset (List.mem_reverse.1 hc)
    exact isNumeral_toDigits _ c (List.mem_reverse.1 hkept)
  unfold writeDecimal
  dsimp only
  split
  · exact row_positional hds
  · exact row_scientific hds

theorem row_signed (negative : Bool) {body : String} (h : Row body.toList) :
    Row ((if negative then "-" else "") ++ body).toList := by
  rw [String.toList_append]
  cases negative with
  | false => exact h
  | true => exact .cons rfl (by decide) h.glyph

theorem row_float (x : Binary64) : Row (x.write Decimal.formal).toList := by
  cases x with
  | nan => exact .of_check rfl
  | infinity negative => exact row_signed negative (.of_check rfl)
  | finite negative m e =>
    refine row_signed negative ?_
    split
    · exact .of_check rfl
    · rw [String.toList_ofList]
      exact row_writeDecimal _ _

/-! ## Strings -/

theorem isGlyph_hex (width n : Nat) : ∀ c ∈ Text.hex width n, isGlyph c = true := by
  have hdigits : ∀ m < 16, isGlyph (Nat.digitChar m) = true := by decide
  intro c hc
  obtain ⟨i, -, rfl⟩ := List.mem_map.1 hc
  exact hdigits _ (Nat.mod_lt _ (by decide))

theorem isGlyph_escapeUnit (n : Nat) : ∀ c ∈ escapeUnit n, isGlyph c = true :=
  List.forall_mem_cons.2 ⟨rfl, List.forall_mem_cons.2 ⟨rfl, isGlyph_hex 4 n⟩⟩

/-- The character itself is kept only if it has a glyph. -/
theorem isGlyph_escapeChar (c : Char) : ∀ d ∈ escapeChar c, isGlyph d = true := by
  unfold escapeChar
  split
  case isTrue h => rcases h with rfl | rfl <;> exact List.all_eq_true.1 rfl
  iterate 5
    split
    case isTrue => exact List.all_eq_true.1 rfl
  split
  case isTrue h => exact List.forall_mem_singleton.2 (by simpa [isGlyph] using h)
  dsimp only
  split
  · exact isGlyph_escapeUnit _
  · exact List.forall_mem_append.2 ⟨isGlyph_escapeUnit _, isGlyph_escapeUnit _⟩

/-- A string is printed on one line, whatever it holds. -/
theorem row_printString (s : String) : Row (printString s) := by
  have hchars : ∀ d ∈ s.toList.flatMap escapeChar, isGlyph d = true := by
    intro d hd
    obtain ⟨c, -, hc⟩ := List.mem_flatMap.1 hd
    exact isGlyph_escapeChar c d hc
  exact .cons rfl (by decide) (List.forall_mem_append.2 ⟨hchars, List.all_eq_true.1 rfl⟩)

/-! ## Values -/

namespace Rows

/-- An item behind a comma, on a line of its own. -/
theorem item (indent level : Nat) (hs : Rows s) (ht : Rows t) :
    Rows (s ++ (',' :: (Json.newline indent level ++ t))) := by
  have hcomma : Rows (s ++ [',']) := hs.append (List.all_eq_true.1 rfl)
  simpa using hcomma.newlineAt indent level ht

theorem field (k : String) (hs : Rows s) : Rows (printString k ++ ':' :: ' ' :: s) := by
  have hkey : Row (printString k ++ [':', ' ']) := (row_printString k).append (List.all_eq_true.1 rfl)
  simpa using hs.behind hkey

end Rows

-- Items and fields go on behind what is printed before them, so they are appended to rows.
mutual

theorem rows_printAt (indent level : Nat) : ∀ v : Value, Rows (printAt indent level v)
  | .null => .last (.of_check rfl)
  | .bool true => .last (.of_check rfl)
  | .bool false => .last (.of_check rfl)
  | .int n => .last (row_int n)
  | .float x => .last (row_float x)
  | .str s => .last (row_printString s)
  | .arr [] => .last (.of_check rfl)
  | .arr (v :: vs) => by
    have hopen : Rows ['['] := .last (.of_check rfl)
    have hclose : Rows [']'] := .last (.of_check rfl)
    have hfirst := hopen.newlineAt indent (level + 1) (rows_printAt indent (level + 1) v)
    have hitems := rows_printItems indent level vs hfirst
    simpa [printAt] using hitems.newlineAt indent level hclose
  | .obj [] => .last (.of_check rfl)
  | .obj ((k, v) :: fs) => by
    have hopen : Rows ['\x7b'] := .last (.of_check rfl)
    have hclose : Rows ['\x7d'] := .last (.of_check rfl)
    have hfirst := hopen.newlineAt indent (level + 1) (.field k (rows_printAt indent (level + 1) v))
    have hfields := rows_printFields indent level fs hfirst
    simpa [printAt] using hfields.newlineAt indent level hclose

theorem rows_printItems (indent level : Nat) : ∀ (vs : List Value) {s : List Char}, Rows s →
    Rows (s ++ printAt.printItems indent level vs)
  | [], _, hs => by simpa [printAt.printItems] using hs
  | v :: vs, _, hs => by
    have hitem := hs.item indent (level + 1) (rows_printAt indent (level + 1) v)
    simpa [printAt.printItems] using rows_printItems indent level vs hitem

theorem rows_printFields (indent level : Nat) : ∀ (fs : List (String × Value)) {s : List Char},
    Rows s → Rows (s ++ printAt.printFields indent level fs)
  | [], _, hs => by simpa [printAt.printFields] using hs
  | (k, v) :: fs, _, hs => by
    have hfield := hs.item indent (level + 1) (.field k (rows_printAt indent (level + 1) v))
    simpa [printAt.printFields] using rows_printFields indent level fs hfield

end

theorem rows_print (indent : Nat) (v : Value) : Rows (print indent v).toList := by
  rw [print, String.toList_ofList]
  exact rows_printAt indent 0 v

end Decompilation.Json
