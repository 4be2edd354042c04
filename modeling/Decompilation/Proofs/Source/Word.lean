import Decompilation.Source.Word
import Decompilation.Source.Token

/-!
# Where a whole word stands

`StandsWhole word before s front tail`: the word stands in `s` between `front` and `tail`, and no
word character touches it on either side, where `before` is what precedes `s`. `behindWord?` decides
this for an empty `front`, and `cutAtWord?` finds the place with the shortest one
(`standsWhole_of_cutAtWord?`, `not_standsWhole_of_cutAtWord?`).
-/

namespace Decompilation.Source

open Text

/-! ## The character before a text -/

/-- What precedes a text that follows `front`, where `before` precedes `front`. -/
def lastOr (before : Option Char) (front : List Char) : Option Char := front.getLast?.or before

@[simp] theorem lastOr_nil (before : Option Char) : lastOr before [] = before := rfl

@[simp] theorem lastOr_cons (before : Option Char) (c : Char) (s : List Char) :
    lastOr before (c :: s) = lastOr (some c) s := by
  unfold lastOr
  rw [List.getLast?_cons]
  cases s.getLast? <;> rfl

theorem lastOr_append (before : Option Char) (a b : List Char) :
    lastOr before (a ++ b) = lastOr (lastOr before a) b := by
  induction a generalizing before with
  | nil => rfl
  | cons c a ih => rw [List.cons_append, lastOr_cons, lastOr_cons, ih]

theorem lastOr_concat (before : Option Char) (a : List Char) (c : Char) :
    lastOr before (a ++ [c]) = some c := by
  rw [lastOr_append, lastOr_cons, lastOr_nil]

/-! ## Classes of characters -/

theorem isNameStart_iff {c : Char} : isNameStart c = true ↔
    c.toNat = 95 ∨ (97 ≤ c.toNat ∧ c.toNat ≤ 122) ∨ (65 ≤ c.toNat ∧ c.toNat ≤ 90) := by
  simp only [isNameStart, Bool.or_eq_true, Bool.and_eq_true, beq_iff_eq, decide_eq_true_eq,
    Char.le_def, UInt32.le_iff_toNat_le, Char.toNat_val, ← Char.toNat_inj, or_assoc]
  rfl

theorem isWord_iff {c : Char} :
    isWord c = true ↔ isNameStart c = true ∨ (48 ≤ c.toNat ∧ c.toNat ≤ 57) := by
  simp only [isWord, Bool.or_eq_true, Bool.and_eq_true, decide_eq_true_eq, Char.le_def,
    UInt32.le_iff_toNat_le, Char.toNat_val]
  rfl

theorem isQualified_iff {c : Char} : isQualified c = true ↔ isWord c = true ∨ c.toNat = 46 := by
  simp only [isQualified, Bool.or_eq_true, beq_iff_eq, ← Char.toNat_inj]
  rfl

theorem isQualified_of_isWord {c : Char} (h : isWord c = true) : isQualified c = true :=
  isQualified_iff.2 (.inl h)

theorem isWord_of_isNameStart {c : Char} (h : isNameStart c = true) : isWord c = true :=
  isWord_iff.2 (.inl h)

theorem not_isQualified_of_isBlank {c : Char} (h : isBlank c = true) : isQualified c = false := by
  rw [Bool.eq_false_iff, Ne, isQualified_iff, isWord_iff, isNameStart_iff]
  simp only [isBlank, Bool.or_eq_true, Bool.and_eq_true, decide_eq_true_eq, beq_iff_eq] at h
  omega

theorem not_isWord_of_isBlank {c : Char} (h : isBlank c = true) : isWord c = false := by
  rw [Bool.eq_false_iff]
  intro hw
  simpa [not_isQualified_of_isBlank h] using isQualified_of_isWord hw

theorem isBlank_of_isNameStart {c : Char} (h : isNameStart c = true) : isBlank c = false := by
  rw [Bool.eq_false_iff]
  intro hb
  simpa [not_isWord_of_isBlank hb] using isWord_of_isNameStart h

/-! ## Runs of characters -/

section Runs

variable {p q : Char → Bool} {s t run rest gap : List Char}

theorem takeWhile_append_run (hrun : ∀ c ∈ run, p c = true) (hrest : rest.head?.any p = false) :
    (run ++ rest).takeWhile p = run ∧ (run ++ rest).dropWhile p = rest := by
  rw [List.takeWhile_append_of_pos hrun, List.dropWhile_append_of_pos hrun]
  cases rest with
  | nil => simp
  | cons c rest => simp_all

theorem of_mem_takeWhile {c : Char} (h : c ∈ s.takeWhile p) : p c = true :=
  List.all_eq_true.1 List.all_takeWhile c h

theorem any_head?_takeWhile (hqp : ∀ c, q c = true → p c = true) (h : s.head?.any q = true) :
    (s.takeWhile p).head?.any q = true := by
  cases s with
  | nil => cases h
  | cons c s =>
    rw [List.takeWhile_cons_of_pos (hqp c h)]
    exact h

theorem any_head?_dropWhile (p : Char → Bool) (s : List Char) :
    (s.dropWhile p).head?.any p = false := by
  have h := List.head?_dropWhile_not p s
  cases hhead : (s.dropWhile p).head? with
  | none => rfl
  | some c =>
    rw [hhead] at h
    exact h

theorem any_head?_append (h : s.head?.any p = true) (t : List Char) :
    (s ++ t).head?.any p = true := by
  cases s with
  | nil => cases h
  | cons c s => exact h

theorem any_head?_run (hne : run ≠ []) (hrun : ∀ c ∈ run, p c = true) (t : List Char) :
    (run ++ t).head?.any p = true := by
  obtain ⟨c, run, rfl⟩ := List.exists_cons_of_ne_nil hne
  exact hrun c (List.mem_cons_self ..)

theorem not_isBlank_of_isWord (h : s.head?.any isWord = true) : s.head?.any isBlank = false := by
  cases s with
  | nil => rfl
  | cons c s =>
    rw [Bool.eq_false_iff]
    intro hblank
    simp [not_isWord_of_isBlank hblank] at h

theorem not_isWord_of_blanks (hne : gap ≠ []) (hgap : ∀ c ∈ gap, isBlank c = true) (t : List Char) :
    (gap ++ t).head?.any isWord = false := by
  obtain ⟨c, gap, rfl⟩ := List.exists_cons_of_ne_nil hne
  exact not_isWord_of_isBlank (hgap c (List.mem_cons_self ..))

theorem behindBlanks?_eq_some_iff : behindBlanks? s = some rest ↔
    ∃ gap, gap ≠ [] ∧ (∀ c ∈ gap, isBlank c = true) ∧ s = gap ++ rest ∧
      rest.head?.any isBlank = false := by
  unfold behindBlanks?
  constructor
  · intro h
    split at h
    · rename_i hblank
      obtain rfl := Option.some.inj h
      refine ⟨s.takeWhile isBlank, ?_, fun c => of_mem_takeWhile, ?_, ?_⟩
      · cases s with
        | nil => cases hblank
        | cons c s => simp [show isBlank c = true from hblank]
      · rw [trimStart, List.takeWhile_append_dropWhile]
      · exact any_head?_dropWhile isBlank s
    · cases h
  · rintro ⟨gap, hne, hgap, rfl, hrest⟩
    rw [if_pos (any_head?_run hne hgap rest), trimStart, (takeWhile_append_run hgap hrest).2]

end Runs

/-! ## Whole words -/

/-- The word stands in a text between `front` and `tail`, and no word character touches it;
`before` precedes the text. -/
structure StandsWhole (word : List Char) (before : Option Char) (s front tail : List Char) :
    Prop where
  eq : s = front ++ word ++ tail
  left : (lastOr before front).any isWord = false
  right : tail.head?.any isWord = false

variable {word s front tail : List Char} {before : Option Char}

theorem standsWhole_cons {c : Char} :
    StandsWhole word before (c :: s) (c :: front) tail ↔
      StandsWhole word (some c) s front tail := by
  constructor
  · intro hstands
    obtain ⟨heq, hleft, hright⟩ := hstands
    exact ⟨by simpa using heq, by simpa using hleft, hright⟩
  · intro hstands
    obtain ⟨heq, hleft, hright⟩ := hstands
    exact ⟨by simpa using heq, by simpa using hleft, hright⟩

theorem standsWhole_append (a : List Char) :
    StandsWhole word before (a ++ s) (a ++ front) tail ↔
      StandsWhole word (lastOr before a) s front tail := by
  induction a generalizing before with
  | nil => rfl
  | cons c a ih => rw [List.cons_append, List.cons_append, standsWhole_cons, ih, lastOr_cons]

theorem behindWord?_eq_some_iff :
    behindWord? word before s = some tail ↔ StandsWhole word before s [] tail := by
  unfold behindWord?
  constructor
  · intro h
    split at h
    · rename_i hc
      simp only [Bool.and_eq_true, Bool.not_eq_true', List.isPrefixOf_iff_prefix] at hc
      obtain ⟨⟨hleft, t, rfl⟩, hright⟩ := hc
      simp only [List.drop_left, Option.some.injEq] at h hright
      subst h
      exact ⟨rfl, hleft, hright⟩
    · simp at h
  · intro hstands
    obtain ⟨rfl, hleft, hright⟩ := hstands
    rw [lastOr_nil] at hleft
    simp [hleft, hright]

theorem StandsWhole.tail_eq {front' tail' : List Char} (h : StandsWhole word before s front tail)
    (h' : StandsWhole word before s front' tail') (hlen : front.length = front'.length) :
    front = front' ∧ tail = tail' := by
  have heq := h.eq.symm.trans h'.eq
  rw [List.append_assoc, List.append_assoc] at heq
  obtain ⟨hfront, heq⟩ := List.append_inj heq hlen
  exact ⟨hfront, List.append_cancel_left heq⟩

/-- A cut is at a place where the word stands whole, and at the first one. -/
theorem standsWhole_of_cutAtWord? (h : cutAtWord? word before s = some (front, tail)) :
    StandsWhole word before s front tail ∧
      ∀ front' tail', StandsWhole word before s front' tail' → front.length ≤ front'.length := by
  induction s generalizing before front with
  | nil => simp [cutAtWord?] at h
  | cons c s ih =>
    rw [cutAtWord?] at h
    split at h
    · rename_i rest hrest
      simp only [Option.some.injEq, Prod.mk.injEq] at h
      obtain ⟨rfl, rfl⟩ := h
      exact ⟨behindWord?_eq_some_iff.1 hrest, fun _ _ _ => Nat.zero_le _⟩
    · rename_i hnone
      simp only [Option.map_eq_some_iff, Prod.mk.injEq, Prod.exists] at h
      obtain ⟨f, t, hcut, rfl, rfl⟩ := h
      obtain ⟨hstands, hfirst⟩ := ih hcut
      refine ⟨standsWhole_cons.2 hstands, fun front' tail' h' => ?_⟩
      cases front' with
      | nil => rw [behindWord?_eq_some_iff.2 h'] at hnone; simp at hnone
      | cons d f' =>
        obtain rfl : c = d := by simpa using congrArg List.head? h'.eq
        have := hfirst f' tail' (standsWhole_cons.1 h')
        simpa using this

/-- A word that stands whole is the first one, or it starts behind the start of the first one. -/
theorem StandsWhole.at_or_behind_cut {gap rest : List Char}
    (hs : StandsWhole word before s front rest) (h : cutAtWord? word before s = some (gap, tail)) :
    (front = gap ∧ rest = tail) ∨
      ∃ x, x ≠ [] ∧ front = gap ++ x ∧ x ++ (word ++ rest) = word ++ tail := by
  obtain ⟨hstands, hfirst⟩ := standsWhole_of_cutAtWord? h
  have heq := hs.eq.symm.trans hstands.eq
  rw [List.append_assoc, List.append_assoc] at heq
  obtain ⟨x, rfl, hx⟩ : ∃ x, front = gap ++ x ∧ x ++ (word ++ rest) = word ++ tail := by
    rcases List.append_eq_append_iff.1 heq with ⟨x, rfl, hx⟩ | ⟨x, rfl, hx⟩
    · obtain rfl : x = [] := by
        have := hfirst _ _ hs
        rw [List.length_append] at this
        exact List.length_eq_zero_iff.1 (by omega)
      exact ⟨[], by simp, by simpa using hx⟩
    · exact ⟨x, rfl, hx.symm⟩
  by_cases hnil : x = []
  · subst hnil
    rw [List.nil_append] at hx
    exact .inl ⟨by simp, List.append_cancel_left hx⟩
  · exact .inr ⟨x, hnil, rfl, hx⟩

theorem not_standsWhole_of_cutAtWord? (hword : word ≠ [])
    (h : cutAtWord? word before s = none) : ¬ StandsWhole word before s front tail := by
  induction s generalizing before front with
  | nil =>
    intro hs
    have := hs.eq
    simp [hword] at this
  | cons c s ih =>
    rw [cutAtWord?] at h
    split at h
    · simp at h
    · rename_i hnone
      rw [Option.map_eq_none_iff] at h
      intro hs
      cases front with
      | nil => rw [behindWord?_eq_some_iff.2 hs] at hnone; simp at hnone
      | cons d f =>
        obtain rfl : c = d := by simpa using congrArg List.head? hs.eq
        exact ih h (standsWhole_cons.1 hs)

end Decompilation.Source
