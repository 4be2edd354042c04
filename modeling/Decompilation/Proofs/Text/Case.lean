import Mathlib.Data.List.Infix
import Decompilation.Proofs.Text.Blank
import Decompilation.Text.Case
import Decompilation.Text.Search

/-!
# Lower case and phrases between blanks

Blanks have no case and end a word, so that blanks around a text stay around its lower form
(`lower_append_append`). A phrase that neither starts nor ends with a blank is not found in blanks around
a text (`mentions_append_append`).
-/

namespace Decompilation.Text

variable {a b p s : List Char} {c : Char} {sub : String}

/-! ## Lower case -/

/-- The code points of the blanks. -/
def blankCodes : List Nat :=
  List.range' 9 5 ++ List.range' 0x1C 5 ++ [0x85, 0xA0, 0x1680] ++ List.range' 0x2000 11 ++
    [0x2028, 0x2029, 0x202F, 0x205F, 0x3000]

theorem toNat_mem_blankCodes (h : isBlank c = true) : c.toNat ∈ blankCodes := by
  simp only [isBlank, Bool.or_eq_true, Bool.and_eq_true, decide_eq_true_eq, beq_iff_eq] at h
  simp only [blankCodes, List.mem_append, List.mem_range'_1, List.mem_cons, List.not_mem_nil, or_false]
  omega

/-- A blank is its own lower form, and it is neither cased nor passed over where cased ones are looked
for. -/
theorem caseless_of_blank (h : isBlank c = true) : lowerChar c = [c] ∧ c ≠ 'Σ' ∧
    inRanges caseIgnorableRanges c.toNat = false ∧ inRanges casedRanges c.toNat = false := by
  have hall : ∀ n ∈ blankCodes, lowerChar (Char.ofNat n) = [Char.ofNat n] ∧ Char.ofNat n ≠ 'Σ' ∧
      inRanges caseIgnorableRanges (Char.ofNat n).toNat = false ∧
      inRanges casedRanges (Char.ofNat n).toNat = false := by decide +kernel
  have := hall c.toNat (toNat_mem_blankCodes h)
  rwa [Char.ofNat_toNat] at this

theorem meetsCased_append (s : List Char) (hb : ∀ c ∈ b, isBlank c = true) :
    meetsCased (s ++ b) = meetsCased s := by
  unfold meetsCased
  rw [List.dropWhile_append]
  cases hrest : s.dropWhile fun c => inRanges caseIgnorableRanges c.toNat with
  | cons c s => rfl
  | nil =>
    rw [if_pos List.isEmpty_nil]
    cases b with
    | nil => rfl
    | cons c b =>
      obtain ⟨-, -, hkept, hcaseless⟩ := caseless_of_blank (hb c List.mem_cons_self)
      rw [List.dropWhile_cons_of_neg (by simp [hkept])]
      exact hcaseless

theorem lowerAfter_blanks (p : List Char) (ha : ∀ c ∈ a, isBlank c = true) :
    lowerAfter p (a ++ s) = a ++ lowerAfter (a.reverse ++ p) s := by
  induction a generalizing p with
  | nil => rfl
  | cons c a ih =>
    obtain ⟨hlower, hsigma, -⟩ := caseless_of_blank (ha c List.mem_cons_self)
    have hrest := ih (c :: p) fun d hd => ha d (List.mem_cons_of_mem c hd)
    rw [List.cons_append, lowerAfter, if_neg hsigma, hlower, hrest]
    simp

/-- Blanks in front of what has been passed and behind what is left end the word on either side. -/
theorem lowerAfter_append (p s : List Char) (ha : ∀ c ∈ a, isBlank c = true)
    (hb : ∀ c ∈ b, isBlank c = true) : lowerAfter (p ++ a) (s ++ b) = lowerAfter p s ++ b := by
  induction s generalizing p with
  | nil =>
    have hblank := lowerAfter_blanks (s := []) (p ++ a) hb
    rw [List.append_nil] at hblank
    rw [List.nil_append, hblank, lowerAfter, lowerAfter, List.append_nil, List.nil_append]
  | cons c s ih =>
    rw [List.cons_append, lowerAfter, lowerAfter, meetsCased_append p ha, meetsCased_append s hb,
      ← List.cons_append, ih, List.append_assoc]

theorem lower_append_append (ha : ∀ c ∈ a, isBlank c = true) (hb : ∀ c ∈ b, isBlank c = true) :
    lower (a ++ (s ++ b)) = a ++ (lower s ++ b) := by
  have hreverse : ∀ c ∈ a.reverse, isBlank c = true := fun c hc => ha c (List.mem_reverse.1 hc)
  rw [lower, lowerAfter_blanks [] ha, List.append_nil]
  exact congrArg (a ++ ·) (lowerAfter_append [] s hreverse hb)

/-! ## Phrases -/

theorem occurs_iff_infix : occurs p s = true ↔ p <:+: s := by
  induction s with
  | nil => simp [occurs]
  | cons c s ih => rw [occurs, Bool.or_eq_true, ih, List.isPrefixOf_iff_prefix, List.infix_cons_iff]

theorem infix_append_left (hp : p ≠ []) (hblank : p.head?.any isBlank = false)
    (ha : ∀ c ∈ a, isBlank c = true) : p <:+: a ++ s ↔ p <:+: s := by
  induction a with
  | nil => rfl
  | cons c a ih =>
    have hstart : ¬ p <+: c :: (a ++ s) := by
      rw [List.prefix_cons_iff]
      rintro (hnil | ⟨p', hcons, -⟩)
      · exact hp hnil
      · rw [hcons, List.head?_cons, Option.any_some, ha c List.mem_cons_self] at hblank
        cases hblank
    rw [List.cons_append, List.infix_cons_iff, or_iff_right hstart]
    exact ih fun d hd => ha d (List.mem_cons_of_mem c hd)

/-- A phrase that neither starts nor ends with a blank. -/
structure Solid (sub : String) : Prop where
  front : sub.toList.head?.any isBlank = false
  back : sub.toList.reverse.head?.any isBlank = false
  ne : sub.toList ≠ []

instance (sub : String) : Decidable (Solid sub) :=
  decidable_of_iff (sub.toList.head?.any isBlank = false ∧
    sub.toList.reverse.head?.any isBlank = false ∧ sub.toList ≠ [])
    ⟨fun ⟨hfront, hback, hne⟩ => ⟨hfront, hback, hne⟩, fun ⟨hfront, hback, hne⟩ => ⟨hfront, hback, hne⟩⟩

theorem mentions_append_append (hsub : Solid sub) (ha : ∀ c ∈ a, isBlank c = true)
    (hb : ∀ c ∈ b, isBlank c = true) : mentions (a ++ (s ++ b)) sub = mentions s sub := by
  have hreverse : ∀ c ∈ b.reverse, isBlank c = true := fun c hc => hb c (List.mem_reverse.1 hc)
  have hback : sub.toList <:+: s ++ b ↔ sub.toList <:+: s := by
    rw [← List.reverse_infix, List.reverse_append,
      infix_append_left (by simpa using hsub.ne) hsub.back hreverse, List.reverse_infix]
  rw [Bool.eq_iff_iff, mentions, mentions, occurs_iff_infix, occurs_iff_infix,
    infix_append_left hsub.ne hsub.front ha, hback]

end Decompilation.Text
