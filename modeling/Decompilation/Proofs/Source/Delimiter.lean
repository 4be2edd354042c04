import Mathlib.Tactic.ByContra
import Decompilation.Source.Delimiter

/-!
# Balanced texts

`Within opener closer outer s`: no prefix of `s` has more than `outer` closers too many. A closing
delimiter is found at the end of the first balanced part (`closing?_eq_some_iff`), and none is found
exactly in a text that stays within its openers (`closing?_eq_none_iff`). For braces, `Balanced`
texts are what stands between a brace and its partner.
-/

namespace Decompilation.Source

variable {opener closer : Char} {outer : Nat} {s a b : List Char}

/-- No prefix of a text closes more than it opens, but for `outer` openers around the text. -/
def Within (opener closer : Char) (outer : Nat) (s : List Char) : Prop :=
  ∀ n, (s.take n).count closer ≤ (s.take n).count opener + outer

theorem within_nil : Within opener closer outer [] := by
  intro n
  simp

theorem within_cons_opener (hne : opener ≠ closer) :
    Within opener closer outer (opener :: s) ↔ Within opener closer (outer + 1) s := by
  constructor
  · intro h n
    have := h (n + 1)
    rw [List.take_succ_cons, List.count_cons_self, List.count_cons_of_ne hne] at this
    omega
  · intro h n
    cases n with
    | zero => simp
    | succ n =>
      have := h n
      rw [List.take_succ_cons, List.count_cons_self, List.count_cons_of_ne hne]
      omega

theorem within_cons_closer (hne : opener ≠ closer) :
    Within opener closer outer (closer :: s) ↔ outer ≠ 0 ∧ Within opener closer (outer - 1) s := by
  constructor
  · intro h
    have h1 := h 1
    rw [List.take_succ_cons, List.count_cons_self, List.count_cons_of_ne hne.symm] at h1
    simp only [List.take_zero, List.count_nil] at h1
    refine ⟨by omega, fun n => ?_⟩
    have := h (n + 1)
    rw [List.take_succ_cons, List.count_cons_self, List.count_cons_of_ne hne.symm] at this
    omega
  · rintro ⟨hpos, h⟩ n
    cases n with
    | zero => simp
    | succ n =>
      have := h n
      rw [List.take_succ_cons, List.count_cons_self, List.count_cons_of_ne hne.symm]
      omega

theorem within_cons_other {c : Char} (ho : c ≠ opener) (hc : c ≠ closer) :
    Within opener closer outer (c :: s) ↔ Within opener closer outer s := by
  constructor
  · intro h n
    have := h (n + 1)
    rwa [List.take_succ_cons, List.count_cons_of_ne ho, List.count_cons_of_ne hc] at this
  · intro h n
    cases n with
    | zero => simp
    | succ n =>
      rw [List.take_succ_cons, List.count_cons_of_ne ho, List.count_cons_of_ne hc]
      exact h n

theorem within_append_of_not_mem (ho : opener ∉ a ∧ closer ∉ a) :
    Within opener closer outer (a ++ s) ↔ Within opener closer outer s := by
  induction a with
  | nil => rfl
  | cons c a ih =>
    simp only [List.mem_cons, not_or] at ho
    rw [List.cons_append, within_cons_other (Ne.symm ho.1.1) (Ne.symm ho.2.1), ih ⟨ho.1.2, ho.2.2⟩]

theorem within_append_right_of_not_mem (ho : opener ∉ b ∧ closer ∉ b) :
    Within opener closer outer (s ++ b) ↔ Within opener closer outer s := by
  have hcount : ∀ n, ((s ++ b).take n).count closer = (s.take n).count closer ∧
      ((s ++ b).take n).count opener = (s.take n).count opener := by
    intro n
    rw [List.take_append, List.count_append, List.count_append,
      List.count_eq_zero_of_not_mem fun hm => ho.2 (List.mem_of_mem_take hm),
      List.count_eq_zero_of_not_mem fun hm => ho.1 (List.mem_of_mem_take hm)]
    simp
  unfold Within
  simp only [hcount]

/-! ## The closing delimiter -/

/-- A scan over a part that stays within its openers goes on behind it with the openers left. -/
theorem closing?_append_of_within (hne : opener ≠ closer) (hw : Within opener closer outer a) :
    closing? opener closer outer (a ++ s) =
      (closing? opener closer (a.count opener + outer - a.count closer) s).map (a.length + ·) := by
  induction a generalizing outer with
  | nil => simp
  | cons c a ih =>
    rw [List.cons_append, closing?]
    by_cases ho : c = opener
    · subst ho
      rw [if_pos rfl, ih ((within_cons_opener hne).1 hw), List.count_cons_self,
        List.count_cons_of_ne hne, Option.map_map, List.length_cons]
      congr 1
      · funext n
        simp only [Function.comp_apply]
        omega
      · congr 1
        omega
    · by_cases hc : c = closer
      · subst hc
        obtain ⟨houter, hw⟩ := (within_cons_closer hne).1 hw
        rw [if_neg ho, if_pos rfl, if_neg houter, ih hw, List.count_cons_self,
          List.count_cons_of_ne ho, Option.map_map, List.length_cons]
        congr 1
        · funext n
          simp only [Function.comp_apply]
          omega
        · congr 1
          omega
      · rw [if_neg ho, if_neg hc, ih ((within_cons_other ho hc).1 hw), List.count_cons_of_ne hc,
          List.count_cons_of_ne ho, Option.map_map, List.length_cons]
        congr 1
        funext n
        simp only [Function.comp_apply]
        omega

/-- A text that does not stay within its openers has a first closer too many. -/
theorem exists_of_not_within (hne : opener ≠ closer) (hw : ¬ Within opener closer outer s) :
    ∃ a b, s = a ++ closer :: b ∧ Within opener closer outer a ∧
      a.count closer = a.count opener + outer := by
  induction s generalizing outer with
  | nil => exact absurd within_nil hw
  | cons c s ih =>
    by_cases ho : c = opener
    · subst ho
      obtain ⟨a, b, rfl, ha, hcount⟩ := ih fun h => hw ((within_cons_opener hne).2 h)
      refine ⟨c :: a, b, rfl, (within_cons_opener hne).2 ha, ?_⟩
      rw [List.count_cons_self, List.count_cons_of_ne hne]
      omega
    · by_cases hc : c = closer
      · subst hc
        by_cases houter : outer = 0
        · exact ⟨[], s, rfl, within_nil, by simp [houter]⟩
        · obtain ⟨a, b, rfl, ha, hcount⟩ :=
            ih fun h => hw ((within_cons_closer hne).2 ⟨houter, h⟩)
          refine ⟨c :: a, b, rfl, (within_cons_closer hne).2 ⟨houter, ha⟩, ?_⟩
          rw [List.count_cons_self, List.count_cons_of_ne ho]
          omega
      · obtain ⟨a, b, rfl, ha, hcount⟩ := ih fun h => hw ((within_cons_other ho hc).2 h)
        refine ⟨c :: a, b, rfl, (within_cons_other ho hc).2 ha, ?_⟩
        rwa [List.count_cons_of_ne hc, List.count_cons_of_ne ho]

theorem closing?_append_closer (hne : opener ≠ closer) (hw : Within opener closer outer a)
    (hcount : a.count closer = a.count opener + outer) :
    closing? opener closer outer (a ++ closer :: b) = some (a.length + 1) := by
  rw [closing?_append_of_within hne hw, hcount, Nat.sub_self, closing?, if_neg hne.symm, if_pos rfl,
    if_pos rfl, Option.map_some]

theorem closing?_eq_none_iff (hne : opener ≠ closer) :
    closing? opener closer outer s = none ↔ Within opener closer outer s := by
  constructor
  · intro hnone
    by_contra hw
    obtain ⟨a, b, rfl, ha, hcount⟩ := exists_of_not_within hne hw
    rw [closing?_append_closer hne ha hcount] at hnone
    simp at hnone
  · intro hw
    have := closing?_append_of_within (s := []) hne hw
    rwa [List.append_nil, closing?, Option.map_none] at this

theorem closing?_eq_some_iff (hne : opener ≠ closer) {n : Nat} :
    closing? opener closer outer s = some n ↔
      ∃ a b, s = a ++ closer :: b ∧ n = a.length + 1 ∧ Within opener closer outer a ∧
        a.count closer = a.count opener + outer := by
  constructor
  · intro hsome
    have hw : ¬ Within opener closer outer s := by
      rw [← closing?_eq_none_iff hne, hsome]
      simp
    obtain ⟨a, b, rfl, ha, hcount⟩ := exists_of_not_within hne hw
    rw [closing?_append_closer hne ha hcount, Option.some.injEq] at hsome
    exact ⟨a, b, rfl, hsome.symm, ha, hcount⟩
  · intro hcut
    obtain ⟨a, b, rfl, rfl, hw, hcount⟩ := hcut
    exact closing?_append_closer hne hw hcount

/-! ## Braces -/

/-- What can stand between a brace and its partner: no brace in it is closed from outside, and none
in it closes one outside. -/
structure Balanced (s : List Char) : Prop where
  within : Within '{' '}' 0 s
  even : s.count '}' = s.count '{'

theorem Balanced.closingBrace? (ha : Balanced a) (b : List Char) :
    closingBrace? (a ++ '}' :: b) = some (a.length + 1) :=
  closing?_append_closer (by decide) ha.within ha.even

theorem closingBrace?_eq_some_iff {n : Nat} :
    closingBrace? s = some n ↔ ∃ a b, s = a ++ '}' :: b ∧ n = a.length + 1 ∧ Balanced a := by
  rw [closingBrace?, closing?_eq_some_iff (by decide)]
  constructor
  · intro hcut
    obtain ⟨a, b, rfl, rfl, hw, hcount⟩ := hcut
    exact ⟨a, b, rfl, rfl, hw, hcount⟩
  · intro hcut
    obtain ⟨a, b, rfl, rfl, hw, hcount⟩ := hcut
    exact ⟨a, b, rfl, rfl, hw, hcount⟩

theorem closingBrace?_eq_none_iff : closingBrace? s = none ↔ Within '{' '}' 0 s :=
  closing?_eq_none_iff (by decide)

/-- A text is balanced if a brace behind it is the partner of one in front of it. -/
theorem balanced_iff_closingBrace? :
    Balanced s ↔ Source.closingBrace? (s ++ ['}']) = some (s.length + 1) := by
  constructor
  · intro hs
    exact hs.closingBrace? []
  · intro hclose
    obtain ⟨a, b, hcut, hlen, ha⟩ := closingBrace?_eq_some_iff.1 hclose
    obtain ⟨rfl, -⟩ := List.append_inj hcut (by omega)
    exact ha

instance : DecidablePred Balanced := fun _ => decidable_of_iff _ balanced_iff_closingBrace?.symm

theorem balanced_append_append {l r : List Char} (hl : '{' ∉ l ∧ '}' ∉ l) (hr : '{' ∉ r ∧ '}' ∉ r) :
    Balanced (l ++ (s ++ r)) ↔ Balanced s := by
  have hcount : ∀ c, c ∉ l → c ∉ r → (l ++ (s ++ r)).count c = s.count c := by
    intro c hl hr
    rw [List.count_append, List.count_append, List.count_eq_zero_of_not_mem hl,
      List.count_eq_zero_of_not_mem hr]
    omega
  constructor
  · intro hbalanced
    obtain ⟨hw, heven⟩ := hbalanced
    rw [within_append_of_not_mem hl, within_append_right_of_not_mem hr] at hw
    rw [hcount _ hl.2 hr.2, hcount _ hl.1 hr.1] at heven
    exact ⟨hw, heven⟩
  · intro hbalanced
    obtain ⟨hw, heven⟩ := hbalanced
    refine ⟨?_, ?_⟩
    · rwa [within_append_of_not_mem hl, within_append_right_of_not_mem hr]
    · rwa [hcount _ hl.2 hr.2, hcount _ hl.1 hr.1]

end Decompilation.Source
