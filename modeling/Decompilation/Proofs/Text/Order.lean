import Mathlib.Data.List.Perm.Basic
import Decompilation.Text.Order

/-!
# Sorted texts

Texts that differ are in strictly ascending order once they are sorted (`pairwise_lt_inOrder`), and
some of them are sorted like all of them (`filter_inOrder`).
-/

namespace Decompilation.Text

variable {ss ss' : List String}

theorem pairwise_le_inOrder (ss : List String) : (inOrder ss).Pairwise (· ≤ ·) :=
  (pairwise_inOrder ss).imp fun h => of_decide_eq_true h

/-- There is one way to sort texts. -/
theorem inOrder_eq (h : ss.Perm ss') (hsorted : ss'.Pairwise (· ≤ ·)) : inOrder ss = ss' :=
  ((perm_inOrder ss).trans h).eq_of_pairwise (fun _ _ _ _ hab hba => String.le_antisymm hab hba)
    (pairwise_le_inOrder ss) hsorted

theorem filter_inOrder (p : String → Bool) (ss : List String) :
    (inOrder ss).filter p = inOrder (ss.filter p) :=
  (inOrder_eq ((perm_inOrder ss).symm.filter p) ((pairwise_le_inOrder ss).filter p)).symm

theorem pairwise_lt_inOrder (h : ss.Nodup) : (inOrder ss).Pairwise (· < ·) := by
  have hne : (inOrder ss).Pairwise (· ≠ ·) := (perm_inOrder ss).nodup_iff.2 h
  exact (pairwise_le_inOrder ss).imp₂ (fun _ _ hle hne => Std.lt_of_le_of_ne hle hne) hne

end Decompilation.Text
