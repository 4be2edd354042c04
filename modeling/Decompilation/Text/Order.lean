/-!
# Texts in order

Texts are ordered by the code points of their characters. `inOrder` sorts texts and keeps every one
of them; `distinct` keeps each text once.
-/

namespace Decompilation.Text

/-- Whether a text comes before another one or is the same. -/
def comesFirst (a b : String) : Bool := decide (a ≤ b)

def inOrder (ss : List String) : List String := ss.mergeSort comesFirst

def distinct (ss : List String) : List String := (inOrder ss).eraseDups

theorem perm_inOrder (ss : List String) : (inOrder ss).Perm ss := List.mergeSort_perm ss comesFirst

theorem pairwise_inOrder (ss : List String) : (inOrder ss).Pairwise (comesFirst · ·) :=
  List.pairwise_mergeSort
    (fun a b c hab hbc => by
      simp only [comesFirst, decide_eq_true_eq] at hab hbc ⊢
      exact String.le_trans hab hbc)
    (fun a b => by simpa [comesFirst] using String.le_total a b) ss

end Decompilation.Text
