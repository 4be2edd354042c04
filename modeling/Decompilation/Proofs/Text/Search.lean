import Decompilation.Text.Search

/-!
# Searching and cutting at known places

What is found and cut out where a text is known as the pieces it is made of.
-/

namespace Decompilation.Text

theorem find?_append_cons {c : Char} {a : List Char} (h : c ∉ a) (b : List Char) :
    find? c (a ++ c :: b) = some a.length := by
  induction a with
  | nil => simp [find?, List.findIdx?_cons]
  | cons d a ih =>
    simp only [List.mem_cons, not_or] at h
    have := ih h.2
    simp only [find?] at this ⊢
    rw [List.cons_append, List.findIdx?_cons, this]
    simp [Ne.symm h.1]

theorem find?_append_of_not_mem {c : Char} {a : List Char} (h : c ∉ a) (b : List Char) :
    find? c (a ++ b) = (find? c b).map (a.length + ·) := by
  induction a with
  | nil => simp
  | cons d a ih =>
    simp only [List.mem_cons, not_or] at h
    have hd : ¬ (d == c) = true := by simpa using Ne.symm h.1
    have := ih h.2
    rw [find?] at this
    rw [List.cons_append, find?, List.findIdx?_cons, if_neg hd, this, Option.map_map]
    congr 1
    funext n
    simp only [Function.comp_apply, List.length_cons]
    omega

theorem find?_eq_none_iff {c : Char} {s : List Char} : find? c s = none ↔ c ∉ s := by
  rw [find?, List.findIdx?_eq_none_iff]
  constructor
  · intro h hm
    simpa using h c hm
  · rintro h d hd
    simpa using fun hdc : d = c => h (hdc ▸ hd)

theorem findFrom?_append {c : Char} {a : List Char} (h : c ∉ a) (front b : List Char) :
    findFrom? c (front ++ (a ++ c :: b)) front.length = some (front.length + a.length) := by
  have hclamp : clampOffset (front ++ (a ++ c :: b)).length (front.length : Int) = front.length := by
    rw [clampOffset_ofNat, List.length_append]
    omega
  rw [findFrom?, hclamp, List.drop_left, find?_append_cons h]
  rfl

theorem slice_append (front a b : List Char) :
    slice (front ++ (a ++ b)) front.length (front.length + a.length : Nat) = a := by
  have hstart : clampOffset (front ++ (a ++ b)).length (front.length : Int) = front.length := by
    rw [clampOffset_ofNat, List.length_append]
    omega
  have hstop : clampOffset (front ++ (a ++ b)).length (front.length + a.length : Nat) =
      front.length + a.length := by
    rw [clampOffset_ofNat, List.length_append, List.length_append]
    omega
  rw [slice, hstart, hstop, List.drop_left, Nat.add_sub_cancel_left, List.take_left]

theorem slice_subset (s : List Char) (start stop : Int) : slice s start stop ⊆ s :=
  List.Subset.trans (List.take_subset _ _) (List.drop_subset _ _)

theorem sliceFrom_append (front b : List Char) : sliceFrom (front ++ b) front.length = b := by
  have : clampOffset (front ++ b).length (front.length : Int) = front.length := by
    rw [clampOffset_ofNat, List.length_append]
    omega
  rw [sliceFrom, this, List.drop_left]

end Decompilation.Text
