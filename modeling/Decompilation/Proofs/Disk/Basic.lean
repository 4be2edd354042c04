import Decompilation.Disk.Basic
import Decompilation.Proofs.Table

/-!
# What lies below a folder

`below` lists what lies below a folder by the names that lead there. Something put into the folder
is put into that list (`below_put`), and a look at a place below the folder is a look into the list
(`find?_below`).
-/

namespace Decompilation.Disk

variable {d : Disk} {q : Place} {names : List String}

/-- How an entry of a disk is listed below a folder, if it lies below it. -/
def entryBelow? (q : Place) (e : Place × Node) : Option (List String × Node) :=
  if q.isPrefixOf e.1 && e.1.length != q.length then some (e.1.drop q.length, e.2) else none

theorem entryBelow?_eq_some_iff {e : Place × Node} {x : List String × Node} :
    entryBelow? q e = some x ↔ x.1 ≠ [] ∧ e = (q ++ x.1, x.2) := by
  obtain ⟨p, n⟩ := e
  obtain ⟨names, n'⟩ := x
  unfold entryBelow?
  constructor
  · intro h
    split at h
    · rename_i hbelow
      simp only [Bool.and_eq_true, List.isPrefixOf_iff_prefix, bne_iff_ne] at hbelow
      obtain ⟨⟨s, rfl⟩, hlen⟩ := hbelow
      simp only [List.drop_left, Option.some.injEq, Prod.mk.injEq] at h
      obtain ⟨rfl, rfl⟩ := h
      refine ⟨?_, rfl⟩
      rintro rfl
      simp at hlen
    · cases h
  · rintro ⟨hne, h⟩
    cases h
    have hnames : names ≠ [] := hne
    simp [List.isPrefixOf_iff_prefix, hnames]

/-- An entry of another place has other names below a folder. -/
theorem fst_ne_of_entryBelow? {e x : Place × Node} (he : e.1 ≠ q ++ names)
    (hx : entryBelow? q e = some x) : x.1 ≠ names := by
  obtain ⟨-, rfl⟩ := entryBelow?_eq_some_iff.1 hx
  rintro rfl
  exact he rfl

theorem filterMap_put (hne : names ≠ []) (n : Node) (es : List (Place × Node)) :
    (Table.put (q ++ names) n es).filterMap (entryBelow? q) =
      Table.put names n (es.filterMap (entryBelow? q)) := by
  have hself : ∀ n', entryBelow? q (q ++ names, n') = some (names, n') := fun n' =>
    entryBelow?_eq_some_iff.2 ⟨hne, rfl⟩
  induction es with
  | nil => simp [Table.put, hself]
  | cons e es ih =>
    by_cases he : e.1 = q ++ names
    · obtain ⟨p, n'⟩ := e
      obtain rfl : p = q ++ names := he
      rw [Table.put, if_pos rfl, List.filterMap_cons, List.filterMap_cons, hself, hself,
        Table.put, if_pos rfl]
    · rw [Table.put, if_neg he, List.filterMap_cons, List.filterMap_cons, ih]
      cases hx : entryBelow? q e with
      | none => rfl
      | some x =>
        rw [Table.put, if_neg (fst_ne_of_entryBelow? he hx)]

/-- What is put below a folder is put into the list of what lies below it. -/
theorem below_put (d : Disk) (q : Place) (hne : names ≠ []) (n : Node) :
    (d.put (q ++ names) n).below q = Table.put names n (d.below q) :=
  filterMap_put hne n d.nodes.entries

theorem find?_filterMap (hne : names ≠ []) (es : List (Place × Node)) :
    Table.find? names (es.filterMap (entryBelow? q)) = Table.find? (q ++ names) es := by
  induction es with
  | nil => rfl
  | cons e es ih =>
    by_cases he : e.1 = q ++ names
    · have hx : entryBelow? q e = some (names, e.2) :=
        entryBelow?_eq_some_iff.2 ⟨hne, Prod.ext he rfl⟩
      rw [List.filterMap_cons, hx, Table.find?, Table.find?, if_pos rfl, if_pos he]
    · rw [List.filterMap_cons, Table.find?, if_neg he, ← ih]
      cases hx : entryBelow? q e with
      | none => rfl
      | some x =>
        rw [Table.find?, if_neg (fst_ne_of_entryBelow? he hx)]

theorem find?_below (d : Disk) (q : Place) (hne : names ≠ []) :
    Table.find? names (d.below q) = d.node? (q ++ names) := by
  rw [node?, if_neg (by simp [hne])]
  exact find?_filterMap hne d.nodes.entries

end Decompilation.Disk
