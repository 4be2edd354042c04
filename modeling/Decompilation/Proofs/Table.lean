import Mathlib.Logic.Basic
import Decompilation.Table

/-!
# Looking up in tables

What a table says after something was put: the key and value that were put are there
(`get?_insert`), and the order of the keys is that of their first appearance (`keys_insert`).
-/

namespace Decompilation.Table

variable {κ ν : Type} [DecidableEq κ]

omit [DecidableEq κ] in
/-- Tables that list the same pairs are the same. -/
theorem toList_inj {t t' : Table κ ν} : t.toList = t'.toList ↔ t = t' := by
  obtain ⟨es, hes⟩ := t
  obtain ⟨es', hes'⟩ := t'
  simp [toList]

theorem find?_eq_none_iff {k : κ} {es : List (κ × ν)} :
    find? k es = none ↔ k ∉ es.map Prod.fst := by
  induction es with
  | nil => simp [find?]
  | cons e es ih =>
    by_cases he : e.1 = k
    · simp [find?, he]
    · simp [find?, he, ih, Ne.symm he]

theorem find?_eq_some_iff {k : κ} {v : ν} {es : List (κ × ν)} (h : (es.map Prod.fst).Nodup) :
    find? k es = some v ↔ (k, v) ∈ es := by
  induction es with
  | nil => simp [find?]
  | cons e es ih =>
    obtain ⟨hnew, hes⟩ := List.nodup_cons.1 h
    rw [find?, List.mem_cons]
    split
    · rename_i he
      subst he
      constructor
      · intro hv
        exact .inl (by rw [← Option.some.inj hv])
      · rintro (heq | hmem)
        · rw [← heq]
        · exact absurd (List.mem_map_of_mem hmem) hnew
    · rename_i he
      rw [ih hes]
      constructor
      · exact .inr
      · rintro (rfl | hmem)
        · exact absurd rfl he
        · exact hmem

/-- A table says of a key what it lists for it. -/
theorem get?_eq_some_iff {t : Table κ ν} {k : κ} {v : ν} : t.get? k = some v ↔ (k, v) ∈ t.toList :=
  find?_eq_some_iff t.nodup

theorem get?_eq_none_iff {t : Table κ ν} {k : κ} : t.get? k = none ↔ k ∉ t.keys :=
  find?_eq_none_iff

theorem get?_insert (t : Table κ ν) (k k' : κ) (v : ν) :
    (t.insert k v).get? k' = if k' = k then some v else t.get? k' := by
  split
  · rename_i h
    rw [h, get?_insert_self]
  · rename_i h
    exact get?_insert_of_ne t v h

theorem keys_put {k : κ} {v : ν} (es : List (κ × ν)) :
    (put k v es).map Prod.fst =
      if k ∈ es.map Prod.fst then es.map Prod.fst else es.map Prod.fst ++ [k] := by
  induction es with
  | nil => simp [put]
  | cons e es ih =>
    by_cases he : e.1 = k
    · simp [put, he]
    · simp only [put, if_neg he, List.map_cons, ih, List.mem_cons, Ne.symm he, false_or]
      split <;> rfl

/-- A key keeps its place when it is put again, and is the last when it is new. -/
theorem keys_insert (t : Table κ ν) (k : κ) (v : ν) :
    (t.insert k v).keys = if k ∈ t.keys then t.keys else t.keys ++ [k] :=
  keys_put t.entries

/-- Keys that are put one after the other stand in the order of their first appearance. -/
theorem keys_foldl_insert {α : Type} (key : α → κ) (value : Table κ ν → α → ν) (l : List α)
    (t : Table κ ν) : (l.foldl (fun t a => t.insert (key a) (value t a)) t).keys =
      t.keys ++ ((l.map key).filter fun k => k ∉ t.keys).eraseDups := by
  induction l generalizing t with
  | nil => simp
  | cons a l ih =>
    rw [List.foldl_cons, ih, keys_insert, List.map_cons, List.filter_cons]
    by_cases hmem : key a ∈ t.keys
    · simp [hmem]
    · simp only [hmem, if_false, not_false_eq_true, decide_true, if_true, List.eraseDups_cons,
        List.filter_filter, List.append_assoc, List.singleton_append, List.mem_append,
        List.mem_singleton, not_or]
      congr 4
      funext k
      rw [Bool.decide_and, Bool.and_comm, beq_eq_decide]
      congr 1
      simp

/-- Of several values that are put for a key the last one counts. -/
theorem get?_foldl_insert {α : Type} (key : α → κ) (value : α → ν) (l : List α) (t : Table κ ν)
    (k : κ) : (l.foldl (fun t a => t.insert (key a) (value a)) t).get? k =
      ((l.reverse.find? fun a => key a == k).map value).or (t.get? k) := by
  induction l generalizing t with
  | nil => rfl
  | cons a l ih =>
    rw [List.foldl_cons, ih, List.reverse_cons, List.find?_append, get?_insert]
    by_cases hk : k = key a
    · cases l.reverse.find? fun a => key a == k <;> simp [hk]
    · cases l.reverse.find? fun a => key a == k <;> simp [hk, Ne.symm hk]

theorem get?_insertNew (t : Table κ ν) (k k' : κ) (v : ν) :
    (t.insertNew k v).get? k' = if k' = k then some ((t.get? k).getD v) else t.get? k' := by
  unfold insertNew
  split
  · rename_i hc
    split
    · rename_i h
      obtain ⟨w, hw⟩ := Option.isSome_iff_exists.1 hc
      rw [h, hw, Option.getD_some]
    · rfl
  · rename_i hc
    rw [get?_insert, contains, Option.not_isSome_iff_eq_none] at *
    rw [hc, Option.getD_none]

theorem put_of_find? {k : κ} {v : ν} {es : List (κ × ν)} (h : find? k es = some v) :
    put k v es = es := by
  induction es with
  | nil => cases h
  | cons e es ih =>
    rw [find?] at h
    split at h
    · rename_i he
      rw [put, if_pos he, ← he, ← Option.some.inj h]
    · rename_i he
      rw [put, if_neg he, ih h]

/-- Of two values of a key the later one counts. -/
theorem insert_insert (t : Table κ ν) (k : κ) (v w : ν) : (t.insert k v).insert k w = t.insert k w := by
  refine toList_inj.1 ?_
  change put k w (put k v t.entries) = put k w t.entries
  induction t.entries with
  | nil => exact if_pos rfl
  | cons e es ih =>
    rw [put, put]
    split
    · rw [put, if_pos rfl]
    · rename_i he
      rw [put, if_neg he, ih]

/-- A key that is new gets a value, and one that is not keeps its own. -/
theorem insertNew_eq_insert (t : Table κ ν) (k : κ) (v : ν) :
    t.insertNew k v = t.insert k ((t.get? k).getD v) := by
  unfold insertNew
  split
  · rename_i hc
    obtain ⟨w, hw⟩ := Option.isSome_iff_exists.1 hc
    rw [hw, Option.getD_some]
    exact toList_inj.1 (put_of_find? hw).symm
  · rename_i hc
    rw [contains, Option.not_isSome_iff_eq_none] at hc
    rw [hc, Option.getD_none]

/-! ## Tables of pairs -/

theorem put_of_not_mem {k : κ} {es : List (κ × ν)} (h : k ∉ es.map Prod.fst) (v : ν) :
    put k v es = es ++ [(k, v)] := by
  induction es with
  | nil => rfl
  | cons e es ih =>
    simp only [List.map_cons, List.mem_cons, not_or] at h
    rw [put, if_neg (Ne.symm h.1), ih h.2, List.cons_append]

/-- A value that is put for a key that is there takes the place of the one there. -/
theorem put_of_mem {k : κ} {es : List (κ × ν)} (h : k ∈ es.map Prod.fst)
    (hnodup : (es.map Prod.fst).Nodup) (v : ν) :
    put k v es = es.map fun e => if e.1 = k then (k, v) else e := by
  induction es with
  | nil => cases h
  | cons e es ih =>
    obtain ⟨hnew, hnodup⟩ := List.nodup_cons.1 hnodup
    by_cases he : e.1 = k
    · have hrest : ∀ e' ∈ es, (if e'.1 = k then (k, v) else e') = e' := by
        intro e' he'
        refine if_neg fun heq => hnew ?_
        rw [he, ← heq]
        exact List.mem_map_of_mem he'
      rw [put, if_pos he, List.map_cons, if_pos he, List.map_congr_left hrest, List.map_id']
    · have hmem : k ∈ es.map Prod.fst := (List.mem_cons.1 h).resolve_left (Ne.symm he)
      rw [put, if_neg he, List.map_cons, if_neg he, ih hmem hnodup]

theorem toList_foldl_insert (es : List (κ × ν)) (t : Table κ ν) :
    (es.foldl (fun t e => t.insert e.1 e.2) t).toList =
      es.foldl (fun l e => put e.1 e.2 l) t.toList := by
  induction es generalizing t with
  | nil => rfl
  | cons e es ih => rw [List.foldl_cons, ih]; rfl

theorem toList_ofList (es : List (κ × ν)) :
    (ofList es).toList = es.foldl (fun l e => put e.1 e.2 l) [] :=
  toList_foldl_insert es empty

theorem ofList_concat (es : List (κ × ν)) (k : κ) (v : ν) :
    ofList (es ++ [(k, v)]) = (ofList es).insert k v := by
  rw [ofList, List.foldl_append, List.foldl_cons, List.foldl_nil, ofList]

theorem foldl_put_of_nodup {es l : List (κ × ν)} (h : ((l ++ es).map Prod.fst).Nodup) :
    es.foldl (fun l e => put e.1 e.2 l) l = l ++ es := by
  induction es generalizing l with
  | nil => simp
  | cons e es ih =>
    have hnew : e.1 ∉ l.map Prod.fst := by
      rw [List.map_append, List.map_cons, List.nodup_append] at h
      exact fun hm => h.2.2 _ hm _ (List.mem_cons_self ..) rfl
    rw [List.foldl_cons, put_of_not_mem hnew, ih (by simpa using h)]
    simp

/-- A table lists the pairs that it is made of exactly if their keys are pairwise different. -/
theorem toList_ofList_eq_iff (es : List (κ × ν)) :
    (ofList es).toList = es ↔ (es.map Prod.fst).Nodup := by
  constructor
  · intro h
    rw [← h]
    exact (ofList es).nodup
  · intro h
    rw [toList_ofList, foldl_put_of_nodup (by simpa using h), List.nil_append]

/-! ## Some keys only -/

theorem filter_put (p : κ → Bool) (k : κ) (v : ν) (es : List (κ × ν)) :
    (put k v es).filter (fun e => p e.1) =
      if p k then put k v (es.filter fun e => p e.1) else es.filter fun e => p e.1 := by
  induction es with
  | nil => by_cases hk : p k <;> simp [put, hk]
  | cons e es ih =>
    by_cases he : e.1 = k
    · subst he
      by_cases hk : p e.1 <;> simp [put, hk]
    · by_cases hk : p k <;> by_cases hp : p e.1 <;> simp_all [put]

theorem filterKeys_insert (t : Table κ ν) (p : κ → Bool) (k : κ) (v : ν) :
    (t.insert k v).filterKeys p = if p k then (t.filterKeys p).insert k v else t.filterKeys p := by
  apply toList_inj.1
  rw [apply_ite toList]
  exact filter_put p k v t.entries

theorem filterKeys_foldl_insert (p : κ → Bool) (es : List (κ × ν)) (t : Table κ ν) :
    (es.foldl (fun t e => t.insert e.1 e.2) t).filterKeys p =
      (es.filter fun e => p e.1).foldl (fun t e => t.insert e.1 e.2) (t.filterKeys p) := by
  induction es generalizing t with
  | nil => rfl
  | cons e es ih =>
    rw [List.foldl_cons, ih, filterKeys_insert, List.filter_cons]
    split
    · rw [List.foldl_cons]
    · rfl

/-- Of some keys a table says what the pairs with these keys say. -/
theorem filterKeys_ofList (p : κ → Bool) (es : List (κ × ν)) :
    (ofList es).filterKeys p = ofList (es.filter fun e => p e.1) :=
  filterKeys_foldl_insert p es empty

theorem keys_erase (t : Table κ ν) (k : κ) :
    (t.erase k).keys = t.keys.filter fun k' => decide (k' ≠ k) := by
  simp only [keys, erase, filterKeys, List.filter_map]
  rfl

/-- Tables that agree but for a key say the same of every other key. -/
theorem get?_of_erase_eq {t t' : Table κ ν} {k k' : κ} (h : t.erase k = t'.erase k) (hk : k' ≠ k) :
    t.get? k' = t'.get? k' := by
  have hsame := congrArg (·.get? k') h
  simpa only [erase, get?_filterKeys, hk, ne_eq, not_false_eq_true, decide_true, if_true] using hsame

end Decompilation.Table
