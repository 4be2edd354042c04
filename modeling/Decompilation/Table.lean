/-!
# Tables in order of insertion

A table maps keys to values and remembers the order in which its keys were first put. Putting a key
again replaces its value and keeps its place; a key is never listed twice.
-/

namespace Decompilation

/-- Pairs of keys and values with pairwise different keys, in order of insertion. -/
structure Table (κ ν : Type) where
  entries : List (κ × ν)
  nodup : (entries.map Prod.fst).Nodup
  deriving DecidableEq

namespace Table

variable {κ ν : Type} [DecidableEq κ]

/-- The value of the first pair with a key. -/
def find? (k : κ) : List (κ × ν) → Option ν
  | [] => none
  | e :: es => if e.1 = k then some e.2 else find? k es

/-- Pairs with a value put for a key: in place if the key is there, at the end if not. -/
def put (k : κ) (v : ν) : List (κ × ν) → List (κ × ν)
  | [] => [(k, v)]
  | e :: es => if e.1 = k then (k, v) :: es else e :: put k v es

theorem mem_keys_put {k k' : κ} {v : ν} {es : List (κ × ν)} :
    k' ∈ (put k v es).map Prod.fst ↔ k' = k ∨ k' ∈ es.map Prod.fst := by
  induction es with
  | nil => simp [put]
  | cons e es ih =>
    by_cases h : e.1 = k
    · simp [put, h]
    · simp only [put, if_neg h, List.map_cons, List.mem_cons, ih]
      constructor
      · rintro (h | h | h) <;> simp [h]
      · rintro (h | h | h) <;> simp [h]

theorem nodup_put {k : κ} {v : ν} {es : List (κ × ν)} (h : (es.map Prod.fst).Nodup) :
    ((put k v es).map Prod.fst).Nodup := by
  induction es with
  | nil => simp [put]
  | cons e es ih =>
    obtain ⟨h1, h2⟩ := List.nodup_cons.1 h
    by_cases he : e.1 = k
    · simpa [put, he] using List.nodup_cons.2 ⟨he ▸ h1, h2⟩
    · rw [put, if_neg he]
      refine List.nodup_cons.2 ⟨fun hm => ?_, ih h2⟩
      rcases mem_keys_put.1 hm with hm | hm
      · exact he hm
      · exact h1 hm

theorem find?_put_self {k : κ} {v : ν} (es : List (κ × ν)) : find? k (put k v es) = some v := by
  induction es with
  | nil => simp [put, find?]
  | cons e es ih => by_cases h : e.1 = k <;> simp [put, find?, h, ih]

theorem find?_put_of_ne {k k' : κ} {v : ν} (h : k' ≠ k) (es : List (κ × ν)) :
    find? k' (put k v es) = find? k' es := by
  induction es with
  | nil => simp [put, find?, Ne.symm h]
  | cons e es ih =>
    by_cases he : e.1 = k
    · simp [put, find?, he, Ne.symm h]
    · simp [put, find?, he, ih]

def empty : Table κ ν := ⟨[], List.nodup_nil⟩

instance : EmptyCollection (Table κ ν) := ⟨empty⟩
instance : Inhabited (Table κ ν) := ⟨empty⟩

def toList (t : Table κ ν) : List (κ × ν) := t.entries

def keys (t : Table κ ν) : List κ := t.entries.map Prod.fst

def get? (t : Table κ ν) (k : κ) : Option ν := find? k t.entries

def contains (t : Table κ ν) (k : κ) : Bool := (t.get? k).isSome

/-- The table with a value put for a key. -/
def insert (t : Table κ ν) (k : κ) (v : ν) : Table κ ν := ⟨put k v t.entries, nodup_put t.nodup⟩

/-- The table with a value put for a key that has none yet. -/
def insertNew (t : Table κ ν) (k : κ) (v : ν) : Table κ ν :=
  if t.contains k then t else t.insert k v

/-- The entries whose keys satisfy `p`. -/
def filterKeys (t : Table κ ν) (p : κ → Bool) : Table κ ν :=
  ⟨t.entries.filter (fun e => p e.1),
    t.nodup.sublist (List.filter_sublist.map Prod.fst)⟩

def erase (t : Table κ ν) (k : κ) : Table κ ν := t.filterKeys (fun k' => decide (k' ≠ k))

/-- A table of pairs; of several pairs with one key the last gives the value. -/
def ofList (es : List (κ × ν)) : Table κ ν := es.foldl (fun t e => t.insert e.1 e.2) empty

theorem find?_filter (p : κ → Bool) (k : κ) (es : List (κ × ν)) :
    find? k (es.filter fun e => p e.1) = if p k then find? k es else none := by
  induction es with
  | nil => simp [find?]
  | cons e es ih =>
    by_cases he : e.1 = k
    · subst he
      by_cases hp : p e.1 <;> simp_all [find?]
    · by_cases hp : p e.1 <;> simp [find?, hp, he, ih]

theorem get?_filterKeys (t : Table κ ν) (p : κ → Bool) (k : κ) :
    (t.filterKeys p).get? k = if p k then t.get? k else none :=
  find?_filter p k t.entries

@[simp] theorem get?_insert_self (t : Table κ ν) (k : κ) (v : ν) : (t.insert k v).get? k = some v :=
  find?_put_self t.entries

theorem get?_insert_of_ne (t : Table κ ν) {k k' : κ} (v : ν) (h : k' ≠ k) :
    (t.insert k v).get? k' = t.get? k' :=
  find?_put_of_ne h t.entries

@[simp] theorem get?_empty (k : κ) : (empty : Table κ ν).get? k = none := rfl

omit [DecidableEq κ] in
@[simp] theorem keys_empty : (empty : Table κ ν).keys = [] := rfl

end Table

end Decompilation
