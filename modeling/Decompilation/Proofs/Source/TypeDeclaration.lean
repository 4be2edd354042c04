import Decompilation.Proofs.Source.TypeHead
import Decompilation.Proofs.Table

/-!
# The names of types

Types are named by words (`isWord_of_mem_splitTypes`), and no name is empty
(`start_of_mem_splitTypes`).
-/

namespace Decompilation.Source

open Text

variable {s rest : List Char} {name : String}

theorem isWord_of_typeHead? (h : typeHead? s = some (name, rest)) :
    ∀ c ∈ name.toList, isWord c = true := by
  obtain ⟨head, tail, -, rfl, -⟩ := typeHead?_eq_some_iff.1 h
  rw [String.toList_ofList]
  exact head.name_word

theorem start_of_typeHead? (h : typeHead? s = some (name, rest)) :
    name.toList.head?.any isNameStart = true := by
  obtain ⟨head, tail, -, rfl, -⟩ := typeHead?_eq_some_iff.1 h
  rw [String.toList_ofList]
  exact head.name_start

/-- A head is not empty, and what is behind it is the rest of the text. -/
theorem exists_of_typeHead? (h : typeHead? s = some (name, rest)) :
    ∃ head, head ≠ [] ∧ s = head ++ rest := by
  obtain ⟨head, tail, hs, -, rfl⟩ := typeHead?_eq_some_iff.1 h
  obtain ⟨parameters, htail⟩ := behindParameters_suffix tail
  obtain ⟨front, c, htext, -⟩ := head.exists_last
  exact ⟨head.pad ++ (head.text ++ parameters), by simp [htext],
    by rw [hs.eq, List.append_assoc, List.append_assoc, htail]⟩

/-! ## Declarations one after the other -/

/-- How much of a text is left out behind its first character where a declaration is taken. -/
theorem chunkLength_eq {c : Char} {r head : List Char} (hcut : c :: r = head ++ rest)
    (hne : head ≠ []) :
    r.length - rest.length + bodyLength rest + 1 = head.length + bodyLength rest := by
  have hlen := congrArg List.length hcut
  have hpos := List.length_pos_iff.2 hne
  simp only [List.length_cons, List.length_append] at hlen
  omega

/-- A head at the start of a line is taken together with what belongs to its declaration. -/
theorem typeChunks_of_head {head : List Char} (hhead : typeHead? (head ++ rest) = some (name, rest))
    (hne : head ≠ []) : typeChunks true (head ++ rest) =
      (name, trim (head ++ rest.take (bodyLength rest))) ::
        typeChunks false (rest.drop (bodyLength rest)) := by
  obtain ⟨c, r, hcut⟩ : ∃ c r, head ++ rest = c :: r :=
    List.exists_cons_of_ne_nil (by simp [hne])
  have hlen := chunkLength_eq hcut.symm hne
  rw [hcut] at hhead
  rw [hcut, typeChunks, if_pos rfl, hhead]
  dsimp only
  rw [← List.drop_succ_cons (a := c), hlen, ← hcut, List.take_length_add_append,
    List.drop_length_add_append]

/-- Every declaration has a head, and its text is found behind the start of that head. -/
theorem exists_of_mem_typeChunks {lineStart : Bool} {chunk : String × List Char}
    (h : chunk ∈ typeChunks lineStart s) : ∃ t, t <:+ s ∧
      (∃ rest, typeHead? t = some (chunk.1, rest)) ∧ ∃ n, chunk.2 = trim (t.take n) := by
  induction lineStart, s using typeChunks.induct with
  | case1 lineStart => simp [typeChunks] at h
  | case2 lineStart c r name rest hhead n ih =>
    rw [dite_eq_ite] at hhead
    rw [typeChunks, hhead] at h
    rcases List.mem_cons.1 h with rfl | h
    · refine ⟨c :: r, List.suffix_refl _, ⟨rest, ?_⟩, _, rfl⟩
      split at hhead
      · exact hhead
      · cases hhead
    · obtain ⟨t, hsuffix, hchunk⟩ := ih h
      exact ⟨t, hsuffix.trans ((List.drop_suffix _ _).trans (List.suffix_cons ..)), hchunk⟩
  | case3 lineStart c r hhead ih =>
    rw [dite_eq_ite] at hhead
    rw [typeChunks, hhead] at h
    obtain ⟨t, hsuffix, hchunk⟩ := ih h
    exact ⟨t, hsuffix.trans (List.suffix_cons ..), hchunk⟩

theorem keys_foldl_addType (chunks : List (String × List Char)) (t : Table String (List Char)) :
    (chunks.foldl addType t).keys =
      t.keys ++ ((chunks.map Prod.fst).filter fun n => n ∉ t.keys).eraseDups :=
  Table.keys_foldl_insert Prod.fst _ chunks t

theorem keys_splitTypes (body : List Char) :
    (splitTypes body).keys = ((typeChunks true body).map Prod.fst).eraseDups := by
  rw [splitTypes, keys_foldl_addType, Table.keys_empty, List.nil_append,
    List.filter_eq_self.2 fun n _ => decide_eq_true List.not_mem_nil]

theorem exists_head_of_mem_splitTypes {body : List Char} (h : name ∈ (splitTypes body).keys) :
    ∃ t rest, typeHead? t = some (name, rest) := by
  rw [keys_splitTypes, List.mem_eraseDups] at h
  obtain ⟨chunk, hchunk, rfl⟩ := List.mem_map.1 h
  obtain ⟨t, -, ⟨rest, hhead⟩, -⟩ := exists_of_mem_typeChunks hchunk
  exact ⟨t, rest, hhead⟩

/-- The types of a unit are named by words. -/
theorem isWord_of_mem_splitTypes {body : List Char} (h : name ∈ (splitTypes body).keys) :
    ∀ c ∈ name.toList, isWord c = true := by
  obtain ⟨t, rest, hhead⟩ := exists_head_of_mem_splitTypes h
  exact isWord_of_typeHead? hhead

/-- The name of a type starts like a name, so there is no empty one. -/
theorem start_of_mem_splitTypes {body : List Char} (h : name ∈ (splitTypes body).keys) :
    name.toList.head?.any isNameStart = true := by
  obtain ⟨t, rest, hhead⟩ := exists_head_of_mem_splitTypes h
  exact start_of_typeHead? hhead

end Decompilation.Source
