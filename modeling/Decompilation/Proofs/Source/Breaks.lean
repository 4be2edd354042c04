import Decompilation.Proofs.Service.Units
import Decompilation.Proofs.Source.Chunk
import Decompilation.Proofs.Source.Header
import Decompilation.Proofs.Text.Blank
import Decompilation.Proofs.Text.Utf8

/-!
# Texts without carriage returns

A text that was read from a file has newlines for all line ends, and so has what is made of it: the
texts of its units and types as they are written (`return_not_mem_renderUnit`). Such a text is read back
from its bytes (`unifyBreaks_decodeLenient`).
-/

namespace Decompilation

namespace Text

variable {s : List Char}

/-- A text without carriage returns is read back from its bytes. -/
theorem unifyBreaks_decodeLenient (h : '\r' ∉ s) :
    unifyBreaks (Utf8.decodeLenient (Utf8.encode s)) = s := by
  rw [Utf8.decodeLenient_encode, unifyBreaks_of_not_mem h]

end Text

namespace Source

open Text

variable {text region body : List Char} {n : String} {p : Partition} {c : Char}

/-! ## Units -/

/-- The units of a partition have no characters but those of a text and newlines. -/
def Partition.Of (text : List Char) (p : Partition) : Prop :=
  ∀ n body, p.units.get? n = some body → ∀ c ∈ body, c ∈ text ∨ c = '\n'

theorem Partition.Of.add (h : p.Of text) (hregion : region ⊆ text) (n : String) :
    (p.add n region).Of text := by
  intro n' body hbody c hc
  rw [Partition.add, Table.get?_insert] at hbody
  split at hbody
  · obtain rfl := Option.some.inj hbody
    rcases List.mem_append.1 hc with hc | hc
    · rcases List.mem_append.1 hc with hc | hc
      · cases hold : p.units.get? n with
        | none =>
          rw [hold] at hc
          cases hc
        | some old =>
          rw [hold] at hc
          exact h n old hold c hc
      · exact .inl (hregion (trim_subset region hc))
    · exact .inr (List.mem_singleton.1 hc)
  · exact h n' body hbody c hc

theorem Partition.Of.addGlobal (h : p.Of text) (hregion : region ⊆ text) :
    (p.addGlobal region).Of text := by
  unfold Partition.addGlobal
  split
  · exact h
  · exact h.add hregion globalName

theorem fileRegion_subset (text : List Char) (t : Token) (next : Option Token) :
    (fileRegion text t next).1 ⊆ text :=
  slice_subset _ _ _

theorem blockRegion?_subset {t : Token} {stop : Int} (h : blockRegion? text t = some (region, stop)) :
    region ⊆ text := by
  obtain ⟨brace, -, hregion⟩ := Option.map_eq_some_iff.1 h
  dsimp only at hregion
  split at hregion
  · cases hregion
    exact List.Subset.trans (List.take_subset _ _) (List.drop_subset _ _)
  · cases hregion
    exact List.drop_subset _ _

theorem Partition.Of.consume (h : p.Of text) (cursor : Int) (ts : List Token) :
    (consume text cursor p ts).2.Of text := by
  induction ts generalizing cursor p with
  | nil => exact h
  | cons t ts ih =>
    rw [Source.consume]
    split
    · exact ih h _
    · split
      · exact ih (Partition.Of.add (p := p.note t) h (fileRegion_subset _ _ _) _) _
      · split
        · exact ih (p := p.note t) h _
        · rename_i hregion
          exact ih (Partition.Of.add (p := p.note t) h (blockRegion?_subset hregion) _) _

theorem of_partitionBy (text : List Char) (ts : List Token) : (partitionBy text ts).Of text := by
  have hempty : Partition.empty.Of text := by
    intro n body hbody
    cases hbody
  cases ts with
  | nil =>
    intro n body hbody c hc
    rw [partitionBy, Table.get?_insert] at hbody
    split at hbody
    · obtain rfl := Option.some.inj hbody
      exact .inl (trim_subset text hc)
    · cases hbody
  | cons t ts =>
    have hfirst : (Partition.empty.addGlobal (if 0 < t.offset then slice text 0 t.offset else [])).Of
        text := by
      refine hempty.addGlobal ?_
      split
      · exact slice_subset _ _ _
      · exact List.nil_subset _
    rw [partitionBy]
    generalize Partition.empty.addGlobal (if 0 < t.offset then slice text 0 t.offset else []) = first
      at hfirst
    dsimp only
    split
    · exact (hfirst.consume 0 _).addGlobal (List.drop_subset _ _)
    · exact hfirst.consume 0 _

theorem mem_of_mem_unit (h : (n, body) ∈ (divide text).units.toList) (hc : c ∈ body) :
    c ∈ text ∨ c = '\n' :=
  of_partitionBy text _ n body (Table.get?_eq_some_iff.2 h) c hc

/-! ## Types -/

theorem typeChunks_subset {lineStart : Bool} {chunk : String × List Char}
    (h : chunk ∈ typeChunks lineStart text) : chunk.2 ⊆ text := by
  obtain ⟨t, hsuffix, -, n, heq⟩ := exists_of_mem_typeChunks h
  rw [heq]
  exact List.Subset.trans (trim_subset _) (List.Subset.trans (List.take_subset _ _) hsuffix.subset)

theorem mem_of_mem_splitTypes {code : List Char} (h : (n, code) ∈ (splitTypes body).toList)
    (hc : c ∈ code) : c ∈ body ∨ c = '\n' := by
  have hcode := Table.get?_eq_some_iff.2 h
  rw [splitTypes, get?_foldl_addType] at hcode
  dsimp only at hcode
  split at hcode
  · cases hcode
  · obtain rfl := Option.some.inj hcode
    rcases mem_joinWith hc with hc | ⟨piece, hpiece, hc⟩
    · exact .inr (by simpa using hc)
    · rw [Table.get?_empty, Option.toList_none, List.nil_append] at hpiece
      obtain ⟨chunk, hchunk, rfl⟩ := List.mem_map.1 hpiece
      exact .inl (typeChunks_subset (List.mem_filter.1 hchunk).1 hc)

/-! ## Units as they are written -/

theorem return_not_mem_header (text : List Char) : '\r' ∉ header text := by
  intro hc
  rw [header_eq] at hc
  rcases mem_joinWith hc with hc | ⟨line, hline, hc⟩
  · exact absurd hc (by decide)
  · exact absurd ((of_mem_directives hline).2.1 _ hc) (by decide)

theorem return_not_mem_wrap (hname : '\r' ∉ n.toList) (hbody : '\r' ∉ body) (form : Form) :
    '\r' ∉ wrap n form body := by
  have happend : ∀ {a b : List Char}, '\r' ∉ a → '\r' ∉ b → '\r' ∉ a ++ b := fun ha hb hc =>
    (List.mem_append.1 hc).elim ha hb
  have hword : '\r' ∉ "namespace ".toList := by decide
  cases form with
  | block =>
    have hopen : '\r' ∉ "\n\x7b\n".toList := by decide
    have hclose : '\r' ∉ "\n\x7d".toList := by decide
    exact happend (happend (happend (happend hword hname) hopen) hbody) hclose
  | fileScoped =>
    have hend : '\r' ∉ ";\n\n".toList := by decide
    exact happend (happend (happend hword hname) hend) hbody

theorem return_not_mem_renderUnit (hn : n ∈ (divide text).units.keys) (hbody : '\r' ∉ body) :
    '\r' ∉ (divide text).renderUnit n body := by
  have htrim : '\r' ∉ trim body := fun hc => hbody (trim_subset body hc)
  have hname : n ≠ globalName → '\r' ∉ n.toList := by
    intro hne
    have hplain : Project.plainName n = n.toList := if_neg hne
    rw [← hplain]
    exact (Service.isUnitName_of_mem_keys hn).not_mem rfl
  rw [Division.renderUnit, render, List.mem_append, not_or]
  refine ⟨fun hc => ?_, by decide⟩
  rcases mem_joinWith hc with hc | ⟨piece, hpiece, hc⟩
  · exact absurd hc (by decide)
  rcases List.mem_append.1 hpiece with hpiece | hpiece
  · split at hpiece
    · cases hpiece
    · rw [List.mem_singleton.1 hpiece] at hc
      exact return_not_mem_header text hc
  · split at hpiece
    · split at hpiece
      · cases hpiece
      · rw [List.mem_singleton.1 hpiece] at hc
        exact htrim hc
    · rename_i hne
      rw [List.mem_singleton.1 hpiece] at hc
      exact return_not_mem_wrap (hname hne) htrim _ hc

end Source

end Decompilation
