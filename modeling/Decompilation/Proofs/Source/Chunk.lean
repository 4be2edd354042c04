import Mathlib.Data.List.Infix
import Decompilation.Proofs.Source.Delimiter
import Decompilation.Proofs.Source.TypeDeclaration
import Decompilation.Proofs.Source.Word
import Decompilation.Proofs.Text.Search
import Decompilation.Text.Lines

/-!
# Where the declarations of types lie

`splitTypes` cuts chunks out of a text, each from a line start at which a type's head matches to
where its declaration ends (`Chunk.Lies`). The chunks follow each other without overlap, and no head
that starts a line is left outside of them (`splitTypes_keeps_declarations`).
-/

namespace Decompilation.Source

open Text

variable {s rest : List Char} {name : String}

/-! ## What is read behind a head -/

/-- How far a declaration goes behind its head, where `after` is behind the declaration. -/
inductive Extends : List Char → List Char → Prop
  /-- A brace comes before any semicolon, and the declaration ends with its partner. -/
  | block {front inner after : List Char} (brace : '{' ∉ front) (semicolon : ';' ∉ front)
      (balanced : Balanced inner) : Extends (front ++ '{' :: (inner ++ '}' :: after)) after
  /-- The brace is never closed, and the declaration goes to the end. -/
  | unclosed {front inner : List Char} (brace : '{' ∉ front) (semicolon : ';' ∉ front)
      (within : Within '{' '}' 0 inner) : Extends (front ++ '{' :: inner) []
  /-- A semicolon comes before any brace, and the declaration ends with it. -/
  | statement {front after : List Char} (brace : '{' ∉ front) (semicolon : ';' ∉ front) :
      Extends (front ++ ';' :: after) after
  /-- There is neither, and the declaration goes to the end. -/
  | bare {rest : List Char} (brace : '{' ∉ rest) (semicolon : ';' ∉ rest) : Extends rest []

/-- A text up to its first brace or semicolon, if it has any. -/
theorem exists_first_mark (s : List Char) : ('{' ∉ s ∧ ';' ∉ s) ∨
    ∃ front c r, s = front ++ c :: r ∧ (c = '{' ∨ c = ';') ∧ '{' ∉ front ∧ ';' ∉ front := by
  induction s with
  | nil => simp
  | cons c s ih =>
    by_cases hc : c = '{' ∨ c = ';'
    · exact .inr ⟨[], c, s, rfl, hc, by simp, by simp⟩
    · rw [not_or] at hc
      rcases ih with ⟨hb, hs⟩ | ⟨front, d, r, rfl, hd, hb, hs⟩
      · exact .inl ⟨by simp [hb, Ne.symm hc.1], by simp [hs, Ne.symm hc.2]⟩
      · exact .inr ⟨c :: front, d, r, rfl, hd, by simp [hb, Ne.symm hc.1],
          by simp [hs, Ne.symm hc.2]⟩

theorem bodyLength_brace {front : List Char} (hb : '{' ∉ front) (hs : ';' ∉ front) (r : List Char) :
    bodyLength (front ++ '{' :: r) =
      ((closingBrace? r).map (front.length + 1 + ·)).getD (front ++ '{' :: r).length := by
  have hbrace : find? '{' (front ++ '{' :: r) = some front.length := find?_append_cons hb r
  have hdrop : (front ++ '{' :: r).drop (front.length + 1) = r := by
    rw [← List.drop_drop, List.drop_left, List.drop_one, List.tail_cons]
  have hsemi : find? ';' (front ++ '{' :: r) =
      (find? ';' r).map fun n => front.length + (n + 1) := by
    rw [find?_append_of_not_mem hs, find?, List.findIdx?_cons, if_neg (by decide), Option.map_map]
    rfl
  simp only [bodyLength, hbrace, hsemi]
  cases find? ';' r with
  | none =>
    simp only [Option.map_none, hdrop]
    cases closingBrace? r <;> rfl
  | some n =>
    have hlt : front.length < front.length + (n + 1) := by omega
    simp only [Option.map_some, hdrop, if_pos hlt]
    cases closingBrace? r <;> rfl

theorem bodyLength_semicolon {front : List Char} (hb : '{' ∉ front) (hs : ';' ∉ front)
    (r : List Char) : bodyLength (front ++ ';' :: r) = front.length + 1 := by
  have hsemi : find? ';' (front ++ ';' :: r) = some front.length := find?_append_cons hs r
  have hbrace : find? '{' (front ++ ';' :: r) =
      (find? '{' r).map fun n => front.length + (n + 1) := by
    rw [find?_append_of_not_mem hb, find?, List.findIdx?_cons, if_neg (by decide), Option.map_map]
    rfl
  simp only [bodyLength, hbrace, hsemi]
  cases find? '{' r with
  | none => rfl
  | some n =>
    have hle : ¬ front.length + (n + 1) < front.length := by omega
    simp only [Option.map_some, if_neg hle]

theorem bodyLength_bare (hb : '{' ∉ s) (hs : ';' ∉ s) : bodyLength s = s.length := by
  simp only [bodyLength, find?_eq_none_iff.2 hb, find?_eq_none_iff.2 hs]

theorem extends_bodyLength (rest : List Char) : bodyLength rest ≤ rest.length ∧
    Extends rest (rest.drop (bodyLength rest)) := by
  rcases exists_first_mark rest with ⟨hb, hs⟩ | ⟨front, c, r, rfl, rfl | rfl, hb, hs⟩
  · rw [bodyLength_bare hb hs, List.drop_length]
    exact ⟨Nat.le_refl _, .bare hb hs⟩
  · rw [bodyLength_brace hb hs]
    cases hclose : closingBrace? r with
    | none =>
      rw [Option.map_none, Option.getD_none, List.drop_length]
      exact ⟨Nat.le_refl _, .unclosed hb hs (closingBrace?_eq_none_iff.1 hclose)⟩
    | some n =>
      obtain ⟨inner, after, rfl, rfl, hbalanced⟩ := closingBrace?_eq_some_iff.1 hclose
      have hcut : front ++ '{' :: (inner ++ '}' :: after) =
          (front ++ '{' :: (inner ++ ['}'])) ++ after := by simp
      have hlen : front.length + 1 + (inner.length + 1) =
          (front ++ '{' :: (inner ++ ['}'])).length := by
        simp only [List.length_append, List.length_cons, List.length_nil]
        omega
      rw [Option.map_some, Option.getD_some, hlen, hcut]
      refine ⟨(List.prefix_append _ _).length_le, ?_⟩
      rw [List.drop_left, ← hcut]
      exact .block hb hs hbalanced
  · have hcut : front ++ ';' :: r = (front ++ [';']) ++ r := by simp
    have hlen : front.length + 1 = (front ++ [';']).length := by simp
    rw [bodyLength_semicolon hb hs, hlen, hcut]
    refine ⟨(List.prefix_append _ _).length_le, ?_⟩
    rw [List.drop_left, ← hcut]
    exact .statement hb hs

/-- Behind a declaration no line starts at once: a brace or a semicolon stands there. -/
theorem Extends.of_cons {c : Char} {after : List Char} (h : Extends rest (c :: after)) :
    ∃ front d, rest = front ++ d :: c :: after ∧ d ≠ '\n' := by
  cases h with
  | @block front inner => exact ⟨front ++ '{' :: inner, '}', by simp, by decide⟩
  | @statement front => exact ⟨front, ';', rfl, by decide⟩

/-! ## Chunks -/

/-- A line starts at an offset of a text: at its start, and behind every newline. -/
def StartsLine (text : List Char) (i : Nat) : Prop := i = 0 ∨ ∃ j, i = j + 1 ∧ text[j]? = some '\n'

/-- What a declaration takes of a text, by offsets, and the name that it declares. -/
structure Chunk where
  start : Nat
  stop : Nat
  name : String
  deriving DecidableEq

namespace Chunk

/-- The text of a chunk. -/
def text (s : List Char) (c : Chunk) : List Char := (s.drop c.start).take (c.stop - c.start)

/-- A chunk starts where a head starts a line, and it stops where the declaration ends. -/
structure Lies (text : List Char) (c : Chunk) : Prop where
  line : StartsLine text c.start
  /-- The head is not empty, and the declaration goes on from behind it to the end of the chunk. -/
  declares : ∃ head rest, typeHead? (text.drop c.start) = some (c.name, rest) ∧ head ≠ [] ∧
    text.drop c.start = head ++ rest ∧ Extends rest (text.drop c.stop)
  start_lt_stop : c.start < c.stop
  stop_le : c.stop ≤ text.length

/-- An offset lies in a chunk. -/
def Covers (c : Chunk) (i : Nat) : Prop := c.start ≤ i ∧ i < c.stop

end Chunk

theorem startsLine_append_cons (a : List Char) (c : Char) (b : List Char) :
    StartsLine (a ++ c :: b) (a.length + 1) ↔ c = '\n' := by
  constructor
  · rintro (h | ⟨j, hj, hget⟩)
    · omega
    · obtain rfl : a.length = j := by omega
      simpa using hget
  · rintro rfl
    exact .inr ⟨a.length, rfl, by simp⟩

/-- A chunk that is cut out at a head, and where the text goes on behind it. -/
theorem lies_of_typeHead? {done head : List Char}
    (hline : StartsLine (done ++ (head ++ rest)) done.length)
    (hhead : typeHead? (head ++ rest) = some (name, rest)) (hne : head ≠ []) :
    Chunk.Lies (done ++ (head ++ rest))
      ⟨done.length, done.length + (head.length + bodyLength rest), name⟩ := by
  obtain ⟨hle, hextends⟩ := extends_bodyLength rest
  have hpos := List.length_pos_iff.2 hne
  refine ⟨hline, ⟨head, rest, ?_, hne, ?_, ?_⟩, ?_, ?_⟩
  · rwa [List.drop_left]
  · rw [List.drop_left]
  · rwa [← List.drop_drop, List.drop_left, ← List.drop_drop, List.drop_left]
  · show done.length < done.length + (head.length + bodyLength rest)
    omega
  · show done.length + (head.length + bodyLength rest) ≤ (done ++ (head ++ rest)).length
    rw [List.length_append, List.length_append]
    omega

/-- What ends a declaration is no newline, so no line starts right behind it. -/
theorem not_startsLine_behind {done head : List Char} (hmore : rest.drop (bodyLength rest) ≠ []) :
    ¬ StartsLine (done ++ (head ++ rest)) (done.length + (head.length + bodyLength rest)) := by
  obtain ⟨d, after, hafter⟩ := List.exists_cons_of_ne_nil hmore
  obtain ⟨front, e, hrest, he⟩ := (hafter ▸ (extends_bodyLength rest).2).of_cons
  have hfront : front.length + 1 = bodyLength rest := by
    have h1 := congrArg List.length hafter
    have h2 := congrArg List.length hrest
    simp only [List.length_drop, List.length_append, List.length_cons] at h1 h2
    omega
  have hcut : done ++ (head ++ rest) = (done ++ (head ++ front)) ++ e :: d :: after := by
    rw [hrest]
    simp
  have hlast : done.length + (head.length + bodyLength rest) =
      (done ++ (head ++ front)).length + 1 := by
    rw [List.length_append, List.length_append]
    omega
  rwa [hcut, hlast, startsLine_append_cons]

/-- Chunks that lie behind an offset, follow each other, and cover every line start there at which a
head matches. -/
structure Cuts (text : List Char) (start : Nat) (chunks : List Chunk) : Prop where
  lies : ∀ c ∈ chunks, c.Lies text ∧ start ≤ c.start
  ordered : chunks.Pairwise fun a b => a.stop ≤ b.start
  covers : ∀ i, start ≤ i → StartsLine text i → (typeHead? (text.drop i)).isSome →
    ∃ c ∈ chunks, c.Covers i

namespace Cuts

variable {text : List Char} {start : Nat} {c : Chunk} {chunks : List Chunk}

theorem nil (hend : text.length ≤ start) : Cuts text start [] := by
  refine ⟨by simp, .nil, fun i hi _ hhead => ?_⟩
  rw [List.drop_eq_nil_of_le (Nat.le_trans hend hi)] at hhead
  obtain ⟨⟨name, rest⟩, hsome⟩ := Option.isSome_iff_exists.1 hhead
  obtain ⟨head, hne, hnil⟩ := exists_of_typeHead? hsome
  simp [hne] at hnil

theorem cons (hchunk : c.Lies text) (h : Cuts text c.stop chunks) :
    Cuts text c.start (c :: chunks) := by
  have hlt := hchunk.start_lt_stop
  refine ⟨fun k hk => ?_, List.pairwise_cons.2 ⟨fun k hk => (h.lies k hk).2, h.ordered⟩, ?_⟩
  · rcases List.mem_cons.1 hk with rfl | hk
    · exact ⟨hchunk, Nat.le_refl _⟩
    · exact ⟨(h.lies k hk).1, Nat.le_trans (Nat.le_of_lt hlt) (h.lies k hk).2⟩
  · intro i hi hstarts hsome
    by_cases hinside : i < c.stop
    · exact ⟨c, List.mem_cons_self .., hi, hinside⟩
    · obtain ⟨k, hk, hcovers⟩ := h.covers i (Nat.le_of_not_lt hinside) hstarts hsome
      exact ⟨k, List.mem_cons_of_mem _ hk, hcovers⟩

theorem skip (hnone : StartsLine text start → typeHead? (text.drop start) = none)
    (h : Cuts text (start + 1) chunks) : Cuts text start chunks := by
  refine ⟨fun k hk => ⟨(h.lies k hk).1, Nat.le_of_succ_le (h.lies k hk).2⟩, h.ordered, ?_⟩
  intro i hi hstarts hsome
  rcases Nat.eq_or_lt_of_le hi with rfl | hlt
  · rw [hnone hstarts] at hsome
    cases hsome
  · exact h.covers i hlt hstarts hsome

end Cuts

/-- The chunk that is cut out at a head behind `done`, and what is left of the text behind it. -/
theorem exists_chunk_of_typeHead? {text done head : List Char} (htext : text = done ++ (head ++ rest))
    (hline : StartsLine text done.length) (hhead : typeHead? (head ++ rest) = some (name, rest))
    (hne : head ≠ []) : ∃ c : Chunk, c.Lies text ∧ c.start = done.length ∧ c.name = name ∧
      c.text text = head ++ rest.take (bodyLength rest) ∧
      c.stop = (done ++ c.text text).length ∧
      text = (done ++ c.text text) ++ rest.drop (bodyLength rest) ∧
      (rest.drop (bodyLength rest) ≠ [] → ¬ StartsLine text c.stop) := by
  set c : Chunk := ⟨done.length, done.length + (head.length + bodyLength rest), name⟩
  have hcode : c.text text = head ++ rest.take (bodyLength rest) := by
    rw [Chunk.text, htext, List.drop_left, Nat.add_sub_cancel_left, List.take_length_add_append]
  refine ⟨c, htext ▸ lies_of_typeHead? (htext ▸ hline) hhead hne, rfl, rfl, hcode, ?_, ?_, ?_⟩
  · rw [hcode, List.length_append, List.length_append,
      List.length_take_of_le (extends_bodyLength rest).1]
  · rw [hcode, htext, List.append_assoc, List.append_assoc, List.take_append_drop]
  · exact htext ▸ not_startsLine_behind

theorem exists_chunks {lineStart : Bool} {text done : List Char} (htext : text = done ++ s)
    (hline : s ≠ [] → (lineStart = true ↔ StartsLine text done.length)) :
    ∃ chunks : List Chunk,
      typeChunks lineStart s = chunks.map (fun c => (c.name, trim (c.text text))) ∧
      Cuts text done.length chunks := by
  induction lineStart, s using typeChunks.induct generalizing done with
  | case1 lineStart =>
    refine ⟨[], by rw [typeChunks]; rfl, .nil ?_⟩
    rw [htext, List.append_nil]
  | case2 lineStart c r name rest hhead =>
    rename_i n ih
    rw [dite_eq_ite] at hhead
    obtain ⟨hstart, hsome⟩ : lineStart = true ∧ typeHead? (c :: r) = some (name, rest) := by
      split at hhead
      · exact ⟨‹_›, hhead⟩
      · cases hhead
    obtain ⟨head, hne, hcut⟩ := exists_of_typeHead? hsome
    have hbehind : r.drop n = rest.drop (bodyLength rest) := by
      rw [← List.drop_succ_cons (a := c), chunkLength_eq hcut hne, hcut, List.drop_length_add_append]
    rw [hbehind] at ih
    rw [hcut] at hsome hline htext ⊢
    obtain ⟨chunk, hlies, hat, rfl, hcode, hstop, hrest, hmore⟩ :=
      exists_chunk_of_typeHead? htext ((hline (by simp [hne])).1 hstart) hsome hne
    obtain ⟨chunks, hchunks, hcuts⟩ := ih hrest fun hnonempty =>
      iff_of_false Bool.false_ne_true (hstop ▸ hmore hnonempty)
    refine ⟨chunk :: chunks, ?_, hat ▸ .cons hlies (hstop ▸ hcuts)⟩
    rw [hstart, typeChunks_of_head hsome hne, hchunks, List.map_cons, hcode]
  | case3 lineStart c r hhead ih =>
    rw [dite_eq_ite] at hhead
    have htext' : text = (done ++ [c]) ++ r := by rw [htext]; simp
    have hlen : (done ++ [c]).length = done.length + 1 := by simp
    obtain ⟨chunks, hchunks, hcuts⟩ := ih htext' fun _ => by
      rw [hlen, htext, startsLine_append_cons]
      simp
    refine ⟨chunks, ?_, .skip (fun hstarts => ?_) (hlen ▸ hcuts)⟩
    · rw [typeChunks, hhead]
      exact hchunks
    · -- a line that starts here has no head, or a chunk would start here
      rw [if_pos ((hline (by simp)).2 hstarts)] at hhead
      rwa [htext, List.drop_left]

/-- Chunks that follow each other do not overlap. -/
theorem Chunk.covers_unique {chunks : List Chunk} (hordered : chunks.Pairwise fun a b => a.stop ≤ b.start)
    {c d : Chunk} {i : Nat} (hc : c ∈ chunks) (hd : d ∈ chunks) (hci : c.Covers i)
    (hdi : d.Covers i) : c = d := by
  induction chunks with
  | nil => cases hc
  | cons e chunks ih =>
    obtain ⟨hfirst, hrest⟩ := List.pairwise_cons.1 hordered
    obtain ⟨hc1, hc2⟩ := hci
    obtain ⟨hd1, hd2⟩ := hdi
    rcases List.mem_cons.1 hc with rfl | hc'
    · rcases List.mem_cons.1 hd with rfl | hd'
      · rfl
      · have := hfirst d hd'
        omega
    · rcases List.mem_cons.1 hd with rfl | hd'
      · have := hfirst c hc'
        omega
      · exact ih hrest hc' hd'

/-! ## Chunks of one name -/

theorem joinWith_cons_cons (sep p q : List Char) (ps : List (List Char)) :
    joinWith sep (p :: q :: ps) = joinWith sep ((p ++ sep ++ q) :: ps) := by
  cases ps with
  | nil => simp [joinWith]
  | cons r ps => simp [joinWith]

/-- The texts of one name are put together in order, whatever stands between them. -/
theorem get?_foldl_addType (l : List (String × List Char)) (t : Table String (List Char))
    (n : String) : (l.foldl addType t).get? n =
      let codes := (t.get? n).toList ++ (l.filter fun e => e.1 = n).map Prod.snd
      if codes = [] then none else some (joinWith ['\n', '\n'] codes) := by
  induction l generalizing t with
  | nil => cases h : t.get? n <;> simp [h, joinWith]
  | cons e l ih =>
    rw [List.foldl_cons, ih, addType, Table.get?_insert]
    by_cases he : e.1 = n
    · subst he
      cases t.get? e.1 with
      | none => simp
      | some code => simp [joinWith_cons_cons]
    · have hskip : (e :: l).filter (fun e => e.1 = n) = l.filter fun e => e.1 = n :=
        List.filter_cons_of_neg (by simpa using he)
      rw [if_neg (Ne.symm he), hskip]

/-- **No declaration of a type is lost, and none is taken twice.** A text is cut at chunks that
follow each other, each from a line start at which a head matches to where the declaration ends, and
every line start at which a head matches lies in exactly one of them. The types are the names of the
chunks in the order of their first appearance, and the code of a type is the texts of its chunks,
each trimmed, with an empty line between them. -/
theorem splitTypes_keeps_declarations (body : List Char) : ∃ chunks : List Chunk,
    (∀ c ∈ chunks, c.Lies body) ∧
    chunks.Pairwise (fun a b => a.stop ≤ b.start) ∧
    (∀ i, StartsLine body i → (typeHead? (body.drop i)).isSome →
      ∃! c, c ∈ chunks ∧ c.Covers i) ∧
    (splitTypes body).keys = (chunks.map Chunk.name).eraseDups ∧
    ∀ n ∈ (splitTypes body).keys, (splitTypes body).get? n = some (joinWith ['\n', '\n']
      ((chunks.filter fun c => c.name = n).map fun c => trim (c.text body))) := by
  obtain ⟨chunks, hchunks, hlies, hordered, hcover⟩ :=
    exists_chunks (List.nil_append body).symm
      (show body ≠ [] → (true = true ↔ StartsLine body 0) from fun _ => by simp [StartsLine])
  have hkeys : (splitTypes body).keys = (chunks.map Chunk.name).eraseDups := by
    rw [keys_splitTypes, hchunks, List.map_map]
    rfl
  refine ⟨chunks, fun c hc => (hlies c hc).1, hordered, fun i hstarts hhead => ?_, hkeys, ?_⟩
  · obtain ⟨c, hc, hcovers⟩ := hcover i (Nat.zero_le i) hstarts hhead
    exact ⟨c, ⟨hc, hcovers⟩, fun d hd => Chunk.covers_unique hordered hd.1 hc hd.2 hcovers⟩
  · intro n hn
    rw [hkeys, List.mem_eraseDups] at hn
    obtain ⟨c, hc, hname⟩ := List.mem_map.1 hn
    have hcodes : ((typeChunks true body).filter fun e => e.1 = n).map Prod.snd =
        (chunks.filter fun c => c.name = n).map fun c => trim (c.text body) := by
      rw [hchunks, List.filter_map, List.map_map]
      rfl
    have hne : (chunks.filter fun c => c.name = n).map (fun c => trim (c.text body)) ≠ [] := by
      simpa using ⟨c, hc, hname⟩
    rw [splitTypes, get?_foldl_addType, hcodes]
    exact if_neg hne

/-- Two parts of one type with another type between them, one nested in it, and a type that is never
closed. -/
example : (splitTypes ("class A \x7b\n class N \x7b \x7d\n\x7d\nrecord B(int x);\nx\n" ++
    "partial class A<T> \x7b \x7d\nenum E \x7b a").toList).toList =
    [("A", "class A \x7b\n class N \x7b \x7d\n\x7d\n\npartial class A<T> \x7b \x7d".toList),
      ("B", "record B(int x);".toList), ("E", "enum E \x7b a".toList)] := by
  decide +kernel

end Decompilation.Source
