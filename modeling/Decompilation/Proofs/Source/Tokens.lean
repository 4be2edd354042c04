import Mathlib.Data.List.Sort
import Decompilation.Proofs.Source.Declaration

/-!
# The declarations of a text

`DeclaresAt` says that the grammar of declarations matches at an offset of a text. `tokenize` lists
exactly these offsets, in order (`tokenize_lists_declarations`).

The scan jumps behind a declaration's delimiter, and behind a word that declares nothing. So the
places of a text at which the grammar matches are followed along: those of the text behind a jump
are those of the whole text that lie behind it (`declaresAt_append`), and between the start of the
jump and its end there is none. The same holds of a text cut anywhere (`tokensFrom_append`).
-/

namespace Decompilation.Source

open Text

variable {before : Option Char} {s : List Char} {p : Nat} {h : Head}

/-- A declaration with the head `h` stands at offset `p` of a text that follows `before`. -/
def DeclaresAt (before : Option Char) (s : List Char) (p : Nat) (h : Head) : Prop :=
  ∃ front rest, StandsWhole namespaceWord before s front (h.tail ++ rest) ∧ front.length = p

/-- What is declared in a part of a text behind another part is what the text declares there. -/
theorem declaresAt_append (a : List Char) :
    DeclaresAt before (a ++ s) (a.length + p) h ↔ DeclaresAt (lastOr before a) s p h := by
  constructor
  · intro hd
    obtain ⟨front, rest, hstands, hlen⟩ := hd
    have heq := hstands.eq
    rw [List.append_assoc] at heq
    rcases List.append_eq_append_iff.1 heq with ⟨f, rfl, -⟩ | ⟨f, hf, -⟩
    · exact ⟨f, rest, (standsWhole_append a).1 hstands, by simpa using hlen⟩
    · obtain rfl : f = [] := by
        have := congrArg List.length hf
        rw [List.length_append] at this
        exact List.length_eq_zero_iff.1 (by omega)
      obtain rfl : a = front := by simpa using hf
      refine ⟨[], rest, (standsWhole_append a).1 (by simpa using hstands), ?_⟩
      simp only [List.length_nil]
      omega
  · intro hd
    obtain ⟨front, rest, hstands, rfl⟩ := hd
    exact ⟨a ++ front, rest, (standsWhole_append a).2 hstands, by simp⟩

theorem declaresAt_text (front : List Char) (h : Head) (rest : List Char)
    (hleft : (lastOr before front).any isWord = false) :
    DeclaresAt before (front ++ (h.text ++ rest)) front.length h :=
  ⟨front, rest, ⟨by simp [Head.text], hleft, h.tail_head? rest⟩, rfl⟩

theorem DeclaresAt.lt_length (hd : DeclaresAt before s p h) : p < s.length := by
  obtain ⟨front, rest, hstands, rfl⟩ := hd
  rw [hstands.eq]
  simp [namespaceWord]

theorem DeclaresAt.unique {h' : Head} (hd : DeclaresAt before s p h)
    (hd' : DeclaresAt before s p h') : h.name = h'.name ∧ h.form = h'.form := by
  obtain ⟨front, rest, hstands, rfl⟩ := hd
  obtain ⟨front', rest', hstands', hlen⟩ := hd'
  obtain ⟨-, htail⟩ := hstands.tail_eq hstands' hlen.symm
  have := declaration?_tail_append h rest
  rw [htail, declaration?_tail_append] at this
  simp only [Option.some.injEq, Prod.mk.injEq] at this
  exact ⟨this.1.symm, this.2.1.symm⟩

/-! ## The scan -/

theorem not_declaresAt_of_cutAtWord? (hcut : cutAtWord? namespaceWord before s = none) :
    ¬ DeclaresAt before s p h := by
  intro hd
  obtain ⟨front, rest, hstands, -⟩ := hd
  exact not_standsWhole_of_cutAtWord? (by simp [namespaceWord]) hcut hstands

/-- A jump over which no head starts leaves out at most what is declared at its start. -/
theorem declaresAt_jump {gap tail jump behind : List Char}
    (hcut : cutAtWord? namespaceWord before s = some (gap, tail))
    (hjump : namespaceWord ++ tail = jump ++ behind)
    (hskip : ∀ (h : Head) (x rest : List Char), x ≠ [] →
      x ++ (namespaceWord ++ (h.tail ++ rest)) = jump ++ behind → ∃ x', x = jump ++ x') :
    DeclaresAt before s p h ↔ (p = gap.length ∧ ∃ rest, tail = h.tail ++ rest) ∨
      ∃ q, p = (s.length - behind.length) + q ∧
        DeclaresAt (lastOr before (gap ++ jump)) behind q h := by
  obtain ⟨hstands, -⟩ := standsWhole_of_cutAtWord? hcut
  have heq : s = (gap ++ jump) ++ behind := by
    rw [hstands.eq, List.append_assoc, hjump, List.append_assoc]
  have hlen : s.length - behind.length = (gap ++ jump).length := by
    rw [heq, List.length_append, Nat.add_sub_cancel]
  constructor
  · intro hd
    obtain ⟨front, rest, hs, rfl⟩ := hd
    rcases hs.at_or_behind_cut hcut with ⟨rfl, rfl⟩ | ⟨x, hx, rfl, hword⟩
    · exact .inl ⟨rfl, rest, rfl⟩
    · obtain ⟨x', rfl⟩ := hskip h x rest hx (hword.trans hjump)
      refine .inr ⟨x'.length, ?_, ?_⟩
      · rw [hlen, ← List.append_assoc, List.length_append]
      · rw [← declaresAt_append, ← heq]
        exact ⟨_, rest, hs, by rw [← List.append_assoc, List.length_append]⟩
  · rintro (⟨rfl, rest, rfl⟩ | ⟨q, rfl, hd⟩)
    · exact ⟨gap, rest, hstands, rfl⟩
    · rw [hlen, heq]
      exact (declaresAt_append _).2 hd

/-- Behind a first word that declares nothing, everything lies behind that word. -/
theorem declaresAt_behind_word {gap tail : List Char}
    (hcut : cutAtWord? namespaceWord before s = some (gap, tail)) (hdecl : declaration? tail = none) :
    DeclaresAt before s p h ↔
      ∃ q, p = (s.length - tail.length) + q ∧ DeclaresAt namespaceWord.getLast? tail q h := by
  have hlast : lastOr before (gap ++ namespaceWord) = namespaceWord.getLast? := by
    rw [lastOr_append]; rfl
  rw [declaresAt_jump hcut rfl fun h x rest hx heq =>
    (append_namespaceWord_eq hx heq).imp fun _ => And.left, hlast]
  constructor
  · rintro (⟨-, rest, rfl⟩ | hd)
    · rw [declaration?_tail_append] at hdecl
      simp at hdecl
    · exact hd
  · exact .inr

theorem lastOr_text (before : Option Char) (h : Head) :
    lastOr before h.text = some h.form.delimiter := by
  have : h.text = (namespaceWord ++ (h.gap ++ (h.name ++ h.pad))) ++ [h.form.delimiter] := by
    simp [Head.text, Head.tail]
  rw [this, lastOr_concat]

/-- Behind a first word that declares, everything else lies behind the head. -/
theorem declaresAt_behind_head {gap rest : List Char} {h₀ : Head}
    (hcut : cutAtWord? namespaceWord before s = some (gap, h₀.tail ++ rest)) :
    DeclaresAt before s p h ↔ (p = gap.length ∧ ∃ rest', h₀.tail ++ rest = h.tail ++ rest') ∨
      ∃ q, p = (s.length - rest.length) + q ∧ DeclaresAt (some h₀.form.delimiter) rest q h := by
  have hjump : namespaceWord ++ (h₀.tail ++ rest) = h₀.text ++ rest := (List.append_assoc ..).symm
  rw [declaresAt_jump hcut hjump fun h x rest' hx heq =>
    (h₀.append_eq_text h hx heq).imp fun _ => And.left, lastOr_append, lastOr_text]

theorem tokensFrom_of_cut_none {offset : Nat} (hcut : cutAtWord? namespaceWord before s = none) :
    tokensFrom offset before s = [] := by
  rw [tokensFrom]
  split
  · rfl
  · simp_all

theorem tokensFrom_of_word {offset : Nat} {gap tail : List Char}
    (hcut : cutAtWord? namespaceWord before s = some (gap, tail)) (hdecl : declaration? tail = none) :
    tokensFrom offset before s =
      tokensFrom (offset + (s.length - tail.length)) namespaceWord.getLast? tail := by
  conv_lhs => rw [tokensFrom]
  split
  · simp_all
  · split <;> simp_all

theorem tokensFrom_of_head {offset : Nat} {gap rest : List Char} {h : Head}
    (hcut : cutAtWord? namespaceWord before s = some (gap, h.tail ++ rest)) :
    tokensFrom offset before s = h.token (offset + gap.length) ::
      tokensFrom (offset + (s.length - rest.length)) (some h.form.delimiter) rest := by
  have hdecl := declaration?_tail_append h rest
  conv_lhs => rw [tokensFrom]
  split
  · simp_all
  · split <;> simp_all [Head.token]

theorem mem_tokensFrom {offset : Nat} {t : Token} :
    t ∈ tokensFrom offset before s ↔
      ∃ p h, DeclaresAt before s p h ∧ t = h.token (offset + p) := by
  induction offset, before, s using tokensFrom.induct with
  | case1 offset before s hcut =>
    rw [tokensFrom_of_cut_none hcut]
    simp [not_declaresAt_of_cutAtWord? hcut]
  | case2 offset before s gap tail hcut hdecl ih =>
    rw [tokensFrom_of_word hcut hdecl, ih]
    constructor
    · intro hd
      obtain ⟨q, h, hd, rfl⟩ := hd
      exact ⟨_, h, (declaresAt_behind_word hcut hdecl).2 ⟨q, rfl, hd⟩, by rw [Nat.add_assoc]⟩
    · intro hd
      obtain ⟨p, h, hd, rfl⟩ := hd
      obtain ⟨q, rfl, hq⟩ := (declaresAt_behind_word hcut hdecl).1 hd
      exact ⟨q, h, hq, by rw [Nat.add_assoc]⟩
  | case3 offset before s gap tail hcut name form rest hdecl ih =>
    obtain ⟨h₀, rfl, rfl, rfl⟩ := declaration?_eq_some_iff.1 hdecl
    rw [tokensFrom_of_head hcut, List.mem_cons, ih]
    constructor
    · rintro (rfl | ⟨q, h, hd, rfl⟩)
      · exact ⟨gap.length, h₀, (declaresAt_behind_head hcut).2 (.inl ⟨rfl, rest, rfl⟩), rfl⟩
      · exact ⟨_, h, (declaresAt_behind_head hcut).2 (.inr ⟨q, rfl, hd⟩), by rw [Nat.add_assoc]⟩
    · intro hd
      obtain ⟨p, h, hd, rfl⟩ := hd
      rcases (declaresAt_behind_head hcut).1 hd with ⟨rfl, rest', heq⟩ | ⟨q, rfl, hq⟩
      · left
        rw [heq, declaration?_tail_append, Option.some.injEq, Prod.mk.injEq, Prod.mk.injEq] at hdecl
        rw [Head.token, Head.token, hdecl.1, hdecl.2.1]
      · exact .inr ⟨q, h, hq, by rw [Nat.add_assoc]⟩

theorem le_offset_of_mem_tokensFrom {offset : Nat} {t : Token}
    (ht : t ∈ tokensFrom offset before s) : (offset : Int) ≤ t.offset := by
  obtain ⟨p, h, -, rfl⟩ := mem_tokensFrom.1 ht
  simp only [Head.token]
  omega

theorem pairwise_tokensFrom (offset : Nat) (before : Option Char) (s : List Char) :
    (tokensFrom offset before s).Pairwise fun a b => a.offset < b.offset := by
  induction offset, before, s using tokensFrom.induct with
  | case1 offset before s hcut => simp [tokensFrom_of_cut_none hcut]
  | case2 offset before s gap tail hcut hdecl ih => rwa [tokensFrom_of_word hcut hdecl]
  | case3 offset before s gap tail hcut name form rest hdecl ih =>
    obtain ⟨h₀, rfl, rfl, rfl⟩ := declaration?_eq_some_iff.1 hdecl
    rw [tokensFrom_of_head hcut]
    refine List.pairwise_cons.2 ⟨fun t ht => ?_, ih⟩
    have hle := le_offset_of_mem_tokensFrom ht
    have hlen := congrArg List.length (eq_append_of_cutAtWord? hcut)
    simp only [List.length_append, namespaceWord, List.length_cons, List.length_nil] at hlen
    simp only [Head.token]
    omega

/-! ## All declarations, and only they -/

/-- **The tokens of a text are its declarations**: in order of their offsets, one for each offset at
which the grammar matches, and no other. -/
theorem tokenize_lists_declarations (text : List Char) :
    (tokenize text).Pairwise (fun a b => a.offset < b.offset) ∧
    (∀ t, t ∈ tokenize text ↔ ∃ p h, DeclaresAt none text p h ∧ t = h.token p) ∧
    ∀ p : Nat, (∃ h, DeclaresAt none text p h) ↔ ∃! t, t ∈ tokenize text ∧ t.offset = p := by
  have hmem : ∀ t, t ∈ tokenize text ↔ ∃ p h, DeclaresAt none text p h ∧ t = h.token p := by
    intro t
    rw [tokenize, mem_tokensFrom]
    simp only [Nat.zero_add]
  refine ⟨pairwise_tokensFrom 0 none text, hmem, fun p => ⟨?_, ?_⟩⟩
  · intro hex
    obtain ⟨h, hd⟩ := hex
    refine ⟨h.token p, ⟨(hmem _).2 ⟨p, h, hd, rfl⟩, rfl⟩, ?_⟩
    rintro t ⟨ht, hoffset⟩
    obtain ⟨q, h', hd', rfl⟩ := (hmem t).1 ht
    obtain rfl : q = p := Int.ofNat_inj.1 hoffset
    obtain ⟨hname, hform⟩ := hd'.unique hd
    rw [Head.token, Head.token, hname, hform]
  · intro htoken
    obtain ⟨t, ⟨ht, hoffset⟩, -⟩ := htoken
    obtain ⟨q, h, hd, rfl⟩ := (hmem t).1 ht
    obtain rfl : q = p := Int.ofNat_inj.1 hoffset
    exact ⟨h, hd⟩

/-- Words within names, names that are the word itself, and words without a name are passed over. -/
example : tokenize "namespace A.namespace \x7b namespace namespace B; xnamespace C;".toList =
    [⟨0, "A.namespace", .block⟩, ⟨34, "B", .fileScoped⟩] := by cbv

/-! ## Scanning on from anywhere -/

/-- A scan that starts anywhere in a text finds what the scan of the whole text finds there. -/
theorem tokensFrom_append (offset : Nat) (before : Option Char) (a b : List Char) :
    ∃ ts, tokensFrom offset before (a ++ b) =
        ts ++ tokensFrom (offset + a.length) (lastOr before a) b ∧
      ∀ t ∈ ts, t.offset < (offset + a.length : Nat) := by
  let isLess : Token → Token → Prop := fun x y => x.offset < y.offset
  have : Std.Antisymm isLess := ⟨fun x y h h' => absurd h' (by simp only [isLess] at h ⊢; omega)⟩
  have : Std.Irrefl isLess := ⟨fun x => Int.lt_irrefl _⟩
  refine ⟨(tokensFrom offset before (a ++ b)).filter
    fun t => t.offset < (offset + a.length : Nat), ?_, fun t ht => by simpa using List.of_mem_filter ht⟩
  refine List.Pairwise.eq_of_mem_iff (r := isLess) (pairwise_tokensFrom ..) ?_ fun t => ?_
  · refine List.pairwise_append.2 ⟨(pairwise_tokensFrom ..).filter _, pairwise_tokensFrom .., ?_⟩
    intro x hx y hy
    have hlt : x.offset < (offset + a.length : Nat) := by simpa using List.of_mem_filter hx
    exact Int.lt_of_lt_of_le hlt (le_offset_of_mem_tokensFrom hy)
  · rw [List.mem_append, List.mem_filter]
    constructor
    · intro ht
      by_cases hlt : t.offset < (offset + a.length : Nat)
      · exact .inl ⟨ht, by simpa using hlt⟩
      · obtain ⟨p, h, hd, rfl⟩ := mem_tokensFrom.1 ht
        obtain ⟨q, rfl⟩ : ∃ q, p = a.length + q := by
          refine ⟨p - a.length, ?_⟩
          simp only [Head.token] at hlt
          omega
        exact .inr (mem_tokensFrom.2 ⟨q, h, (declaresAt_append a).1 hd, by rw [Nat.add_assoc]⟩)
    · rintro (⟨ht, -⟩ | ht)
      · exact ht
      · obtain ⟨q, h, hd, rfl⟩ := mem_tokensFrom.1 ht
        exact mem_tokensFrom.2 ⟨a.length + q, h, (declaresAt_append a).2 hd, by rw [Nat.add_assoc]⟩

end Decompilation.Source
