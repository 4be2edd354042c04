import Decompilation.Proofs.Source.Partition

/-!
# Declarations inside blocks

Blocks nest: a declaration whose brace lies in a block has its partner there too
(`Plot.blockStop_le_finish`). So a declaration claims no region exactly if it lies in the block of
another one, whether that one claims a region or not (`Survey.claims_iff`).
-/

namespace Decompilation.Source

open Text

variable {offset : Nat} {before : Option Char} {a b r s text back : List Char} {h : Head}
  {t : Token} {plots : List Plot}

/-! ## Where declarations are -/

theorem mem_tokenize : t ∈ tokenize text ↔ ∃ (a : List Char) (h : Head) (r : List Char),
    text = a ++ (h.text ++ r) ∧ (lastOr none a).any isWord = false ∧ t = h.token a.length := by
  rw [tokenize, mem_tokensFrom]
  simp only [Nat.zero_add]
  constructor
  · rintro ⟨p, h, ⟨a, r, hstands, rfl⟩, rfl⟩
    exact ⟨a, h, r, by rw [hstands.eq, Head.text]; simp, hstands.left, rfl⟩
  · rintro ⟨a, h, r, rfl, hleft, rfl⟩
    exact ⟨a.length, h, declaresAt_text a h r hleft, rfl⟩

/-- A head is read one way only. -/
theorem Head.eq_of_text_append_eq {h' : Head} {r' : List Char}
    (heq : h.text ++ r = h'.text ++ r') : h.name = h'.name ∧ h.form = h'.form ∧ r = r' := by
  rw [Head.text, Head.text, List.append_assoc, List.append_assoc] at heq
  have hread := congrArg declaration? (List.append_cancel_left heq)
  rw [declaration?_tail_append, declaration?_tail_append] at hread
  simpa using hread

theorem Survey.exists_at (hs : Survey offset before s plots back) : ∀ p ∈ plots,
    ∃ front rest, s = front ++ (p.head.text ++ (p.extent ++ (p.closing ++ rest))) ∧
      p.start = offset + front.length ∧ (lastOr before front).any isWord = false ∧ p.Fits rest := by
  induction hs with
  | done => simp
  | @plot offset before s plots back p start stands quiet fits rest ih =>
    intro q hq
    rcases List.mem_cons.1 hq with rfl | hq
    · exact ⟨q.lead, s, q.text_append s, start, stands, fits⟩
    · obtain ⟨front, s', rfl, hstart, hstands, hfits⟩ := ih q hq
      refine ⟨p.text ++ front, s', by rw [List.append_assoc], ?_, ?_, hfits⟩
      · rw [hstart, p.finish_eq start, List.length_append, Nat.add_assoc]
      · rwa [lastOr_append]

/-! ## Blocks -/

/-- The length of a block behind its brace, with the brace that closes it, if one does. -/
def blockLength (r : List Char) : Nat := (closingBrace? r).getD r.length

theorem Balanced.blockLength (ha : Balanced a) (b : List Char) :
    blockLength (a ++ '}' :: b) = a.length + 1 := by
  rw [Source.blockLength, ha.closingBrace?, Option.getD_some]

theorem blockLength_le (r : List Char) : blockLength r ≤ r.length := by
  unfold blockLength
  cases hclose : closingBrace? r with
  | none => exact Nat.le_refl _
  | some n =>
    obtain ⟨inner, r', rfl, rfl, -⟩ := closingBrace?_eq_some_iff.1 hclose
    simp

/-- The region of a declaration that has a block starts behind the brace of its head. -/
theorem blockRegion?_append (hform : h.form = .block) (a r : List Char) :
    ∃ region, blockRegion? (a ++ (h.text ++ r)) (h.token a.length) =
      some (region, ((a.length + h.text.length + blockLength r : Nat) : Int)) := by
  have hstem : h.text = h.stem ++ ['{'] := by rw [h.text_eq, hform]; rfl
  have hnot : '{' ∉ h.stem := by
    have := h.delimiter_not_mem_stem
    rwa [hform] at this
  have hbrace : findFrom? '{' (a ++ (h.text ++ r)) (h.token a.length).offset =
      some (a.length + h.stem.length) := by
    rw [hstem, List.append_assoc]
    exact findFrom?_append hnot a r
  have hlen : a.length + h.stem.length + 1 = a.length + h.text.length := by
    rw [hstem, List.length_append, List.length_singleton, Nat.add_assoc]
  have hdrop : (a ++ (h.text ++ r)).drop (a.length + h.text.length) = r := by
    rw [← List.append_assoc, ← List.length_append, List.drop_left]
  simp only [blockRegion?, hbrace, Option.map_some, hlen, hdrop, blockLength]
  cases closingBrace? r with
  | some n => exact ⟨_, rfl⟩
  | none =>
    refine ⟨r, ?_⟩
    rw [Option.getD_none, List.length_append, List.length_append, Nat.add_assoc]

/-- An offset lies in a block: behind the start of a declaration that has one, before its end. -/
def InBlock (text : List Char) (i : Int) : Prop :=
  ∃ t ∈ tokenize text, t.form = .block ∧
    ∃ region stop, blockRegion? text t = some (region, stop) ∧ t.offset < i ∧ i < stop

theorem inBlock_iff {i : Int} : InBlock text i ↔
    ∃ (a : List Char) (h : Head) (r : List Char), text = a ++ (h.text ++ r) ∧
      (lastOr none a).any isWord = false ∧ h.form = .block ∧ (a.length : Int) < i ∧
      i < (a.length + h.text.length + blockLength r : Nat) := by
  constructor
  · rintro ⟨t, ht, hform, region, stop, hregion, hafter, hbefore⟩
    obtain ⟨a, h, r, rfl, hleft, rfl⟩ := mem_tokenize.1 ht
    obtain ⟨region', hregion'⟩ := blockRegion?_append hform a r
    obtain ⟨-, rfl⟩ := Prod.mk.inj (Option.some.inj (hregion.symm.trans hregion'))
    exact ⟨a, h, r, rfl, hleft, hform, hafter, hbefore⟩
  · rintro ⟨a, h, r, rfl, hleft, hform, hafter, hbefore⟩
    obtain ⟨region, hregion⟩ := blockRegion?_append hform a r
    exact ⟨h.token a.length, mem_tokenize.2 ⟨a, h, r, rfl, hleft, rfl⟩, hform, region, _, hregion,
      hafter, hbefore⟩

/-- A brace in a balanced text has its partner there. -/
theorem Balanced.exists_partner (hb : Balanced (a ++ '{' :: r)) :
    ∃ inner r', r = inner ++ '}' :: r' ∧ Balanced inner := by
  cases hclose : Source.closingBrace? r with
  | some n =>
    obtain ⟨inner, r', rfl, -, hinner⟩ := closingBrace?_eq_some_iff.1 hclose
    exact ⟨inner, r', rfl, hinner⟩
  | none =>
    -- a brace that is never closed is one too many in the whole text
    have hopen := closingBrace?_eq_none_iff.1 hclose r.length
    have hfront := hb.within a.length
    have heven := hb.even
    rw [List.take_left] at hfront
    rw [List.take_length] at hopen
    simp only [List.count_append, List.count_cons_self] at heven
    rw [List.count_cons_of_ne (by decide)] at heven
    omega

theorem Head.not_mem_text (h : Head) : '}' ∉ h.text := by
  have hblank : ∀ s : List Char, (∀ c ∈ s, isBlank c = true) → '}' ∉ s := by
    intro s hs hm
    exact absurd (hs _ hm) (by decide)
  simp only [Head.text, Head.tail, List.mem_append, not_or]
  refine ⟨by decide, hblank _ h.gap_blank, fun hm => ?_, hblank _ h.pad_blank, ?_⟩
  · exact absurd (h.name_qualified _ hm) (by decide)
  · cases h.form <;> decide

theorem Head.text_append (h : Head) (r : List Char) :
    h.text ++ r = namespaceWord ++ (h.tail ++ r) := by
  rw [Head.text, List.append_assoc]

/-- A head that starts before a closing brace ends before it. -/
theorem Head.exists_of_append_eq {y : List Char} (heq : h.text ++ r = y ++ (['}'] ++ s)) :
    ∃ v, y = h.text ++ v ∧ r = v ++ ['}'] ++ s := by
  rcases List.append_eq_append_iff.1 heq with ⟨v, rfl, rfl⟩ | ⟨v, htext, hv⟩
  · exact ⟨v, rfl, by simp⟩
  · cases v with
    | nil => exact ⟨[], by simpa using htext.symm, by simpa using hv.symm⟩
    | cons c v =>
      obtain rfl : '}' = c := by simpa using congrArg List.head? hv
      exact absurd (htext ▸ by simp) h.not_mem_text

/-- A declaration that starts behind another one and before a closing brace lies between the head of
that one and the brace. -/
theorem Head.exists_between {g : Head} {front inside : List Char}
    (hdecl : front ++ (g.text ++ (inside ++ (['}'] ++ s))) = a ++ (h.text ++ r))
    (hafter : front.length < a.length)
    (hbefore : a.length < front.length + g.text.length + inside.length + 1) :
    ∃ x v, a = front ++ (g.text ++ x) ∧ inside = x ++ (h.text ++ v) ∧ r = v ++ ['}'] ++ s := by
  obtain ⟨x, rfl⟩ : front <+: a :=
    List.prefix_of_prefix_length_le (hdecl ▸ List.prefix_append ..) (List.prefix_append ..)
      (Nat.le_of_lt hafter)
  have hne : x ≠ [] := by
    rintro rfl
    simp at hafter
  rw [List.append_assoc, h.text_append] at hdecl
  obtain ⟨x, rfl, hrest⟩ := g.append_eq_text h hne (List.append_cancel_left hdecl).symm
  rw [← h.text_append] at hrest
  simp only [List.length_append] at hbefore
  obtain ⟨y, rfl⟩ : x <+: inside :=
    List.prefix_of_prefix_length_le (hrest ▸ List.prefix_append ..) (List.prefix_append ..)
      (by omega)
  rw [List.append_assoc] at hrest
  obtain ⟨v, rfl, rfl⟩ := h.exists_of_append_eq (List.append_cancel_left hrest)
  exact ⟨x, v, rfl, rfl, rfl⟩

/-- A head with a brace in a balanced text has the partner of its brace there. -/
theorem Balanced.exists_block (hb : Balanced (a ++ (h.text ++ r))) (hform : h.form = .block) :
    ∃ inner r', r = inner ++ '}' :: r' ∧ Balanced inner := by
  have hcut : a ++ (h.text ++ r) = (a ++ h.stem) ++ '{' :: r := by
    rw [h.text_eq, hform]
    simp [Form.delimiter]
  exact (hcut ▸ hb).exists_partner

namespace Plot

variable {p : Plot}

theorem Fits.blockLength (hfits : p.Fits s) (hform : p.head.form = .block) :
    Source.blockLength (p.extent ++ (p.closing ++ s)) = p.extent.length + p.closing.length := by
  cases hfits with
  | file form => simp [form] at hform
  | closed _ closing balanced => rw [closing]; exact balanced.blockLength s
  | unclosed _ closing within last =>
    rw [closing, last, List.append_nil, List.append_nil, Source.blockLength,
      closingBrace?_eq_none_iff.2 within]
    rfl

/-- A block whose declaration lies in that of a plot ends there. -/
theorem blockStop_le_finish {front : List Char}
    (htext : text = front ++ (p.head.text ++ (p.extent ++ (p.closing ++ s))))
    (hstart : p.start = front.length) (hfits : p.Fits s) (hpform : p.head.form = .block)
    (hdecl : text = a ++ (h.text ++ r)) (hform : h.form = .block) (hafter : p.start < a.length)
    (hbefore : a.length < p.finish) : a.length + h.text.length + Source.blockLength r ≤ p.finish := by
  have hlen : text.length = p.finish + s.length := by
    rw [htext]
    simp only [List.length_append, finish, stop, body, hstart]
    omega
  have hbound : a.length + h.text.length + Source.blockLength r ≤ text.length := by
    have := blockLength_le r
    rw [hdecl, List.length_append, List.length_append]
    omega
  cases hfits with
  | file form => simp [form] at hpform
  | unclosed _ _ _ last =>
    rw [last] at hlen
    simp only [List.length_nil] at hlen
    omega
  | closed _ closing balanced =>
    have hfinish : p.finish = front.length + p.head.text.length + p.extent.length + 1 := by
      rw [finish, stop, body, hstart, closing, List.length_singleton]
    rw [htext, closing] at hdecl
    obtain ⟨x, v, rfl, hinside, rfl⟩ := Head.exists_between hdecl (hstart ▸ hafter) (hfinish ▸ hbefore)
    rw [hinside] at balanced hfinish
    -- the partner of the declaration's brace comes before the brace that closes the plot
    obtain ⟨inner, v', rfl, hinner⟩ := balanced.exists_block hform
    have hblock : inner ++ '}' :: v' ++ ['}'] ++ s = inner ++ '}' :: (v' ++ ['}'] ++ s) := by simp
    rw [hblock, hinner.blockLength, hfinish]
    simp only [List.length_append, List.length_cons]
    omega

theorem finish_eq_blockLength {front : List Char} (hstart : p.start = front.length)
    (hfits : p.Fits s) (hform : p.head.form = .block) : p.finish =
      front.length + p.head.text.length + Source.blockLength (p.extent ++ (p.closing ++ s)) := by
  rw [hfits.blockLength hform, finish, stop, body, hstart, Nat.add_assoc _ p.extent.length]

end Plot

/-- **A declaration claims a region exactly if it lies in the block of no declaration.** -/
theorem Survey.claims_iff (hs : Survey 0 none text plots back) (ht : t ∈ tokenize text) :
    t ∈ plots.map Plot.token ↔ ¬ InBlock text t.offset := by
  rw [hs.claims t ht, not_iff_not, inBlock_iff]
  constructor
  · rintro ⟨p, hp, hform, hafter, hbefore⟩
    obtain ⟨front, s, htext, hstart, hstands, hfits⟩ := hs.exists_at p hp
    rw [Nat.zero_add] at hstart
    refine ⟨front, p.head, _, htext, hstands, hform, hstart ▸ hafter, ?_⟩
    rwa [← Plot.finish_eq_blockLength hstart hfits hform]
  · rintro ⟨a, h, r, hdecl, hleft, hform, hafter, hbefore⟩
    have hmem : h.token a.length ∈ tokenize text := mem_tokenize.2 ⟨a, h, r, hdecl, hleft, rfl⟩
    by_cases hclaims : h.token a.length ∈ plots.map Plot.token
    · obtain ⟨p, hp, htoken⟩ := List.mem_map.1 hclaims
      obtain ⟨front, s, htext, hstart, -, hfits⟩ := hs.exists_at p hp
      rw [Nat.zero_add] at hstart
      have hoffset : p.start = a.length := Int.ofNat_inj.1 (congrArg Token.offset htoken)
      have hpform : p.head.form = .block := (congrArg Token.form htoken).trans hform
      obtain ⟨rfl, hsame⟩ := List.append_inj (htext.symm.trans hdecl) (by omega)
      obtain ⟨-, -, rfl⟩ := Head.eq_of_text_append_eq hsame
      have hlen : p.head.text.length = h.text.length := by
        rw [List.append_cancel_right hsame]
      refine ⟨p, hp, hpform, by omega, ?_⟩
      rw [Plot.finish_eq_blockLength hstart hfits hpform]
      omega
    · -- a block that claims nothing lies in one that does, and ends there
      rw [hs.claims _ hmem, not_not] at hclaims
      obtain ⟨p, hp, hpform, hpafter, hpbefore⟩ := hclaims
      obtain ⟨front, s, htext, hstart, -, hfits⟩ := hs.exists_at p hp
      rw [Nat.zero_add] at hstart
      have hoffset : (h.token a.length).offset = a.length := rfl
      have hstop := Plot.blockStop_le_finish htext hstart hfits hpform hdecl hform (by omega)
        (by omega)
      exact ⟨p, hp, hpform, by omega, by omega⟩

end Decompilation.Source
