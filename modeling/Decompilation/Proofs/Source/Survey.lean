import Mathlib.Data.List.Chain
import Decompilation.Proofs.Source.Delimiter
import Decompilation.Proofs.Source.Tokens

/-!
# Surveys

A survey cuts a text into plots, one for each declaration that claims a region, and what is left
behind the last of them. Every text has a survey (`exists_survey`), and the plots of a survey are
cut as `Cut` says: they cover the text without overlap, and the declarations without a plot are
those inside the block of one that has a plot (`Survey.cut`).
-/

namespace Decompilation.Source

open Text

/-! ## Texts in which nothing is declared -/

/-- No declaration starts in `a` where `b` follows it. -/
def Quiet (before : Option Char) (a b : List Char) : Prop :=
  ∀ p h, DeclaresAt before (a ++ b) p h → a.length ≤ p

variable {offset : Nat} {before : Option Char} {a b s : List Char}

theorem quiet_nil : Quiet before [] b := fun _ _ _ => Nat.zero_le _

theorem Quiet.not_declaresAt {p : Nat} {h : Head} (hq : Quiet before a []) :
    ¬ DeclaresAt before a p h := by
  intro hd
  have hle := hq p h (by rwa [List.append_nil])
  have hlt := hd.lt_length
  omega

theorem Quiet.tokensFrom_eq_nil (hq : Quiet before a []) : tokensFrom offset before a = [] := by
  apply List.eq_nil_iff_forall_not_mem.2
  intro t ht
  obtain ⟨p, h, hd, -⟩ := mem_tokensFrom.1 ht
  exact hq.not_declaresAt hd

theorem tokensFrom_append_of_quiet (hq : Quiet before a b) :
    tokensFrom offset before (a ++ b) =
      tokensFrom (offset + a.length) (lastOr before a) b := by
  obtain ⟨ts, heq, hts⟩ := tokensFrom_append offset before a b
  cases ts with
  | nil => exact heq
  | cons t ts =>
    obtain ⟨p, h, hd, rfl⟩ := mem_tokensFrom.1 (heq ▸ List.mem_append_left _ (List.mem_cons_self ..))
    have hle := hq p h hd
    have hlt := hts _ (List.mem_cons_self ..)
    simp only [Head.token] at hlt
    omega

/-- A scan that stands before a declaration takes it and goes on behind its head. -/
theorem tokensFrom_text_append {h : Head} (hbefore : before.any isWord = false) (b : List Char) :
    tokensFrom offset before (h.text ++ b) =
      h.token offset :: tokensFrom (offset + h.text.length) (some h.form.delimiter) b := by
  have hstands : StandsWhole namespaceWord before (h.text ++ b) [] (h.tail ++ b) :=
    ⟨by simp [Head.text], hbefore, h.tail_head? b⟩
  have hcut : cutAtWord? namespaceWord before (h.text ++ b) = some ([], h.tail ++ b) := by
    have hbehind := behindWord?_eq_some_iff.2 hstands
    have hcons : h.text ++ b = 'n' :: (namespaceWord.tail ++ (h.tail ++ b)) := by
      simp [Head.text, namespaceWord]
    rw [hcons] at hbehind ⊢
    rw [cutAtWord?, hbehind]
  have hlen : (h.text ++ b).length - b.length = h.text.length := by
    rw [List.length_append, Nat.add_sub_cancel]
  rw [tokensFrom_of_head hcut, hlen, List.length_nil, Nat.add_zero]

theorem tokensFrom_of_declaresAt_zero {h : Head} (offset : Nat) (hd : DeclaresAt before s 0 h) :
    ∃ ts, tokensFrom offset before s = h.token offset :: ts := by
  obtain ⟨front, rest, hstands, hlen⟩ := hd
  obtain rfl := List.length_eq_zero_iff.1 hlen
  have htext : s = h.text ++ rest := by
    rw [hstands.eq, Head.text]
    simp
  rw [htext]
  exact ⟨_, tokensFrom_text_append hstands.left rest⟩

/-- A text in which something is declared, cut at its first declaration. -/
theorem exists_first_declaration {p : Nat} {h : Head} (hd : DeclaresAt before s p h) :
    ∃ (lead : List Char) (h' : Head) (rest : List Char), s = lead ++ (h'.text ++ rest) ∧
      (lastOr before lead).any isWord = false ∧ Quiet before lead (h'.text ++ rest) := by
  classical
  have hex : ∃ q h', DeclaresAt before s q h' := ⟨p, h, hd⟩
  obtain ⟨h', lead, rest, hstands, hlen⟩ := Nat.find_spec hex
  have heq : s = lead ++ (h'.text ++ rest) := by
    rw [hstands.eq, Head.text, List.append_assoc, List.append_assoc]
  refine ⟨lead, h', rest, heq, hstands.left, fun q g hg => ?_⟩
  rw [hlen]
  exact Nat.find_min' hex ⟨g, heq ▸ hg⟩

/-! ## Plots -/

/-- What a declaration that claims a region takes of a text: its head at offset `start`, the region,
and the brace that closes it, if one does; with the text that leads up to it. -/
structure Plot where
  start : Nat
  lead : List Char
  head : Head
  extent : List Char
  closing : List Char

namespace Plot

/-- The declaration that claims a plot. -/
def token (p : Plot) : Token := p.head.token p.start

/-- The namespace that a plot belongs to. -/
def name (p : Plot) : String := String.ofList p.head.name

/-- The offset at which a plot's region starts. -/
def body (p : Plot) : Nat := p.start + p.head.text.length

/-- The offset at which a plot's region stops. -/
def stop (p : Plot) : Nat := p.body + p.extent.length

/-- The offset behind a plot. -/
def finish (p : Plot) : Nat := p.stop + p.closing.length

/-- A plot and the text that leads up to it. -/
def text (p : Plot) : List Char := p.lead ++ (p.head.text ++ (p.extent ++ p.closing))

/-- How far a plot goes where `s` follows it. A file-scoped declaration takes the text up to the
next declaration or to the end. A block takes the balanced text up to the partner of its brace; a
block that is never closed takes everything. -/
inductive Fits (p : Plot) (s : List Char) : Prop
  | file (form : p.head.form = .fileScoped) (closing : p.closing = [])
      (quiet : Quiet (some ';') p.extent s)
      (next : s = [] ∨ ∃ h, DeclaresAt (lastOr (some ';') p.extent) s 0 h)
  | closed (form : p.head.form = .block) (closing : p.closing = ['}'])
      (balanced : Balanced p.extent)
  | unclosed (form : p.head.form = .block) (closing : p.closing = [])
      (within : Within '{' '}' 0 p.extent) (last : s = [])

end Plot

/-- A text at an offset, behind the character `before`, cut into plots and what is left. -/
inductive Survey : Nat → Option Char → List Char → List Plot → List Char → Prop
  | done {offset : Nat} {before : Option Char} {s : List Char} (quiet : Quiet before s []) :
      Survey offset before s [] s
  | plot {offset : Nat} {before : Option Char} {s : List Char} {plots : List Plot}
      {back : List Char} (p : Plot) (start : p.start = offset + p.lead.length)
      (stands : (lastOr before p.lead).any isWord = false)
      (quiet : Quiet before p.lead (p.head.text ++ (p.extent ++ (p.closing ++ s))))
      (fits : p.Fits s) (rest : Survey p.finish (lastOr before p.text) s plots back) :
      Survey offset before (p.text ++ s) (p :: plots) back

/-! ## Every text has a survey -/

theorem text_ne_nil (h : Head) : h.text ≠ [] := by simp [Head.text, namespaceWord]

theorem exists_fits (start : Nat) (lead : List Char) (h : Head) (rest : List Char) :
    ∃ (p : Plot) (s : List Char), p.start = start ∧ p.lead = lead ∧ p.head = h ∧
      rest = p.extent ++ (p.closing ++ s) ∧ p.Fits s := by
  cases hform : h.form with
  | fileScoped =>
    by_cases hex : ∃ q g, DeclaresAt (some ';') rest q g
    · obtain ⟨q, g, hd⟩ := hex
      obtain ⟨extent, g', tail, rfl, hstands, hquiet⟩ := exists_first_declaration hd
      refine ⟨⟨start, lead, h, extent, []⟩, g'.text ++ tail, rfl, rfl, rfl, rfl,
        .file hform rfl hquiet (.inr ⟨g', declaresAt_text [] g' tail hstands⟩)⟩
    · refine ⟨⟨start, lead, h, rest, []⟩, [], rfl, rfl, rfl, by simp, .file hform rfl ?_ (.inl rfl)⟩
      intro q g hg
      exact absurd ⟨q, g, by rwa [List.append_nil] at hg⟩ hex
  | block =>
    cases hclose : closingBrace? rest with
    | some n =>
      obtain ⟨extent, tail, rfl, -, hbalanced⟩ := closingBrace?_eq_some_iff.1 hclose
      exact ⟨⟨start, lead, h, extent, ['}']⟩, tail, rfl, rfl, rfl, rfl, .closed hform rfl hbalanced⟩
    | none =>
      exact ⟨⟨start, lead, h, rest, []⟩, [], rfl, rfl, rfl, by simp,
        .unclosed hform rfl (closingBrace?_eq_none_iff.1 hclose) rfl⟩

theorem Plot.length_lt_length_text_append (p : Plot) (s : List Char) :
    s.length < (p.text ++ s).length := by
  have := List.length_pos_iff.2 (text_ne_nil p.head)
  simp only [Plot.text, List.length_append]
  omega

theorem exists_survey (offset : Nat) (before : Option Char) (s : List Char) :
    ∃ plots back, Survey offset before s plots back := by
  induction hn : s.length using Nat.strong_induction_on generalizing offset before s with
  | _ n ih =>
    by_cases hex : ∃ p h, DeclaresAt before s p h
    · obtain ⟨q, g, hd⟩ := hex
      obtain ⟨lead, h, rest, rfl, hstands, hquiet⟩ := exists_first_declaration hd
      obtain ⟨p, s, hstart, rfl, rfl, rfl, hfits⟩ := exists_fits (offset + lead.length) lead h rest
      have htext : p.lead ++ (p.head.text ++ (p.extent ++ (p.closing ++ s))) = p.text ++ s := by
        simp [Plot.text]
      rw [htext] at hn ⊢
      obtain ⟨plots, back, hrest⟩ := ih s.length (hn ▸ p.length_lt_length_text_append s) p.finish
        (lastOr before p.text) s rfl
      exact ⟨p :: plots, back, .plot p hstart hstands hquiet hfits hrest⟩
    · exact ⟨[], s, .done fun q g hg => absurd ⟨q, g, by rwa [List.append_nil] at hg⟩ hex⟩

/-! ## Where plots lie -/

/-- What holds of each plot in a text. -/
structure Placed (text : List Char) (p : Plot) : Prop where
  /-- The declaration is one of the text, and the plot's head is its head, delimiter included. -/
  head : DeclaresAt none text p.start p.head
  /-- The region of a file-scoped declaration goes up to the next declaration or to the end. -/
  file : p.head.form = .fileScoped → p.closing = [] ∧
    (∀ t ∈ tokenize text, t.offset ≤ p.start ∨ p.stop ≤ t.offset) ∧
    (p.stop = text.length ∨ ∃ t ∈ tokenize text, t.offset = p.stop)
  /-- The region of a block goes up to the partner of its brace, or else to the end. -/
  block : p.head.form = .block → (p.closing = ['}'] ∧ Balanced p.extent) ∨
    (p.closing = [] ∧ Within '{' '}' 0 p.extent ∧ p.stop = text.length)

/-- A text cut into plots, and what is left behind them. -/
structure Cut (text : List Char) (plots : List Plot) (back : List Char) : Prop where
  /-- The plots, each with what leads up to it, and what is left make up the text. -/
  covers : plots.flatMap Plot.text ++ back = text
  /-- The first plot is that of the first declaration, and all text before it leads up to it. -/
  first : ∀ p ∈ plots.head?, p.start = p.lead.length ∧ (tokenize text).head? = some p.token
  /-- Each plot starts behind the one before, and there is text between them only behind a closed
  block. -/
  ordered : plots.IsChain fun p q =>
    q.start = p.finish + q.lead.length ∧ (q.lead = [] ∨ p.closing = ['}'])
  /-- What is left starts behind the last plot, and there is some only behind a closed block. -/
  last : ∀ p ∈ plots.getLast?,
    p.finish + back.length = text.length ∧ (back = [] ∨ p.closing = ['}'])
  placed : ∀ p ∈ plots, Placed text p
  /-- A declaration has no plot exactly if it lies inside the block of one that has. -/
  claims : ∀ t ∈ tokenize text, t ∈ plots.map Plot.token ↔
    ¬ ∃ p ∈ plots, p.head.form = .block ∧ (p.start : Int) < t.offset ∧ t.offset < p.finish

namespace Plot

/-- The tokens of a plot and of what follows it. -/
theorem tokensFrom_text_append {p : Plot} (hstart : p.start = offset + p.lead.length)
    (hstands : (lastOr before p.lead).any isWord = false)
    (hquiet : Quiet before p.lead (p.head.text ++ (p.extent ++ (p.closing ++ s)))) :
    tokensFrom offset before (p.text ++ s) =
      p.token :: tokensFrom p.body (some p.head.form.delimiter) (p.extent ++ (p.closing ++ s)) := by
  have htext : p.text ++ s = p.lead ++ (p.head.text ++ (p.extent ++ (p.closing ++ s))) := by
    simp [text]
  rw [htext, tokensFrom_append_of_quiet hquiet, Source.tokensFrom_text_append hstands, ← hstart]
  rfl

theorem lastOr_text (before : Option Char) (p : Plot) :
    lastOr before p.text = lastOr (some p.head.form.delimiter) (p.extent ++ p.closing) := by
  rw [text, lastOr_append, lastOr_append, Source.lastOr_text]

/-- Behind a plot's head a scan finds what lies in the plot and then what lies behind it. Only in
blocks anything lies in the plot. -/
theorem tokensFrom_body {p : Plot} (hfits : p.Fits s) (before : Option Char) :
    ∃ ts, tokensFrom p.body (some p.head.form.delimiter) (p.extent ++ (p.closing ++ s)) =
        ts ++ tokensFrom p.finish (lastOr before p.text) s ∧
      ∀ t ∈ ts, p.head.form = .block ∧ (p.start : Int) < t.offset ∧ t.offset < p.finish := by
  have hpos := List.length_pos_iff.2 (text_ne_nil p.head)
  have hblock : p.head.form = .block →
      ∃ ts, tokensFrom p.body (some p.head.form.delimiter) (p.extent ++ (p.closing ++ s)) =
          ts ++ tokensFrom p.finish (lastOr before p.text) s ∧
        ∀ t ∈ ts, p.head.form = .block ∧ (p.start : Int) < t.offset ∧ t.offset < p.finish := by
    intro hform
    obtain ⟨ts, heq, hts⟩ :=
      tokensFrom_append p.body (some p.head.form.delimiter) (p.extent ++ p.closing) s
    have hfinish : p.body + (p.extent ++ p.closing).length = p.finish := by
      rw [List.length_append, finish, stop, Nat.add_assoc]
    rw [List.append_assoc, hfinish, ← lastOr_text before p] at heq
    refine ⟨ts, heq, fun t ht => ⟨hform, ?_, hfinish ▸ hts t ht⟩⟩
    have hle := le_offset_of_mem_tokensFrom (heq ▸ List.mem_append_left _ ht)
    simp only [body] at hle
    omega
  cases hfits with
  | file form closing quiet next =>
    refine ⟨[], ?_, fun t ht => absurd ht (List.not_mem_nil)⟩
    have hdelim : p.head.form.delimiter = ';' := by rw [form]; rfl
    rw [lastOr_text, closing, hdelim, List.nil_append, List.append_nil,
      tokensFrom_append_of_quiet quiet, List.nil_append, finish, closing]
    rfl
  | closed form => exact hblock form
  | unclosed form => exact hblock form

theorem start_lt_finish (p : Plot) : p.start < p.finish := by
  have := List.length_pos_iff.2 (text_ne_nil p.head)
  simp only [finish, stop, body]
  omega

theorem finish_eq {p : Plot} (hstart : p.start = offset + p.lead.length) :
    p.finish = offset + p.text.length := by
  simp only [finish, stop, body, text, List.length_append]
  omega

/-- The region of a file-scoped declaration goes up to the next declaration or to the end, where
`ts` are the declarations before it. -/
theorem Fits.file_placed {p : Plot} {text : List Char} {ts : List Token} (hfits : p.Fits s)
    (hform : p.head.form = .fileScoped)
    (htokens : tokenize text = ts ++ p.token ::
      tokensFrom p.body (some p.head.form.delimiter) (p.extent ++ (p.closing ++ s)))
    (hts : ∀ t ∈ ts, t.offset ≤ p.start) (hlen : text.length = p.finish + s.length) :
    p.closing = [] ∧ (∀ t ∈ tokenize text, t.offset ≤ p.start ∨ p.stop ≤ t.offset) ∧
      (p.stop = text.length ∨ ∃ t ∈ tokenize text, t.offset = p.stop) := by
  obtain ⟨inside, hbody, hinside⟩ := tokensFrom_body hfits none
  obtain rfl : inside = [] := by
    cases inside with
    | nil => rfl
    | cons t ts => simpa [hform] using (hinside t (List.mem_cons_self ..)).1
  cases hfits with
  | file form closing quiet next =>
    have hstop : p.finish = p.stop := by rw [finish, closing]; rfl
    rw [hbody, List.nil_append, hstop] at htokens
    refine ⟨closing, fun t ht => ?_, ?_⟩
    · rw [htokens, List.mem_append, List.mem_cons] at ht
      rcases ht with ht | rfl | ht
      · exact .inl (hts t ht)
      · exact .inl (Int.le_refl _)
      · exact .inr (le_offset_of_mem_tokensFrom ht)
    · rcases next with rfl | ⟨h, hd⟩
      · exact .inl (by rw [hlen, hstop]; rfl)
      · rw [lastOr_text, closing, List.append_nil, form] at htokens
        refine .inr ⟨h.token p.stop, ?_, rfl⟩
        rw [htokens]
        apply List.mem_append_right
        apply List.mem_cons_of_mem
        exact mem_tokensFrom.2 ⟨0, h, hd, rfl⟩
  | closed form => simp [form] at hform
  | unclosed form => simp [form] at hform

/-- A plot lies in a text as its declaration asks for. -/
theorem Fits.placed {p : Plot} {text done : List Char} (hfits : p.Fits s)
    (htext : text = done ++ (p.text ++ s)) (hstart : p.start = done.length + p.lead.length)
    (hstands : (lastOr (lastOr none done) p.lead).any isWord = false)
    (hquiet : Quiet (lastOr none done) p.lead (p.head.text ++ (p.extent ++ (p.closing ++ s)))) :
    Placed text p := by
  obtain ⟨ts, htokens, hts⟩ := tokensFrom_append 0 none done (p.text ++ s)
  rw [← htext, Nat.zero_add, tokensFrom_text_append hstart hstands hquiet] at htokens
  have hlen : text.length = p.finish + s.length := by
    rw [htext, p.finish_eq hstart, List.length_append, List.length_append, Nat.add_assoc]
  refine ⟨?_, fun hform => ?_, fun hform => ?_⟩
  · rw [← lastOr_append] at hstands
    have := declaresAt_text _ p.head (p.extent ++ (p.closing ++ s)) hstands
    rw [hstart, ← List.length_append, htext]
    simpa [Plot.text] using this
  · apply hfits.file_placed hform htokens _ hlen
    intro t ht
    have := hts t ht
    omega
  · cases hfits with
    | file form => simp [form] at hform
    | closed form closing balanced => exact .inl ⟨closing, balanced⟩
    | unclosed form closing within last =>
      refine .inr ⟨closing, within, ?_⟩
      rw [hlen, last, finish, closing]
      rfl

end Plot

namespace Survey

variable {plots : List Plot} {back : List Char}

theorem covers (hs : Survey offset before s plots back) :
    plots.flatMap Plot.text ++ back = s := by
  induction hs with
  | done => rfl
  | plot p _ _ _ _ _ ih => rw [List.flatMap_cons, List.append_assoc, ih]

theorem first (hs : Survey offset before s plots back) : ∀ p ∈ plots.head?,
    p.start = offset + p.lead.length ∧ (tokensFrom offset before s).head? = some p.token := by
  cases hs with
  | done => simp
  | plot p start stands quiet fits rest =>
    intro q hq
    obtain rfl : p = q := by simpa using hq
    rw [Plot.tokensFrom_text_append start stands quiet]
    exact ⟨start, rfl⟩

theorem next {p : Plot} (hfits : p.Fits s) (hs : Survey p.finish (lastOr before p.text) s plots back) :
    ∀ q ∈ plots.head?, q.start = p.finish + q.lead.length ∧ (q.lead = [] ∨ p.closing = ['}']) := by
  intro q hq
  refine ⟨(hs.first q hq).1, ?_⟩
  cases hs with
  | done => simp at hq
  | @plot _ _ s' plots' _ p' start stands quiet fits rest =>
    obtain rfl : p' = q := by simpa using hq
    have hne : p'.text ++ s' ≠ [] := by
      have := p'.length_lt_length_text_append s'
      intro hnil
      rw [hnil] at this
      simp at this
    cases hfits with
    | file form closing quiet' next =>
      left
      rcases next with hnil | ⟨h, hd⟩
      · exact absurd hnil hne
      · have := quiet 0 h (by
          rw [Plot.lastOr_text, closing, List.append_nil, form]
          simpa [Plot.text, Form.delimiter] using hd)
        exact List.length_eq_zero_iff.1 (by omega)
    | closed _ closing => exact .inr closing
    | unclosed _ _ _ last => exact absurd last hne

theorem ordered (hs : Survey offset before s plots back) : plots.IsChain fun p q =>
    q.start = p.finish + q.lead.length ∧ (q.lead = [] ∨ p.closing = ['}']) := by
  induction hs with
  | done => exact .nil
  | plot p _ _ _ fits rest ih => exact List.isChain_cons.2 ⟨rest.next fits, ih⟩

theorem last (hs : Survey offset before s plots back) : ∀ p ∈ plots.getLast?,
    p.finish + back.length = offset + s.length ∧ (back = [] ∨ p.closing = ['}']) := by
  induction hs with
  | done => simp
  | @plot offset before s plots back p start stands quiet fits rest ih =>
    intro q hq
    have hfinish := p.finish_eq start
    cases plots with
    | nil =>
      obtain rfl : p = q := by simpa using hq
      obtain rfl : s = back := by simpa using rest.covers.symm
      refine ⟨by rw [hfinish, List.length_append, Nat.add_assoc], ?_⟩
      cases fits with
      | file form closing quiet' next =>
        rcases next with rfl | ⟨h, hd⟩
        · exact .inl rfl
        · cases rest with
          | done quiet'' =>
            rw [Plot.lastOr_text, closing, List.append_nil, form] at quiet''
            exact absurd hd quiet''.not_declaresAt
      | closed _ closing => exact .inr closing
      | unclosed _ _ _ last => exact .inl last
    | cons p' plots =>
      have := ih q (by simpa using hq)
      rw [hfinish] at this
      rwa [List.length_append, ← Nat.add_assoc]

theorem le_start (hs : Survey offset before s plots back) : ∀ p ∈ plots, offset ≤ p.start := by
  induction hs with
  | done => simp
  | plot p start _ _ _ _ ih =>
    intro q hq
    rcases List.mem_cons.1 hq with rfl | hq
    · omega
    · have := ih q hq
      have := p.finish_eq start
      omega

/-- A declaration in front of a survey claims none of its plots. -/
theorem not_mem_map_token (hs : Survey offset before s plots back) {t : Token}
    (ht : t.offset < offset) : t ∉ plots.map Plot.token := by
  intro hmem
  obtain ⟨q, hq, rfl⟩ := List.mem_map.1 hmem
  have hstart : (offset : Int) ≤ q.token.offset := Int.ofNat_le.2 (hs.le_start q hq)
  omega

/-- A declaration in front of a survey, or right at its start, lies inside none of its blocks. -/
theorem not_inside (hs : Survey offset before s plots back) {t : Token}
    (ht : t.offset ≤ offset) :
    ¬ ∃ p ∈ plots, p.head.form = .block ∧ (p.start : Int) < t.offset ∧ t.offset < p.finish := by
  rintro ⟨q, hq, -, hafter, -⟩
  have hstart : (offset : Int) ≤ q.start := Int.ofNat_le.2 (hs.le_start q hq)
  omega

theorem claims (hs : Survey offset before s plots back) :
    ∀ t ∈ tokensFrom offset before s, t ∈ plots.map Plot.token ↔
      ¬ ∃ p ∈ plots, p.head.form = .block ∧ (p.start : Int) < t.offset ∧ t.offset < p.finish := by
  induction hs with
  | done quiet =>
    intro t ht
    obtain ⟨p, h, hd, -⟩ := mem_tokensFrom.1 ht
    exact absurd hd quiet.not_declaresAt
  | @plot offset before s plots back p start stands quiet fits rest ih =>
    intro t ht
    obtain ⟨ts, heq, hts⟩ := p.tokensFrom_body fits before
    rw [Plot.tokensFrom_text_append start stands quiet, heq, List.mem_cons, List.mem_append] at ht
    have hlt : p.token.offset < (p.finish : Int) := Int.ofNat_lt.2 p.start_lt_finish
    rw [List.map_cons, List.mem_cons]
    rcases ht with rfl | ht | ht
    · -- The declaration that claims the plot.
      refine iff_of_true (.inl rfl) ?_
      rintro ⟨q, hq, hin⟩
      rcases List.mem_cons.1 hq with rfl | hq
      · exact absurd hin.2.1 (Int.lt_irrefl _)
      · exact rest.not_inside (Int.le_of_lt hlt) ⟨q, hq, hin⟩
    · -- One inside the plot's block.
      have hin := hts t ht
      refine iff_of_false ?_ fun hnot => hnot ⟨p, List.mem_cons_self .., hin⟩
      rintro (rfl | hmem)
      · exact absurd hin.2.1 (Int.lt_irrefl _)
      · exact rest.not_mem_map_token hin.2.2 hmem
    · -- One behind the plot: the plot has no say in it.
      have hle := le_offset_of_mem_tokensFrom ht
      have hne : t ≠ p.token := by
        rintro rfl
        omega
      have hout : ¬ t.offset < p.finish := by omega
      rw [or_iff_right hne, ih t ht]
      simp only [List.mem_cons, exists_eq_or_imp, hout, and_false, false_or]

theorem placed {text done : List Char} (hs : Survey offset before s plots back)
    (htext : text = done ++ s) (hoffset : offset = done.length)
    (hbefore : before = lastOr none done) : ∀ p ∈ plots, Placed text p := by
  induction hs generalizing done with
  | done => simp
  | @plot offset before s plots back p start stands quiet fits rest ih =>
    intro q hq
    rcases List.mem_cons.1 hq with rfl | hq
    · rw [hoffset] at start
      rw [hbefore] at stands quiet
      exact fits.placed htext start stands quiet
    · have htext' : text = (done ++ p.text) ++ s := by rw [htext, List.append_assoc]
      have hoffset' : p.finish = (done ++ p.text).length := by
        rw [p.finish_eq start, hoffset, List.length_append]
      exact ih htext' hoffset' (by rw [hbefore, lastOr_append]) q hq

/-- Where there is no plot nothing is declared, and the whole text is left. -/
theorem tokenize_eq_nil {text : List Char} (hs : Survey 0 none text [] back) :
    tokenize text = [] ∧ back = text := by
  cases hs with
  | done quiet => exact ⟨quiet.tokensFrom_eq_nil, rfl⟩

theorem cut {text : List Char} (hs : Survey 0 none text plots back) : Cut text plots back where
  covers := hs.covers
  first := by
    intro p hp
    obtain ⟨hstart, hhead⟩ := hs.first p hp
    exact ⟨by rw [hstart, Nat.zero_add], hhead⟩
  ordered := hs.ordered
  last := by
    intro p hp
    obtain ⟨hfinish, hback⟩ := hs.last p hp
    exact ⟨by rw [hfinish, Nat.zero_add], hback⟩
  placed := hs.placed (List.nil_append text).symm rfl rfl
  claims := hs.claims

end Survey

end Decompilation.Source
