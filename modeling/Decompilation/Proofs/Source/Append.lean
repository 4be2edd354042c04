import Decompilation.Proofs.Source.Block
import Decompilation.Proofs.Source.Rejoin

/-!
# Texts put behind each other

A text that ends in a closed block is cut off cleanly: what is put behind it changes nothing in front,
and is read as if it stood alone, further along. The survey of both is the two surveys one behind the
other (`Survey.append`), so the division of both is read off the divisions of each
(`divide_append`).
-/

namespace Decompilation.Source

open Text

variable {offset k p : Nat} {before before' : Option Char} {a b s t w back back' : List Char}
  {plots plots' : List Plot} {h : Head}

/-! ## Declarations in parts of a text -/

/-- What a text declares it declares with more text behind it. -/
theorem DeclaresAt.append_right (hd : DeclaresAt before a p h) (b : List Char) :
    DeclaresAt before (a ++ b) p h := by
  obtain ⟨front, rest, hstands, rfl⟩ := hd
  have htext : a ++ b = front ++ (h.text ++ (rest ++ b)) := by
    rw [hstands.eq, Head.text]
    simp
  exact htext ▸ declaresAt_text front h _ hstands.left

theorem any_isWord_lastOr_congr (hsame : before.any isWord = before'.any isWord) (a : List Char) :
    (lastOr before a).any isWord = (lastOr before' a).any isWord := by
  unfold lastOr
  cases a.getLast? with
  | none => exact hsame
  | some c => rfl

/-- All that counts of what precedes a text is whether a word could go on in it. -/
theorem DeclaresAt.congr (hsame : before.any isWord = before'.any isWord)
    (hd : DeclaresAt before s p h) : DeclaresAt before' s p h := by
  obtain ⟨front, rest, hstands, hlen⟩ := hd
  have hleft := (any_isWord_lastOr_congr hsame front).symm.trans hstands.left
  exact ⟨front, rest, ⟨hstands.eq, hleft, hstands.right⟩, hlen⟩

theorem Quiet.congr (hsame : before.any isWord = before'.any isWord) (hq : Quiet before a b) :
    Quiet before' a b := fun p h hd => hq p h (hd.congr hsame.symm)

theorem Quiet.append_nil (hq : Quiet before a b) : Quiet before a [] := by
  intro p h hd
  rw [List.append_nil] at hd
  exact hq p h (hd.append_right b)

/-- No declaration starts in blanks. -/
theorem Quiet.blanks (hw : ∀ c ∈ w, isBlank c = true) (hq : Quiet (lastOr before w) a b) :
    Quiet before (w ++ a) b := by
  rintro p h ⟨front, rest, hstands, rfl⟩
  have heq : front ++ (namespaceWord ++ (h.tail ++ rest)) = w ++ (a ++ b) := by
    rw [← List.append_assoc w, hstands.eq]
    simp
  obtain ⟨front, rfl, -⟩ := append_eq_of_not_mem (not_mem_of_blank hw (by decide)) heq
  rw [List.append_assoc] at hstands
  have := hq front.length h ⟨front, rest, (standsWhole_append w).1 hstands, rfl⟩
  simp only [List.length_append]
  omega

/-! ## Surveys further along -/

namespace Plot

/-- A plot further along. -/
def moved (k : Nat) (p : Plot) : Plot := { p with start := k + p.start }

/-- A plot with more text leading up to it. -/
def behind (w : List Char) (p : Plot) : Plot := { p with lead := w ++ p.lead }

/-- How far a plot goes does not depend on where it lies and on what leads up to it. -/
theorem Fits.elsewhere {p : Plot} (hfits : p.Fits s) (start : Nat) (lead : List Char) :
    Fits { p with start, lead } s := by
  cases hfits with
  | file form closing quiet next => exact .file form closing quiet next
  | closed form closing balanced => exact .closed form closing balanced
  | unclosed form closing within last => exact .unclosed form closing within last

theorem Fits.moved {p : Plot} (hfits : p.Fits s) (k : Nat) : (p.moved k).Fits s :=
  hfits.elsewhere (k + p.start) p.lead

theorem Fits.behind {p : Plot} (hfits : p.Fits s) (w : List Char) : (p.behind w).Fits s :=
  hfits.elsewhere p.start (w ++ p.lead)

theorem finish_moved (k : Nat) (p : Plot) : (p.moved k).finish = k + p.finish := by
  simp only [finish, stop, body, moved, Nat.add_assoc]

end Plot

/-- A text that stands further along, behind another character that no word goes on behind, is cut
into the same plots. -/
theorem Survey.moved (hs : Survey offset before s plots back)
    (hsame : before.any isWord = before'.any isWord) (k : Nat) :
    Survey (k + offset) before' s (plots.map (Plot.moved k)) back := by
  induction hs generalizing before' with
  | done quiet => exact .done (quiet.congr hsame)
  | @plot offset before s plots back p start stands quiet fits rest ih =>
    have hstart : (p.moved k).start = k + offset + (p.moved k).lead.length := by
      simp only [Plot.moved, start, Nat.add_assoc]
    have hrest := ih (any_isWord_lastOr_congr hsame p.text)
    rw [← p.finish_moved k] at hrest
    exact .plot (p.moved k) hstart ((any_isWord_lastOr_congr hsame p.lead).symm.trans stands)
      (quiet.congr hsame) (fits.moved k) hrest

/-- Blanks in front of a text lead up to its first plot. -/
theorem Survey.behind (hw : ∀ c ∈ w, isBlank c = true)
    (hs : Survey (offset + w.length) (lastOr before w) s plots back) :
    ∃ back', Survey offset before (w ++ s) (plots.modifyHead (Plot.behind w)) back' := by
  cases hs with
  | done quiet => exact ⟨_, .done (quiet.blanks hw)⟩
  | @plot _ _ s plots _ p start stands quiet fits rest =>
    have htext : w ++ (p.text ++ s) = (p.behind w).text ++ s := by
      simp [Plot.behind, Plot.text]
    have hstart : (p.behind w).start = offset + (p.behind w).lead.length := by
      simp only [Plot.behind, start, List.length_append, Nat.add_assoc]
    have hlast : lastOr before (p.behind w).text = lastOr (lastOr before w) p.text := by
      rw [← lastOr_append]
      simp [Plot.behind, Plot.text]
    rw [htext, List.modifyHead_cons]
    exact ⟨back, .plot (p.behind w) hstart (by rwa [Plot.behind, lastOr_append])
      (quiet.blanks hw) (fits.behind w) (hlast ▸ rest)⟩

/-! ## A text behind one that ends in a block -/

/-- The last plot of a text is a block that is closed, with nothing but blanks behind it. -/
structure Survey.EndsInBlock (plots : List Plot) (back : List Char) : Prop where
  last : ∃ p ∈ plots.getLast?, p.closing = ['}']
  blank : ∀ c ∈ back, isBlank c = true

/-- A text that is closed: its last declaration with a plot is a block that a brace closes, and only
blanks follow. -/
def EndsInBlock (text : List Char) : Prop :=
  ∃ plots back, Survey 0 none text plots back ∧ Survey.EndsInBlock plots back

namespace Survey

theorem EndsInBlock.of_cons {p q : Plot} (h : EndsInBlock (p :: q :: plots) back) :
    EndsInBlock (q :: plots) back := by
  obtain ⟨r, hr, hclosed⟩ := h.last
  exact ⟨⟨r, by simpa using hr, hclosed⟩, h.blank⟩

/-- A text that ends in a block up to its last brace. -/
theorem exists_closed (hs : Survey offset before a plots back) (hend : EndsInBlock plots back) :
    ∃ front, a = front ++ (['}'] ++ back) := by
  obtain ⟨p, hp, hclosed⟩ := hend.last
  obtain ⟨plots, rfl⟩ : ∃ plots', plots = plots' ++ [p] :=
    ⟨_, (List.dropLast_append_getLast? p hp).symm⟩
  refine ⟨plots.flatMap Plot.text ++ (p.lead ++ (p.head.text ++ p.extent)), ?_⟩
  rw [← hs.covers]
  simp [Plot.text, hclosed]

/-- A plot that another one follows fits the same with more text behind. -/
theorem fits_append {p q : Plot} {offset' : Nat} {before' : Option Char} (hfits : p.Fits s)
    (hs : Survey offset' before' s (q :: plots) back) (b : List Char) : p.Fits (s ++ b) := by
  have hne : s ≠ [] := by
    rintro rfl
    have hcover := hs.covers
    rw [List.flatMap_cons, List.append_assoc] at hcover
    have := q.length_lt_length_text_append (plots.flatMap Plot.text ++ back)
    simp [hcover] at this
  cases hfits with
  | file form closing quiet next =>
    rcases next with hnil | ⟨h, hd⟩
    · exact absurd hnil hne
    obtain ⟨front, rest, hstands, hlen⟩ := hd.append_right b
    obtain rfl := List.length_eq_zero_iff.1 hlen
    have htext : s ++ b = h.text ++ rest := by
      rw [hstands.eq, Head.text]
      simp
    rw [htext]
    exact .file form closing (quiet.append_nil.text_append h rest)
      (.inr ⟨h, declaresAt_text [] h rest hstands.left⟩)
  | closed form closing balanced => exact .closed form closing balanced
  | unclosed form closing within last => exact absurd last hne

/-- The survey of a text that ends in a block goes on with the survey of what is put behind it. -/
theorem append (hs : Survey offset before a plots back) (hend : EndsInBlock plots back)
    (hb : Survey (offset + a.length) (lastOr before a) b plots' back') :
    ∃ back'', Survey offset before (a ++ b)
      (plots ++ plots'.modifyHead (Plot.behind back)) back'' := by
  induction hs with
  | done =>
    obtain ⟨p, hp, -⟩ := hend.last
    cases hp
  | @plot offset before s plots back p start stands quiet fits rest ih =>
    have hfinish := p.finish_eq start
    rw [List.length_append, ← Nat.add_assoc, ← hfinish, lastOr_append] at hb
    have hquiet : ∀ x, Quiet before p.lead (p.head.text ++ x) := quiet.append_nil.text_append p.head
    rw [List.append_assoc]
    cases plots with
    | nil =>
      obtain rfl : s = back := by simpa using rest.covers.symm
      obtain ⟨back'', hrest⟩ := hb.behind hend.blank
      have hclosed : p.closing = ['}'] := by
        obtain ⟨q, hq, hclosed⟩ := hend.last
        obtain rfl : p = q := by simpa using hq
        exact hclosed
      have hfits : p.Fits (s ++ b) := by
        cases fits with
        | file form closing => simp [hclosed] at closing
        | closed form closing balanced => exact .closed form closing balanced
        | unclosed form closing => simp [hclosed] at closing
      exact ⟨back'', .plot p start stands (hquiet _) hfits hrest⟩
    | cons q plots =>
      obtain ⟨back'', hrest⟩ := ih hend.of_cons hb
      exact ⟨back'', .plot p start stands (hquiet _) (rest.fits_append fits b) hrest⟩

theorem any_isWord_lastOr (hs : Survey offset before a plots back) (hend : EndsInBlock plots back) :
    (lastOr before a).any isWord = false := by
  obtain ⟨front, rfl⟩ := hs.exists_closed hend
  rw [lastOr_append, lastOr_append]
  exact any_isWord_lastOr_blanks rfl hend.blank

/-- A declaration that starts in a text which ends in a block lies in that text. -/
theorem declaresAt_front (hs : Survey offset before a plots back) (hend : EndsInBlock plots back)
    (hd : DeclaresAt before (a ++ b) p h) (hlt : p < a.length) : DeclaresAt before a p h := by
  obtain ⟨y, rfl⟩ := hs.exists_closed hend
  obtain ⟨front, rest, hstands, rfl⟩ := hd
  have heq : y ++ (['}'] ++ (back ++ b)) = front ++ (h.text ++ rest) := by
    have := hstands.eq
    simpa [Head.text] using this
  rcases List.append_eq_append_iff.1 heq with ⟨x, rfl, hx⟩ | ⟨x, rfl, hx⟩
  · -- the word would start behind the block, where only blanks are
    have hno : 'n' ∉ ['}'] ++ back := by
      rw [List.mem_append, not_or]
      exact ⟨by decide, not_mem_of_blank hend.blank (by decide)⟩
    rw [h.text_append, ← List.append_assoc] at hx
    obtain ⟨x', rfl, -⟩ := append_eq_of_not_mem hno hx.symm
    simp only [List.length_append, List.length_cons, List.length_nil] at hlt
    omega
  · obtain ⟨v, rfl, -⟩ := Head.exists_of_append_eq hx
    have := declaresAt_text front h (v ++ (['}'] ++ back)) hstands.left
    simpa using this

end Survey

/-! ## Declared names -/

/-- Lists of declarations in order of their offsets are the same if they list the same. -/
theorem eq_of_mem_tokens {ts us : List Token} (hts : ts.Pairwise fun t u => t.offset < u.offset)
    (hus : us.Pairwise fun t u => t.offset < u.offset) (h : ∀ t, t ∈ ts ↔ t ∈ us) : ts = us := by
  let isLess : Token → Token → Prop := fun t u => t.offset < u.offset
  have : Std.Antisymm isLess := ⟨fun t u h h' => absurd h' (by simp only [isLess] at h ⊢; omega)⟩
  have : Std.Irrefl isLess := ⟨fun t => Int.lt_irrefl _⟩
  exact List.Pairwise.eq_of_mem_iff (r := isLess) hts hus h

/-- A text that stands further along, behind another character that no word goes on behind, declares
the same. -/
theorem tokensFrom_moved (hsame : before.any isWord = before'.any isWord) (k : Nat) :
    tokensFrom (k + offset) before' s =
      (tokensFrom offset before s).map fun t => { t with offset := k + t.offset } := by
  refine eq_of_mem_tokens (pairwise_tokensFrom ..) ?_ fun t => ?_
  · rw [List.pairwise_map]
    refine (pairwise_tokensFrom offset before s).imp fun hlt => ?_
    simp only
    omega
  · rw [List.mem_map, mem_tokensFrom]
    constructor
    · rintro ⟨p, h, hd, rfl⟩
      refine ⟨h.token (offset + p), mem_tokensFrom.2 ⟨p, h, hd.congr hsame.symm, rfl⟩, ?_⟩
      simp [Head.token, Int.add_assoc]
    · rintro ⟨t, ht, rfl⟩
      obtain ⟨p, h, hd, rfl⟩ := mem_tokensFrom.1 ht
      refine ⟨p, h, hd.congr hsame, ?_⟩
      simp [Head.token, Int.add_assoc]

/-- The declarations of a text that ends in a block, and of what is put behind it. -/
theorem Survey.tokenize_append (hs : Survey 0 none a plots back)
    (hend : Survey.EndsInBlock plots back) (b : List Char) : tokenize (a ++ b) =
      tokenize a ++ (tokenize b).map fun t => { t with offset := a.length + t.offset } := by
  obtain ⟨ts, heq, hts⟩ := tokensFrom_append 0 none a b
  have hsame : Option.any isWord none = (lastOr none a).any isWord :=
    (hs.any_isWord_lastOr hend).symm
  have hback : tokensFrom (a.length + 0) (lastOr none a) b =
      (tokensFrom 0 none b).map fun t => { t with offset := a.length + t.offset } :=
    tokensFrom_moved hsame a.length
  rw [Nat.add_comm, hback] at heq
  rw [tokenize, heq]
  refine congrArg (· ++ _) (eq_of_mem_tokens ?_ (pairwise_tokensFrom ..) fun t => ?_)
  · exact (List.pairwise_append.1 (heq ▸ pairwise_tokensFrom 0 none (a ++ b))).1
  constructor
  · intro ht
    obtain ⟨p, h, hd, rfl⟩ := mem_tokensFrom.1 (heq ▸ List.mem_append_left _ ht)
    have hlt : p < a.length := by simpa [Head.token] using hts _ ht
    exact mem_tokensFrom.2 ⟨p, h, hs.declaresAt_front hend hd hlt, rfl⟩
  · intro ht
    obtain ⟨p, h, hd, rfl⟩ := mem_tokensFrom.1 ht
    have hmem : h.token (0 + p) ∈ tokensFrom 0 none (a ++ b) :=
      mem_tokensFrom.2 ⟨p, h, hd.append_right b, rfl⟩
    rw [heq, List.mem_append] at hmem
    rcases hmem with hmem | hmem
    · exact hmem
    · obtain ⟨t, ht, htoken⟩ := List.mem_map.1 hmem
      have hle := le_offset_of_mem_tokensFrom ht
      have hoffset := congrArg Token.offset htoken
      have hlt := hd.lt_length
      simp only [Head.token] at hoffset
      omega

/-! ## Names listed once -/

section names

variable {α : Type} [DecidableEq α]

theorem filter_eraseDups (keep : α → Bool) (l : List α) :
    l.eraseDups.filter keep = (l.filter keep).eraseDups := by
  induction hn : l.length using Nat.strong_induction_on generalizing l with
  | _ n ih =>
    cases l with
    | nil => rfl
    | cons x l =>
      have hlt : (l.filter fun y => !y == x).length < n := by
        have := List.length_filter_le (fun y => !y == x) l
        rw [List.length_cons] at hn
        omega
      have hrest := ih _ hlt (l.filter fun y => !y == x) rfl
      rw [List.eraseDups_cons, List.filter_cons, List.filter_cons, hrest]
      cases hx : keep x with
      | false =>
        -- the filter leaves the first name out anyway
        have hskip : (l.filter fun y => !y == x).filter keep = l.filter keep := by
          rw [List.filter_filter]
          refine List.filter_congr fun y _ => ?_
          by_cases hy : y = x <;> simp [hy, hx]
        simp [hskip]
      | true =>
        have hswap : (l.filter fun y => !y == x).filter keep =
            (l.filter keep).filter fun y => !y == x := by
          rw [List.filter_filter, List.filter_filter]
          exact List.filter_congr fun y _ => Bool.and_comm ..
        simp [hswap, List.eraseDups_cons]

/-- Of names in a row each is listed where it appears first. -/
theorem eraseDups_append_eq (l l' : List α) :
    (l ++ l').eraseDups = l.eraseDups ++ l'.eraseDups.filter fun x => x ∉ l.eraseDups := by
  rw [List.eraseDups_append, List.removeAll, filter_eraseDups]
  refine congrArg (fun keep => l.eraseDups ++ (l'.filter keep).eraseDups) ?_
  funext x
  simp [List.mem_eraseDups]

end names

/-! ## What both are divided into -/

/-- The names of the namespaces that have a unit, in order. -/
def Division.namespaces (d : Division) : List String := d.units.keys.filter (· ≠ globalName)

/-- A text's division, where the text is made of one text and another one behind it. -/
structure Division.JoinOf (d d₁ d₂ : Division) : Prop where
  declared : d.declared = d₁.declared ++ d₂.declared
  /-- The namespaces stand in the order of their first appearance. -/
  namespaces : d.namespaces = d₁.namespaces ++ d₂.namespaces.filter (· ∉ d₁.namespaces)
  /-- A namespace's unit is what the first text has of it, and then what the second one has. -/
  unit : ∀ n, n ≠ globalName → d.units.get? n =
    match d₁.units.get? n, d₂.units.get? n with
    | some body₁, some body₂ => some (body₁ ++ body₂)
    | unit₁, unit₂ => unit₁.or unit₂
  /-- Those namespaces have a form that have one in either text, in the same order. -/
  formed : d.forms.keys = d₁.forms.keys ++ d₂.forms.keys.filter (· ∉ d₁.forms.keys)
  /-- The form in the first text wins. -/
  form : ∀ n, d.forms.get? n = (d₁.forms.get? n).or (d₂.forms.get? n)

namespace Survey

/-- The namespaces that have a unit are those of the plots. -/
theorem namespaces_divide (hs : Survey 0 none s plots back) :
    (divide s).namespaces = (plots.map Plot.name).eraseDups := by
  rw [Division.namespaces, units_divide]
  by_cases hne : plots = []
  · subst hne
    rw [hs.partition_of_nil]
    simp [Table.keys_insert]
  · have houtside : ∀ r : List Char, ((outside r).map Prod.fst).filter (· ≠ globalName) = [] := by
      intro r
      unfold outside
      split <;> simp
    have hnames : (plots.map Plot.name).filter (· ≠ globalName) = plots.map Plot.name := by
      refine List.filter_eq_self.2 fun n hn => ?_
      obtain ⟨q, -, rfl⟩ := List.mem_map.1 hn
      simpa using q.name_ne_globalName
    have hmap : (plots.map fun q => (q.name, q.extent)).map Prod.fst = plots.map Plot.name := by
      simp [Function.comp_def]
    rw [(hs.madeOf hne).keys, filter_eraseDups, shares, List.map_append, List.map_append, hmap,
      List.filter_append, List.filter_append, houtside, houtside, hnames, List.nil_append,
      List.append_nil]

theorem get?_units_divide (hs : Survey 0 none s plots back) {n : String} (hn : n ≠ globalName) :
    (divide s).units.get? n = if n ∈ plots.map Plot.name then
      some (unitText ((plots.filter fun q => q.name = n).map Plot.extent)) else none :=
  hs.get?_units hn

theorem forms_divide_eq (hs : Survey 0 none s plots back) : (divide s).forms =
    plots.foldl (fun f q => f.insertNew q.name q.head.form) Table.empty := by
  by_cases hne : plots = []
  · subst hne
    rw [forms_divide, hs.partition_of_nil]
    rfl
  · exact (partitionBy_tokenize hs hne).2

end Survey

theorem keys_foldl_insertNew (plots : List Plot) (f : Table String Form) :
    (plots.foldl (fun f q => f.insertNew q.name q.head.form) f).keys =
      f.keys ++ (plots.map Plot.name).eraseDups.filter fun n => n ∉ f.keys := by
  simp only [Table.insertNew_eq_insert]
  rw [Table.keys_foldl_insert Plot.name, filter_eraseDups]

/-- What counts of a plot wherever it lies and whatever leads up to it. -/
def Plot.worth (p : Plot) : String × List Char × Form := (p.name, p.extent, p.head.form)

theorem map_worth_moved (k : Nat) (w : List Char) (plots : List Plot) :
    ((plots.map (Plot.moved k)).modifyHead (Plot.behind w)).map Plot.worth =
      plots.map Plot.worth := by
  cases plots with
  | nil => rfl
  | cons q plots =>
    rw [List.map_cons, List.modifyHead_cons, List.map_cons, List.map_cons, List.map_map]
    rfl

section worth

variable {plots₁ plots₂ : List Plot} (heq : plots₁.map Plot.worth = plots₂.map Plot.worth)

include heq

theorem map_name_of_worth : plots₁.map Plot.name = plots₂.map Plot.name := by
  have := congrArg (List.map Prod.fst) heq
  rwa [List.map_map, List.map_map] at this

theorem extents_of_worth (n : String) : (plots₁.filter fun q => q.name = n).map Plot.extent =
    (plots₂.filter fun q => q.name = n).map Plot.extent := by
  have := congrArg (fun l => (l.filter fun e => e.1 = n).map fun e => e.2.1) heq
  simp only [List.filter_map, List.map_map] at this
  exact this

theorem foldl_insertNew_of_worth (f : Table String Form) :
    plots₁.foldl (fun f q => f.insertNew q.name q.head.form) f =
      plots₂.foldl (fun f q => f.insertNew q.name q.head.form) f := by
  have := congrArg (List.foldl (fun f e => f.insertNew e.1 e.2.2) f) heq
  rwa [List.foldl_map, List.foldl_map] at this

end worth

theorem unitText_append (l l' : List (List Char)) :
    unitText (l ++ l') = unitText l ++ unitText l' := List.flatMap_append

/-- **A text behind one that ends in a block.** Where the last plot of a text is a closed block with
only blanks behind it, whatever is put behind the text is divided on its own: the declared names
are those of the first text and then those of the second, a namespace's unit is its unit in the
first text and then its unit in the second, in the order of first appearance, and a namespace has its
form in the first text if it has one there. -/
theorem divide_append (ha : EndsInBlock a) (b : List Char) :
    (divide (a ++ b)).JoinOf (divide a) (divide b) := by
  obtain ⟨plots, back, hs, hend⟩ := ha
  obtain ⟨plots', back', hb⟩ := exists_survey 0 none b
  have hmoved := hb.moved (hs.any_isWord_lastOr hend).symm a.length
  rw [Nat.add_comm] at hmoved
  obtain ⟨back'', hab⟩ := hs.append hend hmoved
  have hworth := map_worth_moved a.length back plots'
  generalize (plots'.map (Plot.moved a.length)).modifyHead (Plot.behind back) = plots'' at hab hworth
  have hnames := map_name_of_worth hworth
  refine ⟨?_, ?_, fun n hn => ?_, ?_, fun n => ?_⟩
  · have hdeclared : ∀ s, (divide s).declared = (tokenize s).map Token.name := fun _ => rfl
    rw [hdeclared, hdeclared, hdeclared, hs.tokenize_append hend b, List.map_append, List.map_map]
    rfl
  · rw [hab.namespaces_divide, hs.namespaces_divide, hb.namespaces_divide, List.map_append, hnames,
      eraseDups_append_eq]
  · rw [hab.get?_units_divide hn, hs.get?_units_divide hn, hb.get?_units_divide hn,
      List.filter_append, List.map_append, List.map_append, hnames, extents_of_worth hworth n,
      unitText_append]
    have hnone : ∀ l : List Plot, n ∉ l.map Plot.name → (l.filter fun q => q.name = n) = [] := by
      intro l hl
      refine List.filter_eq_nil_iff.2 fun q hq hqn => hl ?_
      exact List.mem_map.2 ⟨q, hq, by simpa using hqn⟩
    by_cases h₁ : n ∈ plots.map Plot.name <;> by_cases h₂ : n ∈ plots'.map Plot.name <;>
      simp [h₁, h₂, hnone, unitText]
  · rw [hab.forms_divide_eq, hs.forms_divide_eq, hb.forms_divide_eq, keys_foldl_insertNew,
      keys_foldl_insertNew, keys_foldl_insertNew, List.map_append, hnames]
    simp [eraseDups_append_eq]
  · rw [hab.forms_divide_eq, List.foldl_append, foldl_insertNew_of_worth hworth,
      ← hs.forms_divide_eq, get?_foldl_insertNew, hb.forms_divide_eq, get?_foldl_insertNew,
      Table.get?_empty, Option.none_or]

/-- A block with a declaration in it and blanks behind it, and a text that goes on in the block's
namespace and ends in a block of another one that is never closed. -/
theorem divide_append_open_block :
    let a := "using X; namespace A \x7b namespace B; \x7d \n".toList
    let b := "class C namespace A; d namespace B \x7b e".toList
    EndsInBlock a ∧ (divide (a ++ b)).JoinOf (divide a) (divide b) ∧
      (divide (a ++ b)).units.get? "A" = some "namespace B;\nd\n".toList ∧
      (divide (a ++ b)).forms.toList = [("A", .block), ("B", .block)] := by
  intro a b
  let outer : Plot := ⟨9, "using X; ".toList,
    ⟨[' '], ['A'], [' '], .block, by simp, List.all_eq_true.1 rfl, rfl, List.all_eq_true.1 rfl, rfl,
      List.all_eq_true.1 rfl⟩,
    " namespace B; ".toList, ['}']⟩
  have hlead : Quiet none outer.lead [] :=
    quiet_of_tokensFrom_eq_nil (show tokensFrom 0 _ _ = [] by decide +kernel)
  have hback : Quiet (some '}') " \n".toList [] :=
    quiet_of_tokensFrom_eq_nil (show tokensFrom 0 _ _ = [] by decide +kernel)
  have hbalanced : Balanced outer.extent := ⟨closingBrace?_eq_none_iff.1 (by decide), by decide⟩
  have hs : Survey 0 none a [outer] " \n".toList :=
    .plot outer rfl rfl (hlead.text_append _ _) (.closed rfl rfl hbalanced) (.done hback)
  have ha : EndsInBlock a :=
    ⟨[outer], " \n".toList, hs, ⟨outer, rfl, rfl⟩, List.all_eq_true.1 rfl⟩
  exact ⟨ha, divide_append ha b, by decide +kernel, by decide +kernel⟩

end Decompilation.Source
