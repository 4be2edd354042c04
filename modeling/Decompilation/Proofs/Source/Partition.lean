import Decompilation.Proofs.Source.Survey
import Decompilation.Proofs.Table
import Decompilation.Proofs.Text.Search
import Decompilation.Source.Partition

/-!
# Who gets what

The partition of a text is read off its survey: `shares` lists the regions with the units they go
to, the regions of the plots to their namespaces, the text before the first plot and behind the last
one to the unit of all text outside namespaces. A unit is the regions of its shares, each trimmed
and ended by a newline, and a namespace's form is that of its first plot
(`partition_accounts_for_text`).
-/

namespace Decompilation.Source

open Text

variable {offset : Nat} {before : Option Char} {s text done back : List Char} {plots : List Plot}

/-! ## The regions that are read -/

/-- A head up to its delimiter. -/
def Head.stem (h : Head) : List Char := namespaceWord ++ (h.gap ++ (h.name ++ h.pad))

theorem Head.text_eq (h : Head) : h.text = h.stem ++ [h.form.delimiter] := by
  simp [Head.text, Head.tail, Head.stem]

theorem Head.delimiter_not_mem_stem (h : Head) : h.form.delimiter ∉ h.stem := by
  have hblank : ∀ s : List Char, (∀ c ∈ s, isBlank c = true) → h.form.delimiter ∉ s := by
    intro s hs hm
    simpa [isBlank_delimiter] using hs _ hm
  simp only [Head.stem, List.mem_append, not_or]
  refine ⟨?_, hblank _ h.gap_blank, ?_, hblank _ h.pad_blank⟩
  · cases h.form <;> decide
  · intro hm
    simpa [isQualified_delimiter] using h.name_qualified _ hm

namespace Plot

variable {p : Plot}

theorem text_append (p : Plot) (s : List Char) :
    p.text ++ s = p.lead ++ (p.head.text ++ (p.extent ++ (p.closing ++ s))) := by
  simp [text]

theorem body_pos (p : Plot) : p.body - 1 + 1 = p.body := by
  have := List.length_pos_iff.2 (text_ne_nil p.head)
  simp only [body]
  omega

/-- A text up to and from the place where a plot's region starts. -/
theorem eq_append_body (hstart : p.start = (done ++ p.lead).length)
    (htext : text = done ++ (p.text ++ s)) :
    text = (done ++ (p.lead ++ p.head.text)) ++ (p.extent ++ (p.closing ++ s)) ∧
      (done ++ (p.lead ++ p.head.text)).length = p.body := by
  constructor
  · rw [htext, text_append]
    simp
  · rw [body, hstart]
    simp [Nat.add_assoc]

/-- The delimiter that the plot's declaration is searched for is that of its head. -/
theorem findFrom?_delimiter (hstart : p.start = (done ++ p.lead).length)
    (htext : text = done ++ (p.text ++ s)) :
    findFrom? p.head.form.delimiter text p.start = some (p.body - 1) := by
  have hpieces : text = (done ++ p.lead) ++
      (p.head.stem ++ p.head.form.delimiter :: (p.extent ++ (p.closing ++ s))) := by
    rw [htext, text_append, Head.text_eq]
    simp
  have hbody : p.body - 1 = (done ++ p.lead).length + p.head.stem.length := by
    have hstem : (p.head.stem ++ [p.head.form.delimiter]).length - 1 = p.head.stem.length := by simp
    rw [body, hstart, Head.text_eq, Nat.add_sub_assoc (by simp), hstem]
  rw [hpieces, hstart, hbody]
  exact findFrom?_append p.head.delimiter_not_mem_stem _ _

theorem fileRegion_eq (hstart : p.start = (done ++ p.lead).length)
    (htext : text = done ++ (p.text ++ s)) (hform : p.head.form = .fileScoped)
    {next : Option Token} (hnext : (next.map Token.offset).getD text.length = p.stop) :
    fileRegion text p.token next = (p.extent, (p.stop : Int)) := by
  have hfind : findFrom? ';' text p.start = some (p.body - 1) := by
    have := findFrom?_delimiter hstart htext
    rwa [hform] at this
  have hbody : ((p.body - 1 : Nat) : Int) + 1 = p.body := by
    have := p.body_pos
    omega
  have hslice : slice text p.body p.stop = p.extent := by
    obtain ⟨hpieces, hlen⟩ := eq_append_body hstart htext
    rw [hpieces, stop, ← hlen]
    exact slice_append _ _ _
  have hoffset : p.token.offset = p.start := rfl
  cases next with
  | none =>
    rw [Option.map_none, Option.getD_none] at hnext
    simp only [fileRegion, hoffset, hfind, hbody, hnext, hslice]
  | some n =>
    rw [Option.map_some, Option.getD_some] at hnext
    simp only [fileRegion, hoffset, hfind, hbody, hnext, hslice]

theorem blockRegion?_eq (hstart : p.start = (done ++ p.lead).length)
    (htext : text = done ++ (p.text ++ s)) (hform : p.head.form = .block) (hfits : p.Fits s) :
    blockRegion? text p.token = some (p.extent, (p.finish : Int)) := by
  obtain ⟨hpieces, hlen⟩ := eq_append_body hstart htext
  have hfind : findFrom? '{' text p.start = some (p.body - 1) := by
    have := findFrom?_delimiter hstart htext
    rwa [hform] at this
  have hdrop : text.drop p.body = p.extent ++ (p.closing ++ s) := by
    rw [hpieces, ← hlen, List.drop_left]
  have hoffset : p.token.offset = p.start := rfl
  simp only [blockRegion?, hoffset, hfind, Option.map_some, body_pos, hdrop]
  cases hfits with
  | file form => simp [form] at hform
  | closed _ closing balanced =>
    have hfinish : p.finish = p.body + (p.extent.length + 1) := by
      rw [finish, stop, closing, List.length_singleton, Nat.add_assoc]
    rw [closing, List.cons_append, List.nil_append, balanced.closingBrace?]
    simp only [Nat.add_sub_cancel, List.take_left, hfinish]
  | unclosed _ closing within last =>
    have hfinish : text.length = p.finish := by
      rw [hpieces, List.length_append, hlen, closing, last, finish, stop, closing]
      simp
    rw [closing, last, List.append_nil, List.append_nil, closingBrace?_eq_none_iff.2 within, hfinish]

theorem Fits.finish_eq_stop (hfits : p.Fits s) (hform : p.head.form = .fileScoped) :
    p.finish = p.stop := by
  cases hfits with
  | file _ closing => rw [finish, closing]; rfl
  | closed form => simp [form] at hform
  | unclosed form => simp [form] at hform

/-- The declaration behind a file-scoped one starts where the region of that one stops. -/
theorem Fits.next_offset (hfits : p.Fits s) (before : Option Char) (hform : p.head.form = .fileScoped)
    (hstart : p.start = (done ++ p.lead).length) (htext : text = done ++ (p.text ++ s)) :
    ((tokensFrom p.finish (lastOr before p.text) s).head?.map Token.offset).getD text.length =
      (p.stop : Int) := by
  have hfinish := hfits.finish_eq_stop hform
  cases hfits with
  | file _ closing quiet next =>
    rcases next with rfl | ⟨h, hd⟩
    · obtain ⟨hpieces, hlen⟩ := eq_append_body hstart htext
      have : text.length = p.stop := by
        rw [hpieces, List.length_append, hlen, closing, stop]
        simp
      rw [tokensFrom_of_cut_none rfl, ← this]
      rfl
    · have hbefore : lastOr before p.text = lastOr (some ';') p.extent := by
        rw [lastOr_text, closing, List.append_nil, hform]
        rfl
      rw [← hbefore] at hd
      obtain ⟨ts, hts⟩ := tokensFrom_of_declaresAt_zero p.finish hd
      rw [hts, hfinish]
      rfl
  | closed form => simp [form] at hform
  | unclosed form => simp [form] at hform

end Plot

/-! ## The walk over the declarations -/

namespace Partition

/-- The region of a plot added to its namespace's unit, and its form noted. -/
def claim (p : Partition) (q : Plot) : Partition := (p.note q.token).add q.name q.extent

end Partition

theorem consume_append_of_lt {cursor : Int} {p : Partition} {ts us : List Token}
    (hts : ∀ t ∈ ts, t.offset < cursor) :
    consume text cursor p (ts ++ us) = consume text cursor p us := by
  induction ts with
  | nil => rfl
  | cons t ts ih =>
    rw [List.cons_append, consume, if_pos (hts t (List.mem_cons_self ..))]
    exact ih fun u hu => hts u (List.mem_cons_of_mem _ hu)

/-- The walk over the declarations of a text claims the plots of its survey. -/
theorem consume_survey (hs : Survey offset before s plots back) (htext : text = done ++ s)
    (hoffset : offset = done.length) (p : Partition) :
    consume text offset p (tokensFrom offset before s) =
      (((text.length - back.length : Nat) : Int), plots.foldl Partition.claim p) := by
  induction hs generalizing done p with
  | @done offset before s quiet =>
    rw [quiet.tokensFrom_eq_nil, consume, htext, List.length_append, Nat.add_sub_cancel, hoffset]
    rfl
  | @plot offset before s plots back q start stands quiet fits rest ih =>
    have hstart : q.start = (done ++ q.lead).length := by
      rw [start, hoffset, List.length_append]
    have htext' : text = (done ++ q.text) ++ s := by rw [htext, List.append_assoc]
    have hoffset' : q.finish = (done ++ q.text).length := by
      rw [q.finish_eq start, hoffset, List.length_append]
    have hrest := ih htext' hoffset'
    obtain ⟨ts, hbody, hts⟩ := q.tokensFrom_body fits before
    have hskip : ¬ q.token.offset < (offset : Int) := by
      simp only [Plot.token, Head.token]
      omega
    rw [Plot.tokensFrom_text_append start stands quiet, hbody, consume, if_neg hskip]
    have hform : q.token.form = q.head.form := rfl
    cases hq : q.head.form with
    | fileScoped =>
      obtain rfl : ts = [] := by
        cases ts with
        | nil => rfl
        | cons t ts => simpa [hq] using (hts t (List.mem_cons_self ..)).1
      have hnext := fits.next_offset before hq hstart htext
      simp only [hform, hq, List.nil_append, Plot.fileRegion_eq hstart htext hq hnext]
      rw [← fits.finish_eq_stop hq, hrest]
      rfl
    | block =>
      simp only [hform, hq, Plot.blockRegion?_eq hstart htext hq fits]
      rw [consume_append_of_lt fun t ht => (hts t ht).2.2, hrest]
      rfl

/-! ## Shares -/

/-- A region outside namespaces, unless it is empty, for the unit of such regions. -/
def outside (region : List Char) : List (String × List Char) :=
  if region.isEmpty then [] else [(globalName, region)]

/-- The regions that the units of a text are made of, in order, with the units they go to. -/
def shares (plots : List Plot) (back : List Char) : List (String × List Char) :=
  outside ((plots.head?.map Plot.lead).getD []) ++
    (plots.map fun p => (p.name, p.extent)) ++ outside back

/-- The regions among shares that go to a unit. -/
def regionsOf (name : String) (shares : List (String × List Char)) : List (List Char) :=
  (shares.filter fun e => e.1 = name).map Prod.snd

/-- Regions as a unit has them: each trimmed and ended by a newline. -/
def unitText (regions : List (List Char)) : List Char :=
  regions.flatMap fun r => trim r ++ ['\n']

/-- A share added to its unit. -/
def addShare (units : Table String (List Char)) (share : String × List Char) :
    Table String (List Char) :=
  units.insert share.1 ((units.get? share.1).getD [] ++ trim share.2 ++ ['\n'])

theorem keys_foldl_addShare (l : List (String × List Char)) (u : Table String (List Char)) :
    (l.foldl addShare u).keys =
      u.keys ++ ((l.map Prod.fst).filter fun n => n ∉ u.keys).eraseDups :=
  Table.keys_foldl_insert Prod.fst _ l u

theorem regionsOf_cons (n : String) (e : String × List Char) (l : List (String × List Char)) :
    regionsOf n (e :: l) = if e.1 = n then e.2 :: regionsOf n l else regionsOf n l := by
  unfold regionsOf
  rw [List.filter_cons]
  split <;> simp_all

theorem get?_foldl_addShare (l : List (String × List Char)) (u : Table String (List Char))
    (n : String) : (l.foldl addShare u).get? n =
      if regionsOf n l = [] then u.get? n
      else some ((u.get? n).getD [] ++ unitText (regionsOf n l)) := by
  induction l generalizing u with
  | nil => simp [regionsOf]
  | cons e l ih =>
    rw [List.foldl_cons, ih, addShare, Table.get?_insert, regionsOf_cons]
    by_cases he : e.1 = n
    · subst he
      by_cases hl : regionsOf e.1 l = []
      · simp [hl, unitText]
      · simp [hl, unitText]
    · rw [if_neg he, if_neg (Ne.symm he)]

namespace Partition

theorem units_addGlobal (p : Partition) (region : List Char) :
    (p.addGlobal region).units = (outside region).foldl addShare p.units := by
  unfold addGlobal outside
  split <;> rfl

theorem forms_addGlobal (p : Partition) (region : List Char) :
    (p.addGlobal region).forms = p.forms := by
  unfold addGlobal
  split <;> rfl

theorem units_foldl_claim (plots : List Plot) (p : Partition) :
    (plots.foldl claim p).units = (plots.map fun q => (q.name, q.extent)).foldl addShare p.units := by
  induction plots generalizing p with
  | nil => rfl
  | cons q plots ih => rw [List.foldl_cons, ih]; rfl

theorem forms_foldl_claim (plots : List Plot) (p : Partition) :
    (plots.foldl claim p).forms =
      plots.foldl (fun f q => f.insertNew q.name q.head.form) p.forms := by
  induction plots generalizing p with
  | nil => rfl
  | cons q plots ih => rw [List.foldl_cons, ih]; rfl

end Partition

/-- A namespace's form is noted at its first plot. -/
theorem get?_foldl_insertNew (plots : List Plot) (f : Table String Form) (n : String) :
    (plots.foldl (fun f q => f.insertNew q.name q.head.form) f).get? n =
      (f.get? n).or ((plots.find? fun q => q.name = n).map fun q => q.head.form) := by
  induction plots generalizing f with
  | nil => simp
  | cons q plots ih =>
    rw [List.foldl_cons, ih, Table.get?_insertNew, List.find?_cons]
    by_cases hq : n = q.name
    · subst hq
      cases f.get? q.name <;> simp
    · simp [hq, Ne.symm hq]

theorem Plot.name_ne_globalName (p : Plot) : p.name ≠ globalName := by
  obtain ⟨c, r, hname, hc⟩ := p.head.name_head?
  intro h
  have := congrArg String.toList h
  rw [Plot.name, String.toList_ofList, hname] at this
  obtain rfl : c = '(' := by simpa [globalName] using congrArg List.head? this
  simp [isNameStart] at hc

/-- The text before a first declaration, if there is any, is a region outside namespaces. -/
theorem addGlobal_slice (p : Partition) (a b : List Char) :
    p.addGlobal (if 0 < (a.length : Int) then slice (a ++ b) 0 a.length else []) = p.addGlobal a := by
  split
  · have := slice_append [] a b
    rw [List.nil_append, List.length_nil, Nat.zero_add] at this
    rw [show ((0 : Int)) = ((0 : Nat) : Int) from rfl, this]
  · obtain rfl : a = [] := List.length_eq_zero_iff.1 (by omega)
    rfl

/-- The text behind a last region, if there is any, is a region outside namespaces. -/
theorem addGlobal_sliceFrom (p : Partition) (a b : List Char) :
    (if (a.length : Int) < (a ++ b).length then p.addGlobal (sliceFrom (a ++ b) a.length) else p) =
      p.addGlobal b := by
  rw [sliceFrom_append]
  split
  · rfl
  · rename_i hlt
    rw [List.length_append] at hlt
    obtain rfl : b = [] := List.length_eq_zero_iff.1 (by omega)
    rfl

/-- The partition of a text is what the shares of its survey amount to. -/
theorem partitionBy_tokenize (hs : Survey 0 none text plots back) (hne : plots ≠ []) :
    (partitionBy text (tokenize text)).units = (shares plots back).foldl addShare Table.empty ∧
    (partitionBy text (tokenize text)).forms =
      plots.foldl (fun f q => f.insertNew q.name q.head.form) Table.empty := by
  obtain ⟨p, plots, rfl⟩ := List.exists_cons_of_ne_nil hne
  obtain ⟨hstart, hhead⟩ := hs.first p rfl
  obtain ⟨ts, htokens⟩ : ∃ ts, tokenize text = p.token :: ts := by
    rw [tokenize]
    cases hts : tokensFrom 0 none text with
    | nil => simp [hts] at hhead
    | cons t ts => exact ⟨ts, by simpa [hts] using hhead⟩
  have htext : text = p.lead ++ (p.head.text ++ (p.extent ++ (p.closing ++
      (plots.flatMap Plot.text ++ back)))) := by
    rw [← hs.covers, List.flatMap_cons, List.append_assoc, Plot.text_append]
  have hoffset : p.token.offset = p.lead.length := by
    rw [Nat.zero_add] at hstart
    rw [← hstart]
    rfl
  have hfirst : Partition.empty.addGlobal
      (if 0 < p.token.offset then slice text 0 p.token.offset else []) =
        Partition.empty.addGlobal p.lead := by
    rw [hoffset, htext]
    exact addGlobal_slice _ _ _
  have hcover := hs.covers
  generalize hfront : (p :: plots).flatMap Plot.text = front at hcover
  have hwalk : consume text 0 (Partition.empty.addGlobal p.lead) (tokenize text) =
      ((front.length : Int), (p :: plots).foldl Partition.claim (Partition.empty.addGlobal p.lead)) := by
    have := consume_survey hs (List.nil_append text).symm rfl (Partition.empty.addGlobal p.lead)
    rw [← hcover, List.length_append, Nat.add_sub_cancel] at this
    rwa [← hcover]
  have hpartition : partitionBy text (tokenize text) =
      (((p :: plots).foldl Partition.claim (Partition.empty.addGlobal p.lead)).addGlobal back) := by
    rw [htokens] at hwalk ⊢
    simp only [partitionBy, hfirst, hwalk]
    rw [← hcover]
    exact addGlobal_sliceFrom _ _ _
  rw [hpartition, Partition.units_addGlobal, Partition.forms_addGlobal, Partition.units_foldl_claim,
    Partition.forms_foldl_claim, Partition.units_addGlobal, Partition.forms_addGlobal, shares,
    List.foldl_append, List.foldl_append]
  exact ⟨rfl, rfl⟩

/-- The regions outside namespaces: before the first plot and behind the last, unless empty. -/
def outskirts (plots : List Plot) (back : List Char) : List (List Char) :=
  [(plots.head?.map Plot.lead).getD [], back].filter (· ≠ [])

/-- A partition made of the regions of plots and the regions outside them. -/
structure Partition.MadeOf (p : Partition) (plots : List Plot) (back : List Char) : Prop where
  /-- The units are those that get a region, in the order in which they first get one. -/
  keys : p.units.keys = ((shares plots back).map Prod.fst).eraseDups
  /-- The unit of a namespace holds the regions of its plots, and nothing else. -/
  named : ∀ n, n ≠ globalName → p.units.get? n =
    if n ∈ plots.map Plot.name then
      some (unitText ((plots.filter fun q => q.name = n).map Plot.extent))
    else none
  /-- The unit of all text outside namespaces holds that text, and nothing else. -/
  unnamed : p.units.get? globalName =
    if outskirts plots back = [] then none else some (unitText (outskirts plots back))
  /-- A namespace has the form of its first plot. -/
  forms : ∀ n, p.forms.get? n = (plots.find? fun q => q.name = n).map fun q => q.head.form

theorem regionsOf_append (n : String) (l l' : List (String × List Char)) :
    regionsOf n (l ++ l') = regionsOf n l ++ regionsOf n l' := by
  simp [regionsOf]

theorem regionsOf_outside (n : String) (r : List Char) :
    regionsOf n (outside r) = if n = globalName then [r].filter (· ≠ []) else [] := by
  unfold outside
  split
  · rename_i hr
    rw [List.isEmpty_iff.1 hr]
    simp [regionsOf]
  · rename_i hr
    rw [List.isEmpty_iff] at hr
    by_cases hn : n = globalName
    · simp [regionsOf, hn, hr]
    · simp [regionsOf, hn, Ne.symm hn]

theorem regionsOf_plots (n : String) (plots : List Plot) :
    regionsOf n (plots.map fun q => (q.name, q.extent)) =
      (plots.filter fun q => q.name = n).map Plot.extent := by
  simp [regionsOf, List.filter_map, Function.comp_def]

theorem regionsOf_shares (n : String) : regionsOf n (shares plots back) =
    if n = globalName then outskirts plots back
    else (plots.filter fun q => q.name = n).map Plot.extent := by
  have hglobal : plots.filter (fun q => q.name = globalName) = [] :=
    List.filter_eq_nil_iff.2 fun q _ => by simpa using q.name_ne_globalName
  rw [shares, regionsOf_append, regionsOf_append, regionsOf_plots, regionsOf_outside,
    regionsOf_outside]
  split
  · rename_i hn
    rw [hn, hglobal, List.map_nil, List.append_nil, ← List.filter_append]
    rfl
  · rw [List.nil_append, List.append_nil]

theorem Survey.madeOf (hs : Survey 0 none text plots back) (hne : plots ≠ []) :
    (partition text).MadeOf plots back := by
  obtain ⟨hunits, hforms⟩ := partitionBy_tokenize hs hne
  have hget : ∀ n, (partition text).units.get? n =
      if regionsOf n (shares plots back) = [] then none
      else some (unitText (regionsOf n (shares plots back))) := by
    intro n
    rw [partition, hunits, get?_foldl_addShare]
    rfl
  refine ⟨?_, fun n hn => ?_, ?_, fun n => ?_⟩
  · rw [partition, hunits, keys_foldl_addShare]
    simp [Table.keys, Table.empty]
  · rw [hget, regionsOf_shares, if_neg hn]
    by_cases hmem : n ∈ plots.map Plot.name
    · obtain ⟨q, hq, hqn⟩ := List.mem_map.1 hmem
      rw [if_pos hmem, if_neg]
      simpa using ⟨q, hq, hqn⟩
    · rw [if_neg hmem, if_pos]
      simpa using hmem
  · rw [hget, regionsOf_shares, if_pos rfl]
  · rw [partition, hforms, get?_foldl_insertNew]
    rfl

/-- Without plots the whole text is outside namespaces. -/
theorem Survey.partition_of_nil (hs : Survey 0 none text [] back) :
    partition text = ⟨Table.empty.insert globalName (trim text), Table.empty⟩ := by
  rw [partition, hs.tokenize_eq_nil.1, partitionBy]

/-- The unit of a namespace holds the regions of its plots; without plots there is none. -/
theorem Survey.get?_units (hs : Survey 0 none text plots back) {n : String} (hn : n ≠ globalName) :
    (partition text).units.get? n = if n ∈ plots.map Plot.name then
      some (unitText ((plots.filter fun q => q.name = n).map Plot.extent)) else none := by
  by_cases hne : plots = []
  · subst hne
    rw [hs.partition_of_nil]
    simp [Table.get?_insert, hn, Table.get?_empty]
  · exact (hs.madeOf hne).named n hn

/-- **The partition of a text accounts for all of it.** A text in which something is declared can be
cut into plots so that nothing is left out and nothing is taken twice (`Cut`), and its partition is
what the regions of the plots and outside of them amount to (`Partition.MadeOf`). -/
theorem partition_accounts_for_text {text : List Char} (hdeclared : tokenize text ≠ []) :
    ∃ plots back, Cut text plots back ∧ (partition text).MadeOf plots back := by
  obtain ⟨plots, back, hs⟩ := exists_survey 0 none text
  have hne : plots ≠ [] := by
    rintro rfl
    cases hs with
    | done quiet => exact hdeclared quiet.tokensFrom_eq_nil
  exact ⟨plots, back, hs.cut, hs.madeOf hne⟩

/-- A text with a declaration inside a block, one between blocks that goes up to the next, and a
block of the first name again that is never closed. -/
theorem partition_accounts_for_nested_text :
    let text := "using X; namespace A \x7b namespace B; \x7d namespace C; c namespace A \x7b\x7d\x7b".toList
    tokenize text ≠ [] ∧
      ∃ plots back, Cut text plots back ∧ (partition text).MadeOf plots back := by
  have hdeclared : tokenize
      "using X; namespace A \x7b namespace B; \x7d namespace C; c namespace A \x7b\x7d\x7b".toList ≠ [] := by
    decide +kernel
  exact ⟨hdeclared, partition_accounts_for_text hdeclared⟩

end Decompilation.Source
