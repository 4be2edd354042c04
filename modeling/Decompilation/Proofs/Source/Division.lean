import Decompilation.Proofs.Source.Header
import Decompilation.Proofs.Source.Partition
import Decompilation.Source.Division

/-!
# Reading a unit again

A unit that is made of a single region is written as a text of which the survey is known: the header
leads up to one plot, whose region is the trimmed region of the unit. Trimming a region opens no
declaration in it (`Quiet.trim`) and leaves it balanced (`Balanced.trim`), so what is written is read
as the same unit under the same header (`divide_renderUnit`).
-/

namespace Decompilation.Source

open Text

variable {before : Option Char} {a b e s text back : List Char} {plots : List Plot}

/-! ## Trimmed regions -/

theorem exists_of_declaresAt_blanks {p : Nat} {h : Head} (ha : ∀ c ∈ a, isBlank c = true)
    (hb : ∀ c ∈ b, isBlank c = true) (hd : DeclaresAt before (a ++ (s ++ b)) p h) :
    ∃ front rest, s = front ++ (h.text ++ rest) ∧
      (lastOr (lastOr before a) front).any isWord = false := by
  obtain ⟨front, rest, hstands, -⟩ := hd
  have heq : front ++ (namespaceWord ++ (h.tail ++ rest)) = a ++ (s ++ b) := by
    rw [hstands.eq, List.append_assoc]
  obtain ⟨front, rfl, hs⟩ := append_eq_of_not_mem (not_mem_of_blank ha (by decide)) heq
  have hleft := hstands.left
  rw [lastOr_append] at hleft
  have hpieces : s ++ b = (front ++ h.stem) ++ h.form.delimiter :: rest := by
    rw [← hs, ← List.append_assoc namespaceWord, ← Head.text, Head.text_eq]
    simp
  rcases List.append_eq_append_iff.1 hpieces with ⟨x, hx, hrest⟩ | ⟨x, rfl, hrest⟩
  · -- the delimiter would be one of the blanks
    have hm : h.form.delimiter ∈ b := by simp [hrest]
    exact absurd (hb _ hm) (by simp [isBlank_delimiter])
  · cases x with
    | nil =>
      have hm : h.form.delimiter ∈ b := by
        rw [List.nil_append] at hrest
        simp [← hrest]
      exact absurd (hb _ hm) (by simp [isBlank_delimiter])
    | cons c x =>
      obtain rfl : h.form.delimiter = c := by simpa using congrArg List.head? hrest
      exact ⟨front, x, by simp [Head.text_eq], hleft⟩

theorem any_isWord_lastOr_blanks (hbefore : before.any isWord = false)
    (ha : ∀ c ∈ a, isBlank c = true) : (lastOr before a).any isWord = false := by
  unfold lastOr
  cases hlast : a.getLast? with
  | none => exact hbefore
  | some c => exact not_isWord_of_isBlank (ha c (List.mem_of_getLast? hlast))

/-- Trimming a region opens no declaration in it. -/
theorem Quiet.trim (hq : Quiet before e s) (hbefore : before.any isWord = false)
    (ha : ∀ c ∈ a, isBlank c = true) (hb : ∀ c ∈ b, isBlank c = true) :
    Quiet before (a ++ (trim e ++ b)) [] := by
  intro p h hd
  rw [List.append_nil] at hd
  obtain ⟨front, rest, htrim, hleft⟩ := exists_of_declaresAt_blanks ha hb hd
  obtain ⟨a', b', ha', hb', he⟩ := exists_trim e
  rw [htrim] at he
  have hleft' : (lastOr before (a' ++ front)).any isWord = false := by
    rw [lastOr_append]
    cases front using List.reverseRecOn with
    | nil =>
      rw [lastOr_nil]
      exact any_isWord_lastOr_blanks hbefore ha'
    | append_singleton front c => rwa [lastOr_concat] at hleft ⊢
  have hd' := declaresAt_text _ h (rest ++ (b' ++ s)) hleft'
  have hle := hq _ h (by simpa [he] using hd')
  have hpos := List.length_pos_iff.2 (text_ne_nil h)
  simp only [he, List.length_append] at hle
  omega

theorem Balanced.trim (he : Balanced e) (ha : ∀ c ∈ a, isBlank c = true)
    (hb : ∀ c ∈ b, isBlank c = true) : Balanced (a ++ (trim e ++ b)) := by
  have hfree : ∀ l : List Char, (∀ c ∈ l, isBlank c = true) → '{' ∉ l ∧ '}' ∉ l := fun l hl =>
    ⟨not_mem_of_blank hl (by decide), not_mem_of_blank hl (by decide)⟩
  obtain ⟨a', b', ha', hb', htrim⟩ := exists_trim e
  rw [htrim, balanced_append_append (hfree a' ha') (hfree b' hb')] at he
  rwa [balanced_append_append (hfree a ha) (hfree b hb)]

/-! ## A unit as it is written -/

/-- A head as it is written. -/
def Head.written (h : Head) : Head where
  gap := [' ']
  name := h.name
  pad := match h.form with
    | .block => ['\n']
    | .fileScoped => []
  form := h.form
  gap_ne_nil := by simp
  gap_blank := List.all_eq_true.1 rfl
  name_start := h.name_start
  name_qualified := h.name_qualified
  name_longest := by cases h.form <;> rfl
  pad_blank := by cases h.form <;> exact List.all_eq_true.1 rfl

namespace Form

/-- The blanks between a declaration and what is written behind it. -/
def margin : Form → List Char
  | .block => ['\n']
  | .fileScoped => ['\n', '\n']

/-- What closes a declaration. -/
def closing : Form → List Char
  | .block => ['}']
  | .fileScoped => []

/-- What is left behind a declaration that is written. -/
def rest : Form → List Char
  | .block => ['\n']
  | .fileScoped => []

theorem margin_blank (f : Form) : ∀ c ∈ f.margin, isBlank c = true := by
  cases f <;> exact List.all_eq_true.1 rfl

theorem rest_blank (f : Form) : ∀ c ∈ f.rest, isBlank c = true := by
  cases f <;> exact List.all_eq_true.1 rfl

end Form

/-- A plot as it is written behind a header. -/
def Plot.written (p : Plot) (header : List Char) : Plot where
  start := (headerFront header).length
  lead := headerFront header
  head := p.head.written
  extent := p.head.form.margin ++ (trim p.extent ++ ['\n'])
  closing := p.head.form.closing

theorem headerFront_append (header wrapped : List Char) :
    joinWith ['\n', '\n'] ((if header.isEmpty then [] else [header]) ++ [wrapped]) =
      headerFront header ++ wrapped := by
  unfold headerFront
  split <;> simp [joinWith]

theorem wrap_block (name : String) (body : List Char) : wrap name .block body =
    "namespace ".toList ++ name.toList ++ "\n\x7b\n".toList ++ body ++ "\n\x7d".toList := rfl

theorem wrap_fileScoped (name : String) (body : List Char) : wrap name .fileScoped body =
    "namespace ".toList ++ name.toList ++ ";\n\n".toList ++ body := rfl

theorem wrap_append_newline (h : Head) (body : List Char) :
    wrap (String.ofList h.name) h.form body ++ ['\n'] = h.written.text ++
      (h.form.margin ++ (body ++ ['\n']) ++ (h.form.closing ++ h.form.rest)) := by
  have hword : "namespace ".toList = namespaceWord ++ [' '] := by decide
  cases hform : h.form with
  | block =>
    rw [wrap_block, hword]
    simp [Head.written, Head.text, Head.tail, hform, Form.margin, Form.closing, Form.rest,
      Form.delimiter]
  | fileScoped =>
    rw [wrap_fileScoped, hword]
    simp [Head.written, Head.text, Head.tail, hform, Form.margin, Form.closing, Form.rest,
      Form.delimiter]

/-- A unit of a namespace as it is written is a header, a plot and what is left behind it. -/
theorem render_eq (header body : List Char) (p : Plot) (hbody : trim body = trim p.extent) :
    render header p.name body p.head.form = (p.written header).text ++ p.head.form.rest := by
  simp only [render, p.name_ne_globalName, if_false, hbody, headerFront_append]
  rw [List.append_assoc, Plot.name, wrap_append_newline]
  simp [Plot.text, Plot.written]

theorem Wordless.quiet {lead : List Char} (hw : Wordless lead)
    (hlast : (lastOr none lead).any isWord = false) : Quiet none lead s := by
  rintro p h ⟨front, rest, hstands, rfl⟩
  exact hw.le_length hlast hstands

/-- The survey of a unit as it is written. -/
theorem survey_written {p : Plot} (hfits : p.Fits s) (hclosed : p.head.form = .block → p.closing = ['}'])
    (text : List Char) :
    Survey 0 none ((p.written (header text)).text ++ p.head.form.rest) [p.written (header text)]
      p.head.form.rest := by
  refine .plot _ (by simp [Plot.written]) (lastOr_headerFront _) ?_ ?_ (.done ?_)
  · exact (wordless_headerFront text).quiet (lastOr_headerFront _)
  · cases hfits with
    | file form closing quiet next =>
      have hrest : p.head.form.rest = [] := by rw [form]; rfl
      rw [hrest]
      refine .file form (by simp [Plot.written, form, Form.closing]) ?_ (.inl rfl)
      exact quiet.trim (b := ['\n']) rfl p.head.form.margin_blank isBlank_newline
    | closed form closing balanced =>
      exact .closed form (by simp [Plot.written, form, Form.closing])
        (balanced.trim (b := ['\n']) p.head.form.margin_blank isBlank_newline)
    | unclosed form closing within last =>
      rw [hclosed form] at closing
      simp at closing
  · intro q h hd
    obtain ⟨front, rest, hnil, -⟩ := exists_of_declaresAt_blanks (s := []) (b := [])
      p.head.form.rest_blank (by simp) hd
    simp [text_ne_nil] at hnil

/-! ## What is read back -/

theorem Survey.fits {offset : Nat} (hs : Survey offset before s plots back) :
    ∀ p ∈ plots, ∃ s', p.Fits s' := by
  induction hs with
  | done => simp
  | plot p _ _ _ fits _ ih =>
    intro q hq
    rcases List.mem_cons.1 hq with rfl | hq
    · exact ⟨_, fits⟩
    · exact ih q hq

/-- A text that is divided as one unit of another text was divided. -/
structure Division.GivesBack (r d : Division) (name : String) (body : List Char) : Prop where
  header : r.header = d.header
  /-- The unit's namespace is the only one, in the form it had. -/
  forms : r.forms.toList = [(name, d.formOf name)]
  unit : r.units.get? name = some body
  /-- The only other unit is that of all text outside namespaces. -/
  keys : ∀ n ∈ r.units.keys, n = name ∨ n = globalName
  /-- That one is the header, trimmed, and blanks. -/
  outside : ∀ v, r.units.get? globalName = some v →
    ∃ blanks, (∀ c ∈ blanks, isBlank c = true) ∧ v = trim d.header ++ blanks

theorem units_divide (text : List Char) : (divide text).units = (partition text).units := rfl

theorem forms_divide (text : List Char) : (divide text).forms = (partition text).forms := rfl

theorem trim_headerFront (header : List Char) : trim (headerFront header) = trim header := by
  unfold headerFront
  split
  · rename_i hnil
    rw [List.isEmpty_iff.1 hnil]
  · exact trim_append_right (List.all_eq_true.1 rfl)

/-- The text around a unit as it is written is the header, trimmed, and blanks. -/
theorem unitText_outskirts_written (p : Plot) (header : List Char) :
    ∃ blanks, (∀ c ∈ blanks, isBlank c = true) ∧
      unitText (outskirts [p.written header] p.head.form.rest) = trim header ++ blanks := by
  have hrest : ∃ blanks, (∀ c ∈ blanks, isBlank c = true) ∧
      unitText ([p.head.form.rest].filter (· ≠ [])) = blanks := by
    cases p.head.form <;> exact ⟨_, List.all_eq_true.1 rfl, rfl⟩
  obtain ⟨blanks, hblanks, hrest⟩ := hrest
  have hpieces : outskirts [p.written header] p.head.form.rest =
      [headerFront header].filter (· ≠ []) ++ [p.head.form.rest].filter (· ≠ []) :=
    List.filter_append [headerFront header] _
  rw [hpieces, unitText, List.flatMap_append]
  rw [unitText] at hrest
  by_cases hfront : headerFront header = []
  · refine ⟨blanks, hblanks, ?_⟩
    rw [hrest, ← trim_headerFront header, hfront]
    rfl
  · refine ⟨'\n' :: blanks, ?_, ?_⟩
    · simpa using ⟨by decide, hblanks⟩
    · rw [hrest, List.filter_singleton, decide_eq_true hfront, ← trim_headerFront header]
      simp

/-- **A unit made of one region is read back as it was written.** Every text can be surveyed. Where
it has just one plot of a namespace, and a brace closes it if it is a block, reading the unit of the
namespace as it is written gives the unit back, in the same form and under the same header. -/
theorem divide_renderUnit (text : List Char) :
    (∃ plots back, Survey 0 none text plots back) ∧
    ∀ (plots : List Plot) (back : List Char) (p : Plot), Survey 0 none text plots back →
      (plots.filter fun q => q.name = p.name) = [p] →
      (p.head.form = .block → p.closing = ['}']) →
      ∃ body, (divide text).units.get? p.name = some body ∧
        (divide text).forms.get? p.name = some p.head.form ∧
        (divide ((divide text).renderUnit p.name body)).GivesBack (divide text) p.name body := by
  refine ⟨exists_survey 0 none text, ?_⟩
  intro plots back p hs honce hclosed
  obtain ⟨hp, -⟩ := List.mem_filter.1 (honce ▸ List.mem_singleton_self p)
  have hmade := hs.madeOf (List.ne_nil_of_mem hp)
  have hbody : (partition text).units.get? p.name = some (trim p.extent ++ ['\n']) := by
    have := hmade.named p.name p.name_ne_globalName
    rw [if_pos (List.mem_map_of_mem hp), honce] at this
    simpa [unitText] using this
  have hform : (partition text).forms.get? p.name = some p.head.form := by
    have := hmade.forms p.name
    rw [← List.head?_filter, honce] at this
    exact this
  refine ⟨_, hbody, hform, ?_⟩
  obtain ⟨s, hfits⟩ := hs.fits p hp
  have hwritten := survey_written hfits hclosed text
  have hmade' := hwritten.madeOf (by simp)
  have hformOf : (divide text).formOf p.name = p.head.form := by
    rw [Division.formOf, forms_divide, hform, Option.getD_some]
  have hrender : (divide text).renderUnit p.name (trim p.extent ++ ['\n']) =
      (p.written (header text)).text ++ p.head.form.rest := by
    rw [Division.renderUnit, hformOf]
    exact render_eq _ _ _ (by rw [trim_append_right isBlank_newline, trim_trim])
  rw [hrender]
  refine ⟨?_, ?_, ?_, fun n hn => ?_, fun v hv => ?_⟩
  · have : (p.written (header text)).text ++ p.head.form.rest =
        headerFront (header text) ++ (namespaceWord ++ (p.head.written.tail ++
          ((p.written (header text)).extent ++ (p.head.form.closing ++ p.head.form.rest)))) := by
      simp [Plot.text, Plot.written, Head.text]
    rw [this]
    exact header_headerFront_append text (p.head.written.tail_head? _)
  · rw [hformOf]
    exact congrArg Table.toList (partitionBy_tokenize hwritten (by simp)).2
  · have hunit := hmade'.named p.name p.name_ne_globalName
    have hname : (p.written (header text)).name = p.name := rfl
    have htrim : trim (p.written (header text)).extent = trim p.extent := by
      rw [Plot.written, trim_append_append p.head.form.margin_blank isBlank_newline, trim_trim]
    simpa [units_divide, hname, unitText, htrim] using hunit
  · by_contra hother
    rw [not_or] at hother
    have hnot : n ∉ [p.written (header text)].map Plot.name := fun hm =>
      hother.1 (List.mem_singleton.1 hm)
    have hnone := hmade'.named n hother.2
    rw [if_neg hnot] at hnone
    exact Table.get?_eq_none_iff.1 hnone hn
  · have hsome := hmade'.unnamed.symm.trans hv
    split at hsome
    · simp at hsome
    · rw [← Option.some.inj hsome]
      exact unitText_outskirts_written p (header text)

/-- A namespace that is declared a second time inside the block of another. -/
theorem divide_renderUnit_declared_again :
    let text := "using X;\nnamespace A { namespace C { } }namespace C;\nclass D".toList
    ∃ (plots : List Plot) (back : List Char) (p : Plot),
      Survey 0 none text plots back ∧ p.name = "C" ∧
      (plots.filter fun q => q.name = p.name) = [p] ∧
      (p.head.form = .block → p.closing = ['}']) ∧
      ∃ body, (divide text).units.get? p.name = some body ∧
        (divide text).forms.get? p.name = some p.head.form ∧
        (divide ((divide text).renderUnit p.name body)).GivesBack (divide text) p.name body := by
  intro text
  let outer : Plot := ⟨9, "using X;\n".toList,
    ⟨[' '], ['A'], [' '], .block, by simp, List.all_eq_true.1 rfl, rfl, List.all_eq_true.1 rfl, rfl,
      List.all_eq_true.1 rfl⟩,
    " namespace C { } ".toList, ['}']⟩
  let p : Plot := ⟨outer.finish, [],
    ⟨[' '], ['C'], [], .fileScoped, by simp, List.all_eq_true.1 rfl, rfl, List.all_eq_true.1 rfl, rfl,
      List.all_eq_true.1 rfl⟩,
    "\nclass D".toList, []⟩
  have hlead : Wordless outer.lead := fun _ _ =>
    not_standsWhole_of_cutAtWord? (by decide) (by decide)
  have hextent : Quiet (some ';') p.extent [] := by
    intro q h hd
    rw [List.append_nil] at hd
    exact absurd hd (not_declaresAt_of_cutAtWord? (by decide))
  have hbalanced : Balanced outer.extent := ⟨closingBrace?_eq_none_iff.1 (by decide), by decide⟩
  have hs : Survey 0 none text [outer, p] [] :=
    .plot (s := p.text ++ []) outer rfl rfl (hlead.quiet rfl) (.closed rfl rfl hbalanced)
      (.plot p rfl rfl quiet_nil (.file rfl rfl hextent (.inl rfl)) (.done quiet_nil))
  have honce : ([outer, p].filter fun q => q.name = p.name) = [p] := by simp [outer, p, Plot.name]
  have hclosed : p.head.form = .block → p.closing = ['}'] := by simp [p]
  exact ⟨[outer, p], [], p, hs, rfl, honce, hclosed,
    (divide_renderUnit text).2 [outer, p] [] p hs honce hclosed⟩

end Decompilation.Source
