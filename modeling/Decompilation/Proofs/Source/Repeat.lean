import Mathlib.Algebra.GroupWithZero.Nat
import Mathlib.Algebra.Order.BigOperators.Group.List
import Mathlib.Algebra.Order.Group.Nat
import Mathlib.Data.List.DropRight
import Decompilation.Proofs.Source.Directive
import Decompilation.Proofs.Source.Join
import Decompilation.Proofs.Text.Plain
import Decompilation.Source.Division

/-!
# Directives that are repeated

The directives of a header stand in front of the first declaration, and so does the text outside
namespaces that is read first. Where that text is written as a unit under the header, a directive stands
there once for the header and once more for each time that it stands in the text outside namespaces. So
it is repeated whenever the first word `namespace` declares a namespace (`render_repeats_directives`).
-/

namespace Decompilation.Source

open Text

variable {text body front line l s : List Char} {plots : List Plot} {back : List Char} {form : Form}

/-! ## Counting lines -/

/-- How often a line stands in a text, whatever blanks are around it. -/
def timesIn (l s : List Char) : Nat := (plainLines s).count (trim l)

/-- How often a line stands among the directives in front of the first whole word `namespace`. -/
def timesAhead (l text : List Char) : Nat :=
  (((lines (preamble text)).filter isUsingDirective).map trim).count (trim l)

theorem isUsingDirective_trim (l : List Char) : isUsingDirective (trim l) = isUsingDirective l := by
  rw [isUsingDirective, isUsingDirective, trim_trim]

theorem trim_ne_nil_of_isUsingDirective (h : isUsingDirective l = true) : trim l ≠ [] := by
  intro hnil
  rw [← isUsingDirective_trim, hnil] at h
  cases h

/-- The directives of a text as lines without the blanks around them. -/
theorem filter_plainLines (s : List Char) : (plainLines s).filter isUsingDirective =
    ((lines s).filter isUsingDirective).map trim := by
  rw [plainLines, List.filter_filter, List.filter_map]
  refine congrArg (List.map trim) (List.filter_congr fun l _ => ?_)
  rw [Function.comp_apply, isUsingDirective_trim, Bool.and_eq_left_iff_imp]
  exact fun h => by simpa using trim_ne_nil_of_isUsingDirective h

theorem map_trim_directives (text : List Char) :
    (directives text).map trim = (plainLines (preamble text)).filter isUsingDirective := by
  rw [filter_plainLines, directives, List.map_map]
  exact List.map_congr_left fun l _ => trim_trimEnd l

theorem timesAhead_eq (h : isUsingDirective l = true) :
    timesAhead l text = timesIn l (preamble text) := by
  rw [timesAhead, ← filter_plainLines, List.count_filter (by rwa [isUsingDirective_trim])]
  rfl

/-- A directive stands ahead. -/
theorem timesAhead_pos (h : l ∈ directives text) : 0 < timesAhead l text := by
  rw [timesAhead, ← filter_plainLines, ← map_trim_directives]
  exact List.count_pos_iff.2 (List.mem_map_of_mem h)

theorem directives_ne_nil (h : header text ≠ []) : directives text ≠ [] := by
  intro hnil
  exact h (by rw [header_eq, hnil]; rfl)

/-! ## What is written -/

theorem plainLines_joinWith (ls : List (List Char)) :
    plainLines (joinWith ['\n'] ls) = ls.flatMap plainLines := by
  by_cases hnil : ls = []
  · rw [hnil]
    rfl
  · rw [← plainLines_flatMap, ← joinWith_newline hnil, plainLines_append_right isBlank_newline]

theorem plainLines_header (text : List Char) :
    plainLines (header text) = (directives text).map trim := by
  have hline : ∀ d ∈ directives text, plainLines d = [trim d] := by
    intro d hd
    obtain ⟨-, hbreaks, husing, -⟩ := of_mem_directives hd
    rw [plainLines_of_line hbreaks]
    simpa using trim_ne_nil_of_isUsingDirective husing
  rw [header_eq, plainLines_joinWith, List.flatMap_congr hline, List.map_eq_flatMap]

/-- The unit of the text outside namespaces is written as the header and that text. -/
theorem plainLines_render (header body : List Char) (form : Form) :
    plainLines (render header globalName body form) = plainLines header ++ plainLines body := by
  have hjoined : plainLines (joinWith ['\n', '\n'] ((if header.isEmpty then [] else [header]) ++
      if (trim body).isEmpty then [] else [trim body])) = plainLines header ++ plainLines body := by
    rw [← plainLines_trim body]
    cases header with
    | nil => cases trim body <;> rfl
    | cons c header =>
      cases htrim : trim body with
      | nil => exact (List.append_nil _).symm
      | cons d body =>
        have hline := plainLines_append_cons (c := '\n') rfl (c :: header) ('\n' :: (d :: body))
        rw [plainLines_cons_of_blank (c := '\n') rfl] at hline
        show plainLines ((c :: header) ++ ['\n', '\n'] ++ (d :: body)) = _
        rw [List.append_assoc]
        exact hline
  rw [render, if_pos rfl, plainLines_append_right isBlank_newline, hjoined]

theorem plainLines_unitText (regions : List (List Char)) :
    plainLines (unitText regions) = regions.flatMap plainLines := by
  have hregions : unitText regions = (regions.map trim).flatMap (· ++ ['\n']) := by
    rw [unitText, List.flatMap_map]
  rw [hregions, plainLines_flatMap, List.flatMap_map]
  exact List.flatMap_congr fun r _ => plainLines_trim r

/-- The unit of the text outside namespaces has the lines of the regions outside of them. -/
theorem Survey.plainLines_global (hs : Survey 0 none text plots back)
    (hbody : (partition text).units.get? globalName = some body) :
    plainLines body = (outskirts plots back).flatMap plainLines := by
  by_cases hne : plots = []
  · subst hne
    rw [hs.partition_of_nil, Table.get?_insert, if_pos rfl] at hbody
    cases hbody
    rw [plainLines_trim, hs.tokenize_eq_nil.2]
    cases text <;> simp [outskirts]
  · rw [(hs.madeOf hne).unnamed] at hbody
    split at hbody
    · cases hbody
    · cases hbody
      exact plainLines_unitText _

theorem Survey.timesIn_render (hs : Survey 0 none text plots back)
    (hbody : (partition text).units.get? globalName = some body) (form : Form) (l : List Char) :
    timesIn l (render (header text) globalName body form) =
      timesAhead l text + ((outskirts plots back).map (timesIn l)).sum := by
  rw [timesIn, plainLines_render, plainLines_header, hs.plainLines_global hbody, List.count_append,
    List.count_flatMap, map_trim_directives, filter_plainLines]
  rfl

/-! ## What leads up to the first declaration -/

/-- The first whole word `namespace` declares a namespace. -/
def Opens (text : List Char) : Prop := ∃ t ∈ tokenize text, t.offset = (preamble text).length

instance (text : List Char) : Decidable (Opens text) :=
  inferInstanceAs (Decidable (∃ t ∈ tokenize text, t.offset = (preamble text).length))

theorem prefix_preamble (text : List Char) : preamble text <+: text := by
  cases hcut : cutAtWord? namespaceWord none text with
  | none =>
    rw [preamble, hcut]
    exact List.nil_prefix
  | some cut =>
    obtain ⟨lead, tail⟩ := cut
    have heq := (standsWhole_of_cutAtWord? hcut).1.eq
    rw [preamble, hcut]
    exact ⟨namespaceWord ++ tail, by rw [heq, List.append_assoc]⟩

/-- Nothing is declared in front of the first whole word. -/
theorem length_preamble_le {t : Token} (ht : t ∈ tokenize text) : (preamble text).length ≤ t.offset := by
  obtain ⟨a, h, r, htext, hleft, rfl⟩ := mem_tokenize.1 ht
  have hstands : StandsWhole namespaceWord none text a (h.tail ++ r) :=
    ⟨by rw [htext, Head.text]; simp, hleft, h.tail_head? r⟩
  cases hcut : cutAtWord? namespaceWord none text with
  | none => exact absurd hstands (not_standsWhole_of_cutAtWord? (by simp [namespaceWord]) hcut)
  | some cut =>
    have hfirst := (standsWhole_of_cutAtWord? hcut).2 _ _ hstands
    rw [preamble, hcut]
    exact Int.ofNat_le.2 hfirst

/-- What leads up to the first word is the start of a region outside namespaces, and all of it where that
word declares a namespace. -/
theorem Survey.exists_outskirts (hs : Survey 0 none text plots back) (hne : preamble text ≠ []) :
    ∃ r ∈ outskirts plots back, preamble text <+: r ∧ (Opens text → r = preamble text) := by
  cases hplots : plots with
  | nil =>
    subst hplots
    obtain ⟨hempty, rfl⟩ := hs.tokenize_eq_nil
    have hback : back ≠ [] := by
      rintro rfl
      exact hne rfl
    refine ⟨back, by simp [outskirts, hback], prefix_preamble back, ?_⟩
    rintro ⟨t, ht, -⟩
    rw [hempty] at ht
    cases ht
  | cons p plots' =>
    subst hplots
    obtain ⟨hstart, hhead⟩ := hs.first p rfl
    rw [Nat.zero_add] at hstart
    obtain ⟨ts, htokens⟩ := List.head?_eq_some_iff.1 hhead
    have htext : p.lead <+: text := by
      refine ⟨p.head.text ++ (p.extent ++ (p.closing ++ (plots'.flatMap Plot.text ++ back))), ?_⟩
      rw [← hs.covers, List.flatMap_cons, List.append_assoc, Plot.text_append]
    have hlength : ((preamble text).length : Int) ≤ p.start :=
      length_preamble_le (t := p.token) (List.mem_of_head? hhead)
    have hbegins : preamble text <+: p.lead :=
      List.prefix_of_prefix_length_le (prefix_preamble text) htext (by omega)
    have hlead : p.lead ≠ [] := fun hnil => hne (List.prefix_nil.1 (hnil ▸ hbegins))
    refine ⟨p.lead, by simp [outskirts, hlead], hbegins, ?_⟩
    rintro ⟨t, ht, hoffset⟩
    -- the first declaration is not behind the one of the first word
    have hfirst : (p.start : Int) ≤ t.offset := by
      have hpairwise := pairwise_tokenize text
      rw [tokenize, htokens] at ht hpairwise
      rcases List.mem_cons.1 ht with rfl | ht
      · exact Int.le_refl _
      · exact Int.le_of_lt ((List.pairwise_cons.1 hpairwise).1 t ht)
    exact (hbegins.eq_of_length (by omega)).symm

/-- A text up to the last separator in it, and its last line. -/
theorem exists_last_line (s : List Char) : ∃ front line, s = front ++ line ∧
    (∀ c ∈ line, isBreak c = false) ∧
      (front = [] ∨ ∃ front' c, front = front' ++ [c] ∧ isBreak c = true) := by
  refine ⟨s.rdropWhile fun c => !isBreak c, s.rtakeWhile fun c => !isBreak c,
    List.rdropWhile_append_rtakeWhile.symm, fun c hc => ?_, ?_⟩
  · simpa using List.mem_rtakeWhile_imp hc
  · by_cases hnil : (s.rdropWhile fun c => !isBreak c) = []
    · exact .inl hnil
    · refine .inr ⟨_, _, (List.dropLast_append_getLast hnil).symm, ?_⟩
      simpa using List.rdropWhile_last_not _ _ hnil

theorem plainLines_append_of_ended (h : front = [] ∨ ∃ front' c, front = front' ++ [c] ∧ isBreak c = true)
    (s : List Char) : plainLines (front ++ s) = plainLines front ++ plainLines s := by
  rcases h with rfl | ⟨front', c, rfl, hc⟩
  · rfl
  · have hfront := plainLines_append_cons hc front' []
    rw [plainLines_nil, List.append_nil] at hfront
    rw [List.append_assoc, List.singleton_append, plainLines_append_cons hc, hfront]

/-! ## Directives in the unit outside namespaces -/

/-- The unit of the text outside namespaces is written with each directive of the header as often as it
stands ahead. -/
def KeepsDirectives (text body : List Char) (form : Form) : Prop :=
  ∀ l ∈ directives text, timesIn l (render (divide text).header globalName body form) = timesAhead l text

instance (text body : List Char) (form : Form) : Decidable (KeepsDirectives text body form) :=
  inferInstanceAs (Decidable (∀ l ∈ directives text,
    timesIn l (render (divide text).header globalName body form) = timesAhead l text))

/-- Where no directive stands in a region that goes on behind the preamble, there is a single one, and
it is the last line of the preamble. -/
theorem exists_single_directive {r : List Char} (hheader : header text ≠ []) (hr : preamble text <+: r)
    (hfree : ∀ l ∈ directives text, timesIn l r = 0) : ∃ front line, preamble text = front ++ line ∧
      (∀ c ∈ line, isBreak c = false) ∧ (directives text).map trim = [trim line] := by
  obtain ⟨front, line, hpreamble, hline, hended⟩ := exists_last_line (preamble text)
  obtain ⟨rest, rfl⟩ := hr
  refine ⟨front, line, hpreamble, hline, ?_⟩
  have hdirectives : (directives text).map trim = (plainLines front).filter isUsingDirective ++
      ([trim line].filter (· ≠ [])).filter isUsingDirective := by
    rw [map_trim_directives, hpreamble, plainLines_append_of_ended hended, plainLines_of_line hline,
      List.filter_append]
  have hfront : (plainLines front).filter isUsingDirective = [] := by
    rw [List.eq_nil_iff_forall_not_mem]
    intro l hl
    obtain ⟨d, hd, rfl⟩ := List.mem_map.1 (hdirectives ▸ List.mem_append_left _ hl)
    have hzero := hfree d hd
    rw [timesIn, List.count_eq_zero, hpreamble, List.append_assoc,
      plainLines_append_of_ended hended] at hzero
    exact hzero (List.mem_append_left _ (List.mem_filter.1 hl).1)
  have hne : (directives text).map trim ≠ [] := by
    simpa using directives_ne_nil hheader
  rw [hfront, List.nil_append] at hdirectives
  have hsublist : ((directives text).map trim).Sublist [trim line] :=
    hdirectives ▸ List.filter_sublist.trans List.filter_sublist
  exact (List.sublist_singleton.1 hsublist).resolve_left hne

/-- **Where directives are repeated.** The unit of the text outside namespaces is written with each
directive of the header as often as it stands ahead, and then as often again as it stands in the regions
outside namespaces. So the directives are kept as they are exactly if none of them stands in such a
region. This is never so where the first word `namespace` declares a namespace; there each directive
stands twice as often. It is so only where there is a single directive, in the line of the first word
and in front of it. -/
theorem render_repeats_directives (hheader : (divide text).header ≠ [])
    (hbody : (divide text).units.get? globalName = some body) (form : Form) :
    ∃ plots back, Cut text plots back ∧
      (∀ l ∈ directives text, timesIn l (render (divide text).header globalName body form) =
        timesAhead l text + ((outskirts plots back).map (timesIn l)).sum) ∧
      (KeepsDirectives text body form ↔
        ∀ r ∈ outskirts plots back, ∀ l ∈ directives text, timesIn l r = 0) ∧
      (Opens text → ∀ l ∈ directives text,
        2 * timesAhead l text ≤ timesIn l (render (divide text).header globalName body form)) ∧
      (KeepsDirectives text body form → ¬ Opens text ∧ ∃ front line, preamble text = front ++ line ∧
        (∀ c ∈ line, isBreak c = false) ∧ (directives text).map trim = [trim line]) := by
  obtain ⟨plots, back, hs⟩ := exists_survey 0 none text
  have hcount : ∀ l, timesIn l (render (divide text).header globalName body form) =
      timesAhead l text + ((outskirts plots back).map (timesIn l)).sum := hs.timesIn_render hbody form
  have hkeeps : KeepsDirectives text body form ↔
      ∀ r ∈ outskirts plots back, ∀ l ∈ directives text, timesIn l r = 0 := by
    simp only [KeepsDirectives, hcount, Nat.add_eq_left, List.sum_eq_zero_iff_forall_eq_nat,
      List.forall_mem_map]
    exact ⟨fun h r hr l hl => h l hl r hr, fun h l hl r hr => h r hr l hl⟩
  have hpreamble : preamble text ≠ [] := by
    intro hnil
    exact hheader (header_of_preamble hnil)
  obtain ⟨r, hr, hbegins, hopens⟩ := hs.exists_outskirts hpreamble
  have htwice : Opens text → ∀ l ∈ directives text,
      2 * timesAhead l text ≤ timesIn l (render (divide text).header globalName body form) := by
    intro hopen l hl
    have hagain : timesIn l r = timesAhead l text := by
      rw [hopens hopen, timesAhead_eq (of_mem_directives hl).2.2.1]
    have hle : timesIn l r ≤ ((outskirts plots back).map (timesIn l)).sum :=
      List.le_sum_of_mem (List.mem_map_of_mem hr)
    have := hcount l
    omega
  refine ⟨plots, back, hs.cut, fun l _ => hcount l, hkeeps, htwice, fun hkept => ⟨fun hopen => ?_, ?_⟩⟩
  · obtain ⟨l, hl⟩ := List.exists_mem_of_ne_nil _ (directives_ne_nil hheader)
    have := htwice hopen l hl
    have := hkept l hl
    have := timesAhead_pos hl
    omega
  · exact exists_single_directive hheader hbegins (hkeeps.1 hkept r hr)

/-- An alias in front of a namespace stands twice where it is written, and a directive in the line of a
word that declares nothing stands once. -/
theorem render_repeats_alias :
    let text := "using B = System.IO;\nnamespace X;\nclass C { }\n".toList
    let alone := "using A; namespace = 3;\nclass C { }\n".toList
    (∀ l ∈ directives text, 2 * timesAhead l text ≤
      timesIn l (render (divide text).header globalName "using B = System.IO;\n".toList .fileScoped)) ∧
    KeepsDirectives alone (trim alone) .fileScoped ∧ ¬ Opens alone := by
  intro text alone
  have hheader : (divide text).header ≠ [] := by decide +kernel
  have hbody : (divide text).units.get? globalName = some "using B = System.IO;\n".toList := by
    decide +kernel
  have hopens : Opens text := by decide +kernel
  obtain ⟨_, _, -, -, -, htwice, -⟩ := render_repeats_directives hheader hbody .fileScoped
  have hheader' : (divide alone).header ≠ [] := by decide +kernel
  have hbody' : (divide alone).units.get? globalName = some (trim alone) := by decide +kernel
  have hkept : KeepsDirectives alone (trim alone) .fileScoped := by decide +kernel
  obtain ⟨_, _, -, -, -, -, honce⟩ := render_repeats_directives hheader' hbody' .fileScoped
  exact ⟨htwice hopens, hkept, (honce hkept).1⟩

/-- A directive in front of a namespace is written twice. -/
theorem directive_written_twice : ¬ ∀ (text body : List Char) (form : Form),
    (divide text).header ≠ [] → (divide text).units.get? globalName = some body →
    KeepsDirectives text body form := by
  intro hclaim
  have hkept := hclaim "using A;\nnamespace X;\nclass C { }\n".toList "using A;\n".toList .fileScoped
    (by decide +kernel) (by decide +kernel)
  exact absurd hkept (by decide +kernel)

end Decompilation.Source
