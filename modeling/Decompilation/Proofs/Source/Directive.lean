import Decompilation.Proofs.Source.Header

/-!
# The grammar of directives

`Directive` is a line with a using directive taken apart, and `isUsingDirective` accepts exactly these
lines (`isUsingDirective_iff`). A header is what leads up to the first whole word `namespace`, directive
by directive, and it is the header of itself (`header_collects_directives`).
-/

namespace Decompilation.Source

open Text

variable {l rest front tail text : List Char}

/-- A line with a using directive: the word `using`, blanks, a part that is not all blank, and the only
semicolon, with nothing but blanks around it. -/
structure Directive where
  before : List Char
  gap : List Char
  part : List Char
  after : List Char
  before_blank : ∀ c ∈ before, isBlank c = true
  gap_ne_nil : gap ≠ []
  gap_blank : ∀ c ∈ gap, isBlank c = true
  part_plain : ';' ∉ part
  part_not_blank : ∃ c ∈ part, isBlank c = false
  after_blank : ∀ c ∈ after, isBlank c = true

namespace Directive

/-- A directive behind the word `using`, without the blanks at its end. -/
def told (d : Directive) : List Char := d.gap ++ (d.part ++ [';'])

def line (d : Directive) : List Char := d.before ++ ((usingWord ++ d.told) ++ d.after)

theorem trim_line (d : Directive) : trim d.line = usingWord ++ d.told := by
  have hstart : trimStart (usingWord ++ d.told) = usingWord ++ d.told := trimStart_of_not_blank rfl
  have hcut : usingWord ++ d.told = (usingWord ++ (d.gap ++ d.part)) ++ ';' :: [] := by simp [told]
  rw [line, trim_append_append d.before_blank d.after_blank, trim, hstart, hcut,
    trimEnd_append_cons rfl]
  rfl

theorem isUsingDirective_line (d : Directive) : isUsingDirective d.line = true := by
  have hdrop : (usingWord ++ d.told).drop usingWord.length = d.told := List.drop_left
  have hword : usingWord.isPrefixOf (usingWord ++ d.told) = true :=
    List.isPrefixOf_iff_prefix.2 (List.prefix_append _ _)
  have hhead : d.told.head?.any isBlank = true := by
    obtain ⟨c, gap, hgap⟩ := List.exists_cons_of_ne_nil d.gap_ne_nil
    have hc := d.gap_blank c (by simp [hgap])
    simpa [told, hgap] using hc
  have hcut : d.told = (d.gap ++ d.part) ++ [';'] := by simp [told]
  have hgap : ';' ∉ d.gap := not_mem_of_blank d.gap_blank (by decide)
  have hcount : d.told.count ';' = 1 := by
    rw [hcut, List.count_append, List.count_append, List.count_eq_zero_of_not_mem hgap,
      List.count_eq_zero_of_not_mem d.part_plain]
    rfl
  have hblank : allBlank d.told.dropLast = false := by
    obtain ⟨c, hc, hplain⟩ := d.part_not_blank
    rw [hcut, List.dropLast_concat, allBlank, List.all_eq_false]
    exact ⟨c, List.mem_append_right _ hc, by simp [hplain]⟩
  have hlast : d.told.getLast? = some ';' := by rw [hcut, List.getLast?_concat]
  simp [isUsingDirective, d.trim_line, hdrop, hword, hhead, hlast, hcount, hblank]

end Directive

/-- What stands behind the word `using` in a directive. -/
theorem exists_told (hhead : rest.head?.any isBlank = true) (hlast : rest.getLast? = some ';')
    (hcount : rest.count ';' = 1) (hblank : allBlank rest.dropLast = false) :
    ∃ c part, rest = c :: (part ++ [';']) ∧ isBlank c = true ∧ ';' ∉ part ∧
      ∃ c ∈ part, isBlank c = false := by
  obtain ⟨body, rfl⟩ : ∃ body, rest = body ++ [';'] := List.getLast?_eq_some_iff.1 hlast
  have hbody : ';' ∉ body := by
    rw [List.count_append, List.count_singleton_self] at hcount
    exact List.count_eq_zero.1 (by omega)
  rw [List.dropLast_concat, allBlank, List.all_eq_false] at hblank
  obtain ⟨d, hd, hplain⟩ := hblank
  rw [Bool.not_eq_true] at hplain
  cases body with
  | nil => simp at hd
  | cons c part =>
    have hc : isBlank c = true := hhead
    refine ⟨c, part, rfl, hc, fun h => hbody (List.mem_cons_of_mem _ h), d, ?_, hplain⟩
    rcases List.mem_cons.1 hd with rfl | hd
    · rw [hc] at hplain
      cases hplain
    · exact hd

/-- A line with a directive. -/
def IsDirective (l : List Char) : Prop := ∃ d : Directive, d.line = l

theorem isDirective_of_isUsingDirective (h : isUsingDirective l = true) : IsDirective l := by
  obtain ⟨before, after, hbefore, hafter, hl⟩ := exists_trim l
  simp only [isUsingDirective, Bool.and_eq_true, List.isPrefixOf_iff_prefix, beq_iff_eq,
    Bool.not_eq_true'] at h
  obtain ⟨⟨⟨⟨⟨rest, hword⟩, hhead⟩, hlast⟩, hcount⟩, hblank⟩ := h
  rw [← hword, List.drop_left] at hhead hlast hcount hblank
  obtain ⟨c, part, rfl, hc, hplain, htold⟩ := exists_told hhead hlast hcount hblank
  refine ⟨⟨before, [c], part, after, hbefore, by simp, by simpa using hc, hplain, htold, hafter⟩, ?_⟩
  rw [hl, ← hword]
  rfl

/-- Exactly the lines with a directive are accepted. -/
theorem isUsingDirective_iff : isUsingDirective l = true ↔ IsDirective l := by
  constructor
  · exact isDirective_of_isUsingDirective
  · rintro ⟨d, rfl⟩
    exact d.isUsingDirective_line

instance : DecidablePred IsDirective := fun _ => decidable_of_iff _ isUsingDirective_iff

/-! ## Headers -/

/-- The word `namespace` stands whole between two parts of a text, and nowhere in front of that. -/
structure StandsFirst (text front tail : List Char) : Prop where
  stands : StandsWhole namespaceWord none text front tail
  first : ∀ front' tail', StandsWhole namespaceWord none text front' tail' →
    front.length ≤ front'.length

theorem StandsFirst.preamble_eq (h : StandsFirst text front tail) : preamble text = front := by
  cases hcut : cutAtWord? namespaceWord none text with
  | none => exact absurd h.stands (not_standsWhole_of_cutAtWord? (by simp [namespaceWord]) hcut)
  | some cut =>
    obtain ⟨lead, rest⟩ := cut
    obtain ⟨hstands, hfirst⟩ := standsWhole_of_cutAtWord? hcut
    have hlength := Nat.le_antisymm (hfirst _ _ h.stands) (h.first _ _ hstands)
    rw [preamble, hcut]
    exact (hstands.tail_eq h.stands hlength).1

/-- Where the word stands nowhere nothing leads up to it. -/
theorem Wordless.preamble_eq (h : Wordless text) : preamble text = [] := by
  cases hcut : cutAtWord? namespaceWord none text with
  | none => rw [preamble, hcut]
  | some cut => exact absurd (standsWhole_of_cutAtWord? hcut).1 (h _ _)

theorem header_of_preamble (h : preamble text = front) : header text =
    joinWith ['\n'] (((lines front).filter fun l => IsDirective l).map trimEnd) := by
  have hsame : isUsingDirective = fun l => decide (IsDirective l) := by
    funext l
    rw [Bool.eq_iff_iff, decide_eq_true_eq, isUsingDirective_iff]
  rw [header, h, hsame]

/-- A header is the header of what it stands in front of on lines of its own. -/
theorem header_append (hne : header text ≠ []) (htail : tail.head?.any isWord = false) :
    header (header text ++ '\n' :: (namespaceWord ++ tail)) = header text := by
  have hdirectives : directives text ≠ [] := by
    intro hnil
    exact hne (by rw [header_eq, hnil]; rfl)
  have hlines : header text ++ ['\n'] = (directives text).flatMap (· ++ ['\n']) :=
    joinWith_newline hdirectives
  have hwordless : Wordless ([] ++ ((header text ++ ['\n']) ++ ['\n'])) := by
    rw [hlines]
    exact wordless_lines fun d hd => (of_mem_directives hd).1
  have hlast : (lastOr none (header text ++ ['\n'])).any isWord = false := by
    rw [lastOr_concat]
    rfl
  have hpreamble : preamble (header text ++ '\n' :: (namespaceWord ++ tail)) =
      header text ++ ['\n'] := by
    rw [← List.singleton_append, ← List.append_assoc]
    exact preamble_append (hwordless.of_append rfl rfl) hlast htail
  have hread : lines (header text ++ ['\n']) = directives text := by
    have hbreaks : ∀ d ∈ directives text, ∀ c ∈ d, isBreak c = false := fun d hd =>
      (of_mem_directives hd).2.1
    have hcut := lines_flatMap_newline hbreaks []
    rwa [List.append_nil, lines, List.append_nil, ← hlines] at hcut
  have hfilter : (directives text).filter isUsingDirective = directives text :=
    List.filter_eq_self.2 fun d hd => (of_mem_directives hd).2.2.1
  have htrim : (directives text).map trimEnd = directives text :=
    (List.map_congr_left fun d hd => (of_mem_directives hd).2.2.2).trans (List.map_id _)
  rw [header, hpreamble, hread, hfilter, htrim, ← header_eq]

/-- **A header is the directives in front of the first namespace.** Without a whole word `namespace` a
text has no header, and neither has it with nothing in front of the first one. Otherwise its header is
the lines in front of the first one that are directives, in order and without the blanks at their ends,
whatever follows the word. In front of a declaration a header that is not empty is read again. -/
theorem header_collects_directives (text : List Char) :
    (Wordless text → header text = []) ∧
    (∀ front tail, StandsFirst text front tail →
      (front = [] → header text = []) ∧
      header text = joinWith ['\n'] (((lines front).filter fun l => IsDirective l).map trimEnd) ∧
      ∀ tail', tail'.head?.any isWord = false →
        header (front ++ (namespaceWord ++ tail')) = header text) ∧
    (header text ≠ [] → header (header text ++ "\nnamespace X;".toList) = header text) := by
  refine ⟨fun h => ?_, fun front tail h => ?_, fun hne => ?_⟩
  · rw [header_of_preamble h.preamble_eq]
    rfl
  · have hpreamble := h.preamble_eq
    have hheader := header_of_preamble hpreamble
    refine ⟨?_, hheader, fun tail' htail' => ?_⟩
    · rintro rfl
      exact hheader
    · have hwordless : Wordless front := hpreamble ▸ wordless_preamble text
      rw [header_of_preamble (preamble_append hwordless h.stands.left htail'), hheader]
  · have htext : "\nnamespace X;".toList = '\n' :: (namespaceWord ++ " X;".toList) := by decide
    rw [htext]
    exact header_append hne (by decide)

/-- Three directives, and a line with two semicolons that is none, in front of a namespace and in front
of other text. -/
theorem header_collects_three_directives :
    let front := "using A;\r\n  using static B ; \nusing C; D;\nusing E;\u2028".toList
    let text := front ++ (namespaceWord ++ " Y { }".toList)
    StandsFirst text front " Y { }".toList ∧
      header text = "using A;\n  using static B ;\nusing E;".toList ∧
      header (front ++ (namespaceWord ++ ".".toList)) = header text ∧
      header (header text ++ "\nnamespace X;".toList) = header text := by
  intro front text
  have hcut : cutAtWord? namespaceWord none text = some (front, " Y { }".toList) := by decide +kernel
  obtain ⟨hstands, hleast⟩ := standsWhole_of_cutAtWord? hcut
  have hfirst : StandsFirst text front " Y { }".toList := ⟨hstands, hleast⟩
  obtain ⟨-, hcollects, hstable⟩ := header_collects_directives text
  obtain ⟨-, hheader, hwhatever⟩ := hcollects front _ hfirst
  have hlines : joinWith ['\n'] (((lines front).filter fun l => IsDirective l).map trimEnd) =
      "using A;\n  using static B ;\nusing E;".toList := by decide +kernel
  refine ⟨hfirst, hheader.trans hlines, hwhatever _ (by decide), hstable ?_⟩
  rw [hheader, hlines]
  decide

end Decompilation.Source
