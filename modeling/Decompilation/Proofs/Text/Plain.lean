import Decompilation.Proofs.Text.Blank
import Decompilation.Proofs.Text.Lines

/-!
# Lines that are not blank

`plainLines` are the lines of a text without the blanks around them, those left out of which nothing is
left. They do not change with blanks around the text (`plainLines_append_append`), and where a line ends
the lines on either side are told apart (`plainLines_append_cons`).
-/

namespace Decompilation.Text

variable {a b l s t : List Char} {c : Char} {ls : List (List Char)}

/-- The lines of a text that are not blank, without the blanks around them. -/
def plainLines (s : List Char) : List (List Char) := ((lines s).map trim).filter (· ≠ [])

@[simp] theorem plainLines_nil : plainLines [] = [] := rfl

theorem trim_cons_of_blank (hc : isBlank c = true) (s : List Char) : trim (c :: s) = trim s :=
  trim_append_left (a := [c]) (by simpa using hc)

/-- A line separator in front ends a line in which nothing stands. -/
theorem lines_cons_of_isBreak (hc : isBreak c = true) (s : List Char) :
    ∃ s', lines (c :: s) = [] :: lines s' ∧ (s' = s ∨ s = '\n' :: s') := by
  cases hs : c :: s using lines.fun_cases with
  | case1 => simp at hs
  | case2 s' =>
    obtain ⟨rfl, rfl⟩ := List.cons.inj hs
    exact ⟨s', by rw [lines], .inr rfl⟩
  | case3 d s' hne hbreak =>
    obtain ⟨rfl, rfl⟩ := List.cons.inj hs
    refine ⟨s, ?_, .inl rfl⟩
    rw [lines, if_pos hbreak]
    exact hne
  | case4 d s' hne hbreak hnil =>
    obtain ⟨rfl, rfl⟩ := List.cons.inj hs
    exact absurd hc hbreak
  | case5 d s' hne hbreak l ls hcons =>
    obtain ⟨rfl, rfl⟩ := List.cons.inj hs
    exact absurd hc hbreak

theorem plainLines_cons_of_blank (hc : isBlank c = true) (s : List Char) :
    plainLines (c :: s) = plainLines s := by
  by_cases hbreak : isBreak c = true
  · obtain ⟨s', hlines, hrest⟩ := lines_cons_of_isBreak hbreak s
    have hempty : plainLines (c :: s) = plainLines s' := by
      rw [plainLines, hlines]
      rfl
    rcases hrest with rfl | rfl
    · exact hempty
    · have hline := lines_append_newline (l := []) (List.forall_mem_nil _) s'
      rw [List.nil_append] at hline
      rw [hempty, plainLines, plainLines, hline]
      rfl
  · rw [Bool.not_eq_true] at hbreak
    rw [plainLines, plainLines, lines_of_isBreak_eq_false hbreak]
    cases lines s with
    | nil => simp [trim_cons_of_blank hc]
    | cons l ls => rw [List.map_cons, List.map_cons, trim_cons_of_blank hc]

theorem plainLines_append_left (ha : ∀ c ∈ a, isBlank c = true) (s : List Char) :
    plainLines (a ++ s) = plainLines s := by
  induction a with
  | nil => rfl
  | cons c a ih =>
    rw [List.cons_append, plainLines_cons_of_blank (ha c List.mem_cons_self)]
    exact ih fun d hd => ha d (List.mem_cons_of_mem c hd)

theorem plainLines_of_blank (hs : ∀ c ∈ s, isBlank c = true) : plainLines s = [] := by
  have := plainLines_append_left hs []
  rwa [List.append_nil] at this

/-! ## Line by line -/

/-- A text is one line, or a line that is ended by a separator, and more text. -/
theorem exists_line (s : List Char) : (∀ c ∈ s, isBreak c = false) ∨
    ∃ l c s', (∀ c ∈ l, isBreak c = false) ∧ isBreak c = true ∧ s = l ++ c :: s' := by
  induction s with
  | nil => exact .inl (List.forall_mem_nil _)
  | cons c s ih =>
    by_cases hc : isBreak c = true
    · exact .inr ⟨[], c, s, List.forall_mem_nil _, hc, rfl⟩
    · rw [Bool.not_eq_true] at hc
      rcases ih with hline | ⟨l, d, s', hl, hd, rfl⟩
      · exact .inl (List.forall_mem_cons.2 ⟨hc, hline⟩)
      · exact .inr ⟨c :: l, d, s', List.forall_mem_cons.2 ⟨hc, hl⟩, hd, rfl⟩

/-- What holds of a line, and of a line that is ended if it holds of the text behind it, holds of every
text. -/
@[elab_as_elim]
theorem lineInduction {motive : List Char → Prop} (s : List Char)
    (last : ∀ l, (∀ c ∈ l, isBreak c = false) → motive l)
    (ended : ∀ l c s, (∀ d ∈ l, isBreak d = false) → isBreak c = true → motive s → motive (l ++ c :: s)) :
    motive s := by
  induction hn : s.length using Nat.strong_induction_on generalizing s with
  | _ n ih =>
    rcases exists_line s with hline | ⟨l, c, s', hl, hc, rfl⟩
    · exact last s hline
    · exact ended l c s' hl hc (ih s'.length (by simp [← hn]; omega) s' rfl)

/-- A text without separators is a single line, and blank or not one is left. -/
theorem plainLines_of_line (hl : ∀ c ∈ l, isBreak c = false) :
    plainLines l = [trim l].filter (· ≠ []) := by
  have hlines : ∀ c l, (∀ d ∈ c :: l, isBreak d = false) → lines (c :: l) = [c :: l] := by
    intro c l
    induction l generalizing c with
    | nil =>
      intro h
      rw [lines_of_isBreak_eq_false (h c List.mem_cons_self)]
      rfl
    | cons d l ih =>
      intro h
      rw [lines_of_isBreak_eq_false (h c List.mem_cons_self),
        ih d fun e he => h e (List.mem_cons_of_mem c he)]
  cases l with
  | nil => rfl
  | cons c l => rw [plainLines, hlines c l hl, List.map_singleton]

theorem lines_append_of_lines (hl : ∀ c ∈ l, isBreak c = false) (h : lines s = [] :: ls) :
    lines (l ++ s) = l :: ls := by
  induction l with
  | nil => exact h
  | cons c l ih =>
    rw [List.cons_append, lines_of_isBreak_eq_false (hl c List.mem_cons_self),
      ih fun d hd => hl d (List.mem_cons_of_mem c hd)]

theorem plainLines_line_append (hl : ∀ c ∈ l, isBreak c = false) (hc : isBreak c = true)
    (s : List Char) : plainLines (l ++ c :: s) = plainLines l ++ plainLines s := by
  obtain ⟨s', hlines, -⟩ := lines_cons_of_isBreak hc s
  have hrest : plainLines s = ((lines s').map trim).filter (· ≠ []) := by
    rw [← plainLines_cons_of_blank (isBlank_of_isBreak hc) s, plainLines, hlines]
    rfl
  rw [hrest, plainLines, lines_append_of_lines hl hlines, plainLines_of_line hl, List.map_cons,
    ← List.filter_append, List.singleton_append]

/-- Where a line ends the lines on either side are told apart. -/
theorem plainLines_append_cons (hc : isBreak c = true) (s t : List Char) :
    plainLines (s ++ c :: t) = plainLines s ++ plainLines t := by
  induction s using lineInduction with
  | last l hl => exact plainLines_line_append hl hc t
  | ended l d s hl hd ih =>
    rw [List.append_assoc, List.cons_append, plainLines_line_append hl hd, ih,
      plainLines_line_append hl hd, List.append_assoc]

/-- Blanks behind a line go with it as far as the first separator, and what is behind that is blank. -/
theorem plainLines_line_append_right (hl : ∀ c ∈ l, isBreak c = false)
    (hb : ∀ c ∈ b, isBlank c = true) : plainLines (l ++ b) = plainLines l := by
  rcases exists_line b with hblank | ⟨a, d, b', ha, hd, rfl⟩
  · have hjoined : ∀ c ∈ l ++ b, isBreak c = false := fun c hc =>
      (List.mem_append.1 hc).elim (hl c) (hblank c)
    rw [plainLines_of_line hjoined, plainLines_of_line hl, trim_append_right hb]
  · have hjoined : ∀ c ∈ l ++ a, isBreak c = false := fun c hc =>
      (List.mem_append.1 hc).elim (hl c) (ha c)
    have hfront : ∀ c ∈ a, isBlank c = true := fun c hc => hb c (List.mem_append_left _ hc)
    have hback : ∀ c ∈ b', isBlank c = true := fun c hc =>
      hb c (List.mem_append_right _ (List.mem_cons_of_mem d hc))
    rw [← List.append_assoc, plainLines_append_cons hd, plainLines_of_blank hback, List.append_nil,
      plainLines_of_line hjoined, plainLines_of_line hl, trim_append_right hfront]

theorem plainLines_append_right (hb : ∀ c ∈ b, isBlank c = true) (s : List Char) :
    plainLines (s ++ b) = plainLines s := by
  induction s using lineInduction with
  | last l hl => exact plainLines_line_append_right hl hb
  | ended l d s hl hd ih =>
    rw [List.append_assoc, List.cons_append, plainLines_append_cons hd, ih, plainLines_append_cons hd]

theorem plainLines_append_append (ha : ∀ c ∈ a, isBlank c = true) (hb : ∀ c ∈ b, isBlank c = true) :
    plainLines (a ++ (s ++ b)) = plainLines s := by
  rw [plainLines_append_left ha, plainLines_append_right hb]

theorem plainLines_trim (s : List Char) : plainLines (trim s) = plainLines s := by
  obtain ⟨a, b, ha, hb, hs⟩ := exists_trim s
  conv_rhs => rw [hs]
  exact (plainLines_append_append ha hb).symm

theorem plainLines_flatMap (ls : List (List Char)) :
    plainLines (ls.flatMap (· ++ ['\n'])) = ls.flatMap plainLines := by
  induction ls with
  | nil => rfl
  | cons l ls ih =>
    rw [List.flatMap_cons, List.flatMap_cons, List.append_assoc, List.singleton_append,
      plainLines_append_cons rfl, ih]

end Decompilation.Text
