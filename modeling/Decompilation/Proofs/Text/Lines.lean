import Decompilation.Text.Blank
import Decompilation.Text.Lines

/-!
# Lines of a text

A line has no line separator in it, and what touches it in its text is blank
(`exists_of_mem_lines`). Lines that are ended by newlines are read back (`lines_append_newline`).
A text has no carriage return once its line ends are newlines (`return_not_mem_unifyBreaks`). The pieces
of a text are free of the separator (`of_mem_splitOn`), and they start with those of another text where it
goes on behind the other text (`splitOn_prefix_iff`).
-/

namespace Decompilation.Text

variable {s l : List Char} {ls : List (List Char)}

theorem isBlank_of_isBreak {c : Char} (h : isBreak c = true) : isBlank c = true := by
  simp only [isBreak, isBlank, Bool.or_eq_true, Bool.and_eq_true, decide_eq_true_eq,
    beq_iff_eq] at h ⊢
  omega

theorem lines_of_isBreak_eq_false {c : Char} (hc : isBreak c = false) (s : List Char) :
    lines (c :: s) = match lines s with
      | [] => [[c]]
      | l :: ls => (c :: l) :: ls := by
  rw [lines]
  · rw [hc]
    rfl
  · rintro s rfl -
    simp [isBreak] at hc

theorem eq_nil_of_lines_eq_nil (h : lines s = []) : s = [] := by
  cases hs : s using lines.fun_cases with
  | case1 => rfl
  | case2 s => simp [hs, lines] at h
  | case3 c s hne hbreak => simp [hs, lines, hbreak] at h
  | case4 c s hne hbreak hnil => simp [hs, lines, hbreak, hnil] at h
  | case5 c s hne hbreak l ls hcons => simp [hs, lines, hbreak, hcons] at h

/-- The first line of a text ends where the text ends or where a line separator starts. -/
theorem exists_of_lines_eq_cons (h : lines s = l :: ls) : (∀ c ∈ l, isBreak c = false) ∧
    (s = l ∧ ls = [] ∨ ∃ sep rest, sep ≠ [] ∧ (∀ c ∈ sep, isBreak c = true) ∧
      s = l ++ (sep ++ rest) ∧ ls = lines rest) := by
  induction s using lines.induct generalizing l ls with
  | case1 => simp [lines] at h
  | case2 s ih =>
    simp only [lines, List.cons.injEq] at h
    obtain ⟨rfl, rfl⟩ := h
    exact ⟨by simp, .inr ⟨['\r', '\n'], s, by simp, List.all_eq_true.1 rfl, rfl, rfl⟩⟩
  | case3 c s hne hbreak ih =>
    rw [lines, if_pos hbreak] at h
    · simp only [List.cons.injEq] at h
      obtain ⟨rfl, rfl⟩ := h
      exact ⟨by simp, .inr ⟨[c], s, by simp, by simpa using hbreak, rfl, rfl⟩⟩
    · exact hne
  | case4 c s hne hbreak hnil ih =>
    rw [Bool.not_eq_true] at hbreak
    rw [lines_of_isBreak_eq_false hbreak, hnil] at h
    simp only [List.cons.injEq] at h
    obtain ⟨rfl, rfl⟩ := h
    obtain rfl := eq_nil_of_lines_eq_nil hnil
    exact ⟨by simpa using hbreak, .inl ⟨rfl, rfl⟩⟩
  | case5 c s hne hbreak l' ls' hcons ih =>
    rw [Bool.not_eq_true] at hbreak
    rw [lines_of_isBreak_eq_false hbreak, hcons] at h
    simp only [List.cons.injEq] at h
    obtain ⟨rfl, rfl⟩ := h
    obtain ⟨hl, hrest⟩ := ih hcons
    refine ⟨by simpa using ⟨hbreak, hl⟩, ?_⟩
    rcases hrest with ⟨rfl, rfl⟩ | ⟨sep, rest, hne', hsep, rfl, rfl⟩
    · exact .inl ⟨rfl, rfl⟩
    · exact .inr ⟨sep, rest, hne', hsep, rfl, rfl⟩

/-- A line has no line separator in it, and what touches it is blank. -/
theorem exists_of_mem_lines (h : l ∈ lines s) : (∀ c ∈ l, isBreak c = false) ∧
    ∃ a b, s = a ++ (l ++ b) ∧ a.getLast?.all isBlank = true ∧ b.head?.all isBlank = true := by
  induction hn : s.length using Nat.strongRecOn generalizing s with
  | ind n ih =>
    obtain ⟨l', ls, hlines⟩ := List.exists_cons_of_ne_nil (List.ne_nil_of_mem h)
    obtain ⟨hl', hcut⟩ := exists_of_lines_eq_cons hlines
    rw [hlines, List.mem_cons] at h
    rcases hcut with ⟨rfl, rfl⟩ | ⟨sep, rest, hne, hsep, rfl, rfl⟩
    · obtain rfl : l = s := by simpa using h
      exact ⟨hl', [], [], by simp, rfl, rfl⟩
    · have hblank : ∀ c ∈ sep, isBlank c = true := fun c hc => isBlank_of_isBreak (hsep c hc)
      rcases h with rfl | h
      · refine ⟨hl', [], sep ++ rest, rfl, rfl, ?_⟩
        obtain ⟨c, sep, rfl⟩ := List.exists_cons_of_ne_nil hne
        exact hblank c (List.mem_cons_self ..)
      · have hlt : rest.length < n := by
          have := List.length_pos_iff.2 hne
          rw [← hn, List.length_append, List.length_append]
          omega
        obtain ⟨hl, a, b, rfl, ha, hb⟩ := ih _ hlt h rfl
        refine ⟨hl, l' ++ (sep ++ a), b, by simp, ?_, hb⟩
        rw [List.getLast?_append, List.getLast?_append]
        cases hlast : a.getLast? with
        | none =>
          rw [Option.none_or, List.getLast?_eq_some_getLast hne]
          exact hblank _ (List.getLast_mem hne)
        | some c => simpa [hlast] using ha

/-- A line that is ended by a newline is read back. -/
theorem lines_append_newline (hl : ∀ c ∈ l, isBreak c = false) (s : List Char) :
    lines (l ++ '\n' :: s) = l :: lines s := by
  induction l with
  | nil =>
    rw [List.nil_append, lines]
    · rfl
    · rintro _ ⟨⟩
  | cons c l ih =>
    rw [List.cons_append, lines_of_isBreak_eq_false (hl c (List.mem_cons_self ..)),
      ih fun d hd => hl d (List.mem_cons_of_mem _ hd)]

theorem lines_flatMap_newline (hls : ∀ l ∈ ls, ∀ c ∈ l, isBreak c = false) (s : List Char) :
    lines (ls.flatMap (· ++ ['\n']) ++ s) = ls ++ lines s := by
  induction ls with
  | nil => rfl
  | cons l ls ih =>
    rw [List.flatMap_cons, List.append_assoc, List.append_assoc, List.singleton_append,
      lines_append_newline (hls l (List.mem_cons_self ..)),
      ih fun l' hl' => hls l' (List.mem_cons_of_mem _ hl'), List.cons_append]

/-! ## Line ends -/

theorem return_not_mem_unifyBreaks (s : List Char) : '\r' ∉ unifyBreaks s := by
  induction s using unifyBreaks.induct with
  | case1 => simp [unifyBreaks]
  | case2 s ih => simpa [unifyBreaks] using ih
  | case3 c s hne ih =>
    rw [unifyBreaks, List.mem_cons, not_or]
    · refine ⟨?_, ih⟩
      split
      · decide
      · rename_i hc
        exact Ne.symm hc
    · exact hne

theorem unifyBreaks_of_not_mem (h : '\r' ∉ s) : unifyBreaks s = s := by
  induction s with
  | nil => rfl
  | cons c s ih =>
    rw [List.mem_cons, not_or] at h
    rw [unifyBreaks, if_neg (Ne.symm h.1), ih h.2]
    rintro t rfl
    exact absurd rfl h.1

theorem mem_unifyBreaks {c : Char} (h : c ∈ unifyBreaks s) : c = '\n' ∨ c ∈ s := by
  induction s using unifyBreaks.induct with
  | case1 => exact .inr h
  | case2 s ih =>
    rw [unifyBreaks, List.mem_cons] at h
    rcases h with rfl | hmem
    · exact .inl rfl
    · exact (ih hmem).imp_right fun hs => List.mem_cons_of_mem _ (List.mem_cons_of_mem _ hs)
  | case3 d s hne ih =>
    rw [unifyBreaks, List.mem_cons] at h
    · rcases h with rfl | hmem
      · split
        · exact .inl rfl
        · exact .inr (List.mem_cons_self ..)
      · exact (ih hmem).imp_right (List.mem_cons_of_mem _)
    · exact hne

/-- Where only newlines and carriage returns end lines only newlines do once the line ends are unified. -/
theorem isBreak_unifyBreaks (h : ∀ c ∈ s, isBreak c = true → c = '\n' ∨ c = '\r') :
    ∀ c ∈ unifyBreaks s, isBreak c = true → c = '\n' := by
  intro c hc hbreak
  rcases mem_unifyBreaks hc with rfl | hs
  · rfl
  · exact (h c hs hbreak).resolve_right fun heq => return_not_mem_unifyBreaks s (heq ▸ hc)

/-! ## Pieces -/

theorem splitOn_eq (sep : Char) (s : List Char) : splitOn sep s = s.splitOn sep := by
  induction s with
  | nil => rfl
  | cons c s ih =>
    rw [splitOn, List.splitOn_cons_eq_if_modifyHead, ih]
    by_cases hc : c = sep
    · simp [hc]
    · obtain ⟨p, ps, hpieces⟩ := List.exists_cons_of_ne_nil (List.splitOn_ne_nil sep s)
      simp [hc, hpieces]

theorem splitOn_of_not_mem {sep : Char} (h : sep ∉ s) : splitOn sep s = [s] := by
  induction s with
  | nil => rfl
  | cons c s ih =>
    simp only [List.mem_cons, not_or] at h
    rw [splitOn, if_neg (Ne.symm h.1), ih h.2]

/-- The pieces on either side of a separator are pieces of the whole. -/
theorem splitOn_append_sep (sep : Char) (a s : List Char) :
    splitOn sep (a ++ sep :: s) = splitOn sep a ++ splitOn sep s := by
  rw [splitOn_eq, splitOn_eq, splitOn_eq]
  exact List.splitOnP_append_cons a s (beq_self_eq_true sep)

/-- The piece in front of the first separator comes first. -/
theorem splitOn_append_cons {sep : Char} {a : List Char} (h : sep ∉ a) (s : List Char) :
    splitOn sep (a ++ sep :: s) = a :: splitOn sep s := by
  rw [splitOn_append_sep, splitOn_of_not_mem h, List.singleton_append]

theorem of_mem_splitOn {sep : Char} {p : List Char} (h : p ∈ splitOn sep s) :
    ∀ c ∈ p, c ∈ s ∧ c ≠ sep := by
  induction s generalizing p with
  | nil =>
    obtain rfl : p = [] := by simpa [splitOn] using h
    simp
  | cons d s ih =>
    have hlater : ∀ q ∈ splitOn sep s, ∀ c ∈ q, c ∈ d :: s ∧ c ≠ sep := fun q hq c hc =>
      ⟨List.mem_cons_of_mem _ (ih hq c hc).1, (ih hq c hc).2⟩
    obtain ⟨q, qs, hpieces⟩ := List.exists_cons_of_ne_nil (splitOn_ne_nil sep s)
    rw [splitOn, hpieces] at h
    rw [hpieces] at hlater
    split at h
    · rcases List.mem_cons.1 h with rfl | h
      · simp
      · exact hlater p h
    · rename_i hd
      rcases List.mem_cons.1 h with rfl | h
      · intro c hc
        rcases List.mem_cons.1 hc with rfl | hc
        · exact ⟨List.mem_cons_self .., hd⟩
        · exact hlater q (List.mem_cons_self ..) c hc
      · exact hlater p (List.mem_cons_of_mem _ h)

theorem splitOn_flatMap {sep : Char} {ls : List (List Char)} (h : ∀ l ∈ ls, sep ∉ l) :
    splitOn sep (ls.flatMap fun l => l ++ [sep]) = ls ++ [[]] := by
  induction ls with
  | nil => rfl
  | cons l ls ih =>
    rw [List.flatMap_cons, List.append_assoc, List.singleton_append,
      splitOn_append_cons (h l (List.mem_cons_self ..)),
      ih fun l' hl' => h l' (List.mem_cons_of_mem _ hl'), List.cons_append]

theorem splitOn_joinWith {sep : Char} {ls : List (List Char)} (hne : ls ≠ [])
    (h : ∀ l ∈ ls, sep ∉ l) : splitOn sep (joinWith [sep] ls) = ls := by
  induction ls using joinWith.induct with
  | case1 => exact absurd rfl hne
  | case2 l => exact splitOn_of_not_mem (h l (List.mem_singleton_self l))
  | case3 l ls hnil ih =>
    have hls : ls ≠ [] := by
      rintro rfl
      exact hnil rfl
    rw [joinWith, List.append_assoc, List.singleton_append,
      splitOn_append_cons (h l (List.mem_cons_self ..)),
      ih hls fun l' hl' => h l' (List.mem_cons_of_mem _ hl')]
    exact hnil

/-- Where only newlines end lines the pieces between them are the lines, and perhaps nothing behind the
last newline. -/
theorem splitOn_newline_cases (h : ∀ c ∈ s, isBreak c = true → c = '\n') :
    splitOn '\n' s = lines s ∨ splitOn '\n' s = lines s ++ [[]] := by
  induction s with
  | nil => exact .inr rfl
  | cons c s ih =>
    have hrest := ih fun d hd => h d (List.mem_cons_of_mem _ hd)
    by_cases hc : c = '\n'
    · subst hc
      have hline := lines_append_newline (l := []) (List.forall_mem_nil _) s
      rw [List.nil_append] at hline
      rw [splitOn, if_pos rfl, hline]
      exact hrest.imp (congrArg ([] :: ·)) (congrArg ([] :: ·))
    · have hplain : isBreak c = false := by
        rw [Bool.eq_false_iff]
        exact fun hbreak => hc (h c (List.mem_cons_self ..) hbreak)
      rw [splitOn, if_neg hc, lines_of_isBreak_eq_false hplain]
      rcases hrest with hrest | hrest
      · rw [hrest]
        exact .inl rfl
      · rw [hrest]
        cases lines s with
        | nil => exact .inl rfl
        | cons l ls => exact .inr rfl

theorem joinWith_append {sep : List Char} {ps qs : List (List Char)} (hps : ps ≠ []) (hqs : qs ≠ []) :
    joinWith sep (ps ++ qs) = joinWith sep ps ++ (sep ++ joinWith sep qs) := by
  induction ps using joinWith.induct with
  | case1 => exact absurd rfl hps
  | case2 p =>
    obtain ⟨q, qs, rfl⟩ := List.exists_cons_of_ne_nil hqs
    rw [List.singleton_append, joinWith, joinWith, List.append_assoc]
    simp
  | case3 p ps hne ih =>
    have hps : ps ≠ [] := fun h => hne h
    rw [List.cons_append, joinWith, joinWith, ih hps]
    · simp only [List.append_assoc]
    · exact hne
    · simp [hps]

/-- The pieces of one text start with those of another one exactly if the texts are the same or the one
goes on behind the other one and a separator. -/
theorem splitOn_prefix_iff {sep : Char} {a b : List Char} :
    splitOn sep a <+: splitOn sep b ↔ b = a ∨ a ++ [sep] <+: b := by
  constructor
  · rintro ⟨ps, hps⟩
    have hjoin := joinWith_splitOn sep b
    rw [← hps] at hjoin
    by_cases hnil : ps = []
    · rw [hnil, List.append_nil, joinWith_splitOn] at hjoin
      exact .inl hjoin.symm
    · rw [joinWith_append (splitOn_ne_nil sep a) hnil, joinWith_splitOn, ← List.append_assoc] at hjoin
      exact .inr ⟨_, hjoin⟩
  · rintro (rfl | ⟨s, rfl⟩)
    · exact List.prefix_refl _
    · rw [List.append_assoc, List.singleton_append, splitOn_append_sep]
      exact List.prefix_append _ _

theorem pieces_prefix_iff {sep : Char} {a b : String} :
    pieces sep a <+: pieces sep b ↔ b = a ∨ a.toList ++ [sep] <+: b.toList := by
  rw [pieces, pieces, List.prefix_map_iff_of_injective fun _ _ => String.ofList_injective,
    splitOn_prefix_iff, String.toList_inj]

theorem mem_joinWith {c : Char} {sep : List Char} {ps : List (List Char)} (h : c ∈ joinWith sep ps) :
    c ∈ sep ∨ ∃ p ∈ ps, c ∈ p := by
  induction ps using joinWith.induct with
  | case1 => simp [joinWith] at h
  | case2 p => exact .inr ⟨p, List.mem_singleton_self p, h⟩
  | case3 p ps hne ih =>
    rw [joinWith, List.mem_append, List.mem_append] at h
    · rcases h with (h | h) | h
      · exact .inr ⟨p, List.mem_cons_self .., h⟩
      · exact .inl h
      · refine (ih h).imp_right ?_
        rintro ⟨p', hp', hc⟩
        exact ⟨p', List.mem_cons_of_mem _ hp', hc⟩
    · exact hne

/-- Lines that are joined and ended by a newline are lines that are each ended by one. -/
theorem joinWith_newline {ls : List (List Char)} (h : ls ≠ []) :
    joinWith ['\n'] ls ++ ['\n'] = ls.flatMap fun l => l ++ ['\n'] := by
  induction ls using joinWith.induct with
  | case1 => exact absurd rfl h
  | case2 l => simp [joinWith]
  | case3 l ls hne ih =>
    rw [joinWith, List.append_assoc, List.append_assoc, List.flatMap_cons, ih, List.append_assoc]
    · rintro rfl
      exact hne rfl
    · exact hne

end Decompilation.Text
