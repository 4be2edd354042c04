import Decompilation.Proofs.Source.Delimiter

/-!
# Delimiters as a grammar

The words of a delimiter and its partner are an opener, any number of words, and the closer. A scan
from an opener ends behind the word that starts there, whatever else stands in it, and there is at
most one such word (`matchingClose_ends_word`). Words are what stays within its openers and closes
all of them (`nested_iff`).
-/

namespace Decompilation.Source

variable {opener closer : Char} {s a b w front text : List Char} {n start stop : Nat}

/-- The words of a delimiter and its partner: an opener, any number of words, and the closer. -/
inductive Nested (opener closer : Char) : List Char → Prop
  | wrap (ws : List (List Char)) (words : ∀ w ∈ ws, Nested opener closer w) :
      Nested opener closer (opener :: (ws.flatten ++ [closer]))

/-- A text without all characters but a delimiter and its partner. -/
def delimiters (opener closer : Char) (s : List Char) : List Char :=
  s.filter fun c => c = opener ∨ c = closer

/-! ## Texts that close what they open -/

/-- A text closes what it opens: nothing in it is closed from outside, and nothing is left open. -/
structure Closes (opener closer : Char) (s : List Char) : Prop where
  within : Within opener closer 0 s
  even : s.count closer = s.count opener

theorem closes_nil : Closes opener closer [] := ⟨within_nil, rfl⟩

theorem Closes.append (ha : Closes opener closer a) (hb : Closes opener closer b) :
    Closes opener closer (a ++ b) := by
  refine ⟨fun n => ?_, ?_⟩
  · have hfront := ha.within n
    have hback := hb.within (n - a.length)
    rw [List.take_append, List.count_append, List.count_append]
    omega
  · rw [List.count_append, List.count_append, ha.even, hb.even]

theorem closes_flatten {ws : List (List Char)} (h : ∀ w ∈ ws, Closes opener closer w) :
    Closes opener closer ws.flatten := by
  induction ws with
  | nil => exact closes_nil
  | cons w ws ih =>
    rw [List.flatten_cons]
    exact (h w (List.mem_cons_self ..)).append (ih fun w' hw' => h w' (List.mem_cons_of_mem _ hw'))

theorem Closes.wrap (hne : opener ≠ closer) (ha : Closes opener closer a) :
    Closes opener closer (opener :: (a ++ [closer])) := by
  have hc : [closer].count closer = 1 := List.count_singleton_self
  have ho : [closer].count opener = 0 := List.count_eq_zero_of_not_mem (by simpa using hne)
  refine ⟨(within_cons_opener hne).2 fun n => ?_, ?_⟩
  · have hfront := ha.within n
    have hlast : ([closer].take (n - a.length)).count closer ≤ [closer].count closer :=
      (List.take_sublist _ _).count_le closer
    rw [List.take_append, List.count_append, List.count_append]
    omega
  · have heven := ha.even
    rw [List.count_cons_of_ne hne, List.count_cons_self, List.count_append, List.count_append]
    omega

/-- What follows the closer of the first opener closes what it opens if the whole does. -/
theorem Closes.behind (hne : opener ≠ closer) (ha : Closes opener closer a)
    (h : Closes opener closer (opener :: (a ++ closer :: b))) : Closes opener closer b := by
  have heven := ha.even
  refine ⟨fun n => ?_, ?_⟩
  · have hall := (within_cons_opener hne).1 h.within (a.length + (n + 1))
    rw [List.take_length_add_append, List.take_succ_cons, List.count_append, List.count_append,
      List.count_cons_self, List.count_cons_of_ne hne.symm] at hall
    omega
  · have hall := h.even
    rw [List.count_cons_of_ne hne, List.count_cons_self, List.count_append, List.count_append,
      List.count_cons_self, List.count_cons_of_ne hne.symm] at hall
    omega

/-- A text that closes what it opens and starts with an opener has the closer of this opener in it. -/
theorem Closes.exists_closer (hne : opener ≠ closer) (h : Closes opener closer (opener :: s)) :
    ∃ a b, s = a ++ closer :: b ∧ Closes opener closer a ∧ Closes opener closer b := by
  have hover : ¬ Within opener closer 0 s := by
    intro hw
    have hall := hw s.length
    have heven := h.even
    rw [List.count_cons_of_ne hne, List.count_cons_self] at heven
    rw [List.take_length] at hall
    omega
  obtain ⟨a, b, rfl, hw, heven⟩ := exists_of_not_within hne hover
  have ha : Closes opener closer a := ⟨hw, heven⟩
  exact ⟨a, b, rfl, ha, ha.behind hne h⟩

/-- Other characters make no difference to what a text opens and closes. -/
theorem within_delimiters (hne : opener ≠ closer) {outer : Nat} :
    Within opener closer outer (delimiters opener closer s) ↔ Within opener closer outer s := by
  induction s generalizing outer with
  | nil => rfl
  | cons c s ih =>
    by_cases ho : c = opener
    · subst ho
      have hkeep : delimiters c closer (c :: s) = c :: delimiters c closer s :=
        List.filter_cons_of_pos (by simp)
      rw [hkeep, within_cons_opener hne, within_cons_opener hne, ih]
    · by_cases hc : c = closer
      · subst hc
        have hkeep : delimiters opener c (c :: s) = c :: delimiters opener c s :=
          List.filter_cons_of_pos (by simp)
        rw [hkeep, within_cons_closer hne, within_cons_closer hne, ih]
      · have hdrop : delimiters opener closer (c :: s) = delimiters opener closer s :=
          List.filter_cons_of_neg (by simp [ho, hc])
        rw [hdrop, within_cons_other ho hc, ih]

theorem closes_delimiters (hne : opener ≠ closer) :
    Closes opener closer (delimiters opener closer s) ↔ Closes opener closer s := by
  have hc : (delimiters opener closer s).count closer = s.count closer :=
    List.count_filter (by simp)
  have ho : (delimiters opener closer s).count opener = s.count opener :=
    List.count_filter (by simp)
  constructor
  · intro h
    exact ⟨(within_delimiters hne).1 h.within, by rw [← hc, ← ho, h.even]⟩
  · intro h
    exact ⟨(within_delimiters hne).2 h.within, by rw [hc, ho, h.even]⟩

theorem delimiters_wrap (opener closer : Char) (a : List Char) :
    delimiters opener closer (opener :: (a ++ [closer])) =
      opener :: (delimiters opener closer a ++ [closer]) := by
  simp [delimiters]

/-! ## Words -/

theorem Nested.closes (hne : opener ≠ closer) (h : Nested opener closer w) :
    Closes opener closer w := by
  induction h with
  | wrap ws _ ih => exact (closes_flatten ih).wrap hne

/-- A text of openers and closers alone that closes what it opens is made of words: the first one ends
with the closer of the opener that the text starts with. -/
theorem exists_words (hne : opener ≠ closer) (honly : ∀ c ∈ s, c = opener ∨ c = closer)
    (h : Closes opener closer s) :
    ∃ ws : List (List Char), s = ws.flatten ∧ ∀ w ∈ ws, Nested opener closer w := by
  -- The induction is on the length: what is inside of the first word and what is behind it are shorter.
  induction hn : s.length using Nat.strongRecOn generalizing s with
  | ind n ih =>
    cases s with
    | nil => exact ⟨[], rfl, List.forall_mem_nil _⟩
    | cons c s =>
      obtain rfl : c = opener := by
        rcases honly c (List.mem_cons_self ..) with hc | rfl
        · exact hc
        · exact absurd rfl ((within_cons_closer hne).1 h.within).1
      obtain ⟨a, b, rfl, ha, hb⟩ := h.exists_closer hne
      simp only [List.length_cons, List.length_append] at hn
      simp only [List.mem_cons, List.mem_append] at honly
      obtain ⟨inner, rfl, hinner⟩ :=
        ih a.length (by omega) (fun d hd => honly d (.inr (.inl hd))) ha rfl
      obtain ⟨later, rfl, hlater⟩ :=
        ih b.length (by omega) (fun d hd => honly d (.inr (.inr (.inr hd)))) hb rfl
      refine ⟨(c :: (inner.flatten ++ [closer])) :: later, by simp, fun w hmem => ?_⟩
      rcases List.mem_cons.1 hmem with rfl | hmem
      · exact .wrap inner hinner
      · exact hlater w hmem

/-- What stands between a delimiter and its partner closes what it opens exactly where, other
characters aside, it makes a word with them. -/
theorem nested_iff (hne : opener ≠ closer) :
    Nested opener closer (delimiters opener closer (opener :: (a ++ [closer]))) ↔
      Closes opener closer a := by
  rw [delimiters_wrap, ← closes_delimiters hne]
  constructor
  · intro hnested
    generalize hword : opener :: (delimiters opener closer a ++ [closer]) = w at hnested
    cases hnested with
    | wrap ws words =>
      have hinner : delimiters opener closer a = ws.flatten := by simpa using hword
      rw [hinner]
      exact closes_flatten fun w hw => (words w hw).closes hne
  · intro hcloses
    obtain ⟨ws, hws, hwords⟩ := exists_words hne (fun c hc => by simpa using (List.mem_filter.1 hc).2)
      hcloses
    rw [hws]
    exact .wrap ws hwords

theorem closing?_eq_some_iff_closes (hne : opener ≠ closer) :
    closing? opener closer 0 s = some n ↔
      ∃ a b, s = a ++ closer :: b ∧ n = a.length + 1 ∧ Closes opener closer a := by
  rw [closing?_eq_some_iff hne]
  constructor
  · rintro ⟨a, b, hs, hn, hw, heven⟩
    exact ⟨a, b, hs, hn, hw, heven⟩
  · rintro ⟨a, b, hs, hn, hw, heven⟩
    exact ⟨a, b, hs, hn, hw, heven⟩

/-! ## Words in a text -/

/-- A word of a delimiter and its partner lies between two offsets of a text, other characters aside,
and its closer stands right before the second. -/
structure Encloses (text : List Char) (opener closer : Char) (start stop : Nat) : Prop where
  lt : start < stop
  word : Nested opener closer (delimiters opener closer ((text.take stop).drop start))
  last : text[stop - 1]? = some closer

theorem exists_append_of_getElem? {c : Char} (h : s[n]? = some c) :
    ∃ a b, s = a ++ c :: b ∧ a.length = n := by
  obtain ⟨hn, hget⟩ := List.getElem?_eq_some_iff.1 h
  refine ⟨s.take n, s.drop (n + 1), ?_, List.length_take_of_le (Nat.le_of_lt hn)⟩
  rw [← hget, ← List.drop_eq_getElem_cons hn, List.take_append_drop]

theorem encloses_append (hne : opener ≠ closer) :
    Encloses (front ++ opener :: s) opener closer front.length stop ↔
      ∃ a b, s = a ++ closer :: b ∧ stop = front.length + (a.length + 2) ∧
        Closes opener closer a := by
  have hcut : ∀ a b : List Char, ((front ++ opener :: (a ++ closer :: b)).take
      (front.length + (a.length + 2))).drop front.length = opener :: (a ++ [closer]) := by
    intro a b
    rw [List.take_length_add_append, List.drop_left, List.take_succ_cons,
      List.take_length_add_append]
    rfl
  have hget : ∀ n, (front ++ opener :: s)[front.length + (n + 1) - 1]? = (opener :: s)[n]? := by
    intro n
    rw [show front.length + (n + 1) - 1 = front.length + n by omega,
      List.getElem?_append_right (by omega), Nat.add_sub_cancel_left]
  constructor
  · rintro ⟨hlt, hword, hlast⟩
    obtain ⟨n, rfl⟩ : ∃ n, stop = front.length + (n + 1) := ⟨stop - front.length - 1, by omega⟩
    rw [hget] at hlast
    cases n with
    | zero => exact absurd (Option.some.inj hlast) hne
    | succ n =>
      obtain ⟨a, b, rfl, rfl⟩ := exists_append_of_getElem? (s := s) hlast
      rw [hcut, nested_iff hne] at hword
      exact ⟨a, b, rfl, rfl, hword⟩
  · rintro ⟨a, b, rfl, rfl, ha⟩
    refine ⟨by omega, ?_, ?_⟩
    · rw [hcut]
      exact (nested_iff hne).2 ha
    · rw [hget (a.length + 1), List.getElem?_cons_succ, List.getElem?_append_right (Nat.le_refl _),
        Nat.sub_self]
      rfl

/-- A word starts at an opener exactly where the scan behind it finds the closer. -/
theorem encloses_iff (hne : opener ≠ closer) (hstart : text[start]? = some opener) :
    Encloses text opener closer start stop ↔
      ∃ n, closing? opener closer 0 (text.drop (start + 1)) = some n ∧ stop = start + 1 + n := by
  obtain ⟨front, s, rfl, rfl⟩ := exists_append_of_getElem? hstart
  have hbehind : (front ++ opener :: s).drop (front.length + 1) = s := by
    rw [List.drop_length_add_append]
    rfl
  rw [encloses_append hne, hbehind]
  constructor
  · rintro ⟨a, b, hs, rfl, ha⟩
    exact ⟨a.length + 1, (closing?_eq_some_iff_closes hne).2 ⟨a, b, hs, rfl, ha⟩, by omega⟩
  · rintro ⟨n, hclosing, rfl⟩
    obtain ⟨a, b, hs, rfl, ha⟩ := (closing?_eq_some_iff_closes hne).1 hclosing
    exact ⟨a, b, hs, by omega, ha⟩

theorem matchingClose_eq (hstart : text[start]? = some opener) :
    matchingClose text start =
      match closing? opener (closerOf opener) 0 (text.drop (start + 1)) with
      | some n => start + 1 + n
      | none => text.length := by
  obtain ⟨hlt, hget⟩ := List.getElem?_eq_some_iff.1 hstart
  rewrite [matchingClose, if_neg (by omega), Int.toNat_natCast, List.drop_eq_getElem_cons hlt, hget]
  rfl

theorem closerOf_eq (h : (opener, closer) ∈ [('{', '}'), ('(', ')'), ('[', ']'), ('<', '>')]) :
    closerOf opener = closer ∧ opener ≠ closer := by
  have hall : ∀ pair ∈ [('{', '}'), ('(', ')'), ('[', ']'), ('<', '>')],
      closerOf pair.1 = pair.2 ∧ pair.1 ≠ pair.2 := by decide
  exact hall _ h

/-- **A delimiter is matched by the word that it opens.** Where an opening delimiter stands at an
offset of a text and a word of it and its partner starts there, the word is the only one, and the scan
finds its end. Where none starts there, the scan finds no end and goes to the end of the text. -/
theorem matchingClose_ends_word
    (hpair : (opener, closer) ∈ [('{', '}'), ('(', ')'), ('[', ']'), ('<', '>')])
    (hstart : text[start]? = some opener) :
    (∀ stop, Encloses text opener closer start stop →
      (∀ stop', Encloses text opener closer start stop' → stop' = stop) ∧
        closing? opener (closerOf opener) 0 (text.drop (start + 1)) = some (stop - (start + 1)) ∧
        matchingClose text start = stop) ∧
    ((¬ ∃ stop, Encloses text opener closer start stop) →
      closing? opener (closerOf opener) 0 (text.drop (start + 1)) = none ∧
        matchingClose text start = text.length) := by
  obtain ⟨rfl, hne⟩ := closerOf_eq hpair
  have hiff : ∀ stop, Encloses text opener (closerOf opener) start stop ↔
      ∃ n, closing? opener (closerOf opener) 0 (text.drop (start + 1)) = some n ∧
        stop = start + 1 + n := fun _ => encloses_iff hne hstart
  rw [matchingClose_eq hstart]
  constructor
  · intro stop hstop
    obtain ⟨n, hclosing, rfl⟩ := (hiff stop).1 hstop
    rw [hclosing]
    refine ⟨fun stop' hstop' => ?_, by simp, rfl⟩
    obtain ⟨n', hclosing', rfl⟩ := (hiff stop').1 hstop'
    rw [Option.some.inj (hclosing.symm.trans hclosing')]
  · intro hnone
    have hclosing : closing? opener (closerOf opener) 0 (text.drop (start + 1)) = none :=
      Option.eq_none_iff_forall_ne_some.2 fun n hn => hnone ⟨_, (hiff _).2 ⟨n, hn, rfl⟩⟩
    rw [hclosing]
    exact ⟨rfl, rfl⟩

/-- A word with braces in it that do not count, and an opener behind it that is never closed. -/
theorem matchingClose_ends_call :
    let text := "f(g(x){(y}))(".toList
    Encloses text '(' ')' 1 12 ∧ closing? '(' ')' 0 (text.drop 2) = some 10 ∧
      matchingClose text 1 = 12 ∧ (¬ ∃ stop, Encloses text '(' ')' 12 stop) ∧
      closing? '(' ')' 0 (text.drop 13) = none ∧ matchingClose text 12 = text.length := by
  intro text
  have hinner : Nested '(' ')' ['(', ')'] := .wrap [] (List.forall_mem_nil _)
  have hword : Nested '(' ')' (delimiters '(' ')' ((text.take 12).drop 1)) :=
    .wrap [['(', ')'], ['(', ')']] (by simpa using hinner)
  have hencloses : Encloses text '(' ')' 1 12 := ⟨by decide, hword, by decide⟩
  have hfirst : text[1]? = some '(' := by decide
  have hlast : text[12]? = some '(' := by decide
  have hopen : ¬ ∃ stop, Encloses text '(' ')' 12 stop := by
    rintro ⟨stop, hstop⟩
    obtain ⟨n, hclosing, -⟩ := (encloses_iff (by decide) hlast).1 hstop
    have hnone : closing? '(' ')' 0 (text.drop (12 + 1)) = none := by decide
    rw [hnone] at hclosing
    cases hclosing
  obtain ⟨-, hclosing, hclose⟩ := (matchingClose_ends_word (by decide) hfirst).1 12 hencloses
  obtain ⟨hunclosed, hend⟩ := (matchingClose_ends_word (by decide) hlast).2 hopen
  exact ⟨hencloses, hclosing, hclose, hopen, hunclosed, hend⟩

end Decompilation.Source
