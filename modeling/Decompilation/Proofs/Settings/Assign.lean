import Decompilation.Proofs.Settings.EnvFile

/-!
# Assigning in any text

A line sets a key where the key stands in front of the first equals sign, blanks aside
(`setting?_eq_some_iff`); it is replaced when the key is assigned only if no blanks stand in front of
that sign (`concerns_iff`). So an assigned key has its value unless a line with such blanks sets it
behind the lines that are replaced (`get?_parse_assign_iff`). What other keys are set to stays
(`erase_parse_assign`), and assigning again changes nothing (`assign_assign`).
-/

namespace Decompilation.EnvFile

open Text

variable {key key' value value' : String} {s l text a rest gap : List Char} {ls : List (List Char)}

/-! ## What a line sets -/

/-- A line sets a key to a value, with a gap of blanks in front of the equals sign. -/
structure Sets (key : String) (gap : List Char) (value : String) (l : List Char) : Prop where
  blank : ∀ c ∈ gap, isBlank c = true
  reads : ∃ rest, trim l = key.toList ++ (gap ++ '=' :: rest) ∧ value.toList = unquote (trim rest)

theorem pair?_of_not_mem (h : '=' ∉ trim l) : pair? l = none := by
  have hsplit : (trim l).elem '=' = false := by simpa using h
  simp only [pair?, hsplit, Bool.not_false, Bool.or_true, if_true]

/-- A line with a setting is cut at its first equals sign. -/
theorem pair?_of_cut (h : trim l = a ++ '=' :: rest) (ha : '=' ∉ a) : pair? l =
    if (trim l).head? = some '#' ∨ trim a = [] then none
    else some (String.ofList (trim a), String.ofList (unquote (trim rest))) := by
  have hempty : (trim l).isEmpty = false := by simp [h]
  have hsplit : (trim l).elem '=' = true := by simp [h]
  have hfront : (trim l).takeWhile (· != '=') = a := by rw [h, takeWhile_append_equals ha]
  have hback : ((trim l).dropWhile (· != '=')).drop 1 = rest := by
    rw [h, dropWhile_append_equals ha, List.drop_succ_cons, List.drop_zero]
  simp only [pair?, hempty, hsplit, hfront, hback, Bool.false_or, Bool.not_true, Bool.or_false]
  by_cases hcomment : (trim l).head? = some '#'
  · simp [hcomment]
  · by_cases hkey : trim a = [] <;> simp [hcomment, hkey]

/-- What a line sets a key to. -/
def setting? (key : String) (l : List Char) : Option String :=
  (pair? l).bind fun e => if e.1 = key then some e.2 else none

theorem setting?_iff_pair?_eq_some : setting? key l = some value ↔ pair? l = some (key, value) := by
  unfold setting?
  cases pair? l with
  | none => simp
  | some e =>
    obtain ⟨key', value'⟩ := e
    simp only [Option.bind_some]
    split <;> simp_all

/-- The part of a trimmed line in front of its first equals sign is a key with a gap behind it. -/
theorem exists_gap (hline : trim l = a ++ '=' :: rest)
    (ha : trim a = key.toList) : ∃ gap, (∀ c ∈ gap, isBlank c = true) ∧ a = key.toList ++ gap := by
  obtain ⟨front, gap, hfront, hgap, hcut⟩ := exists_trim a
  rw [ha] at hcut
  refine ⟨gap, hgap, ?_⟩
  cases front with
  | nil => exact hcut
  | cons c front =>
    have hhead : (trim l).head?.any isBlank = false := head_of_trim (trim_trim l)
    rw [hline, hcut, List.cons_append, List.cons_append, List.head?_cons, Option.any_some,
      hfront c (List.mem_cons_self ..)] at hhead
    cases hhead

/-- A key is set by a line exactly if it stands in front of the first equals sign, blanks aside. -/
theorem setting?_eq_some_iff (hkey : IsKey key) :
    setting? key l = some value ↔ ∃ gap, Sets key gap value l := by
  rw [setting?_iff_pair?_eq_some]
  constructor
  · intro h
    by_cases hmem : '=' ∈ trim l
    · obtain ⟨a, rest, hline, ha⟩ := List.eq_append_cons_of_mem hmem
      rw [pair?_of_cut hline ha] at h
      split at h
      · cases h
      · simp only [Option.some.injEq, Prod.mk.injEq] at h
        obtain ⟨hname, hvalue⟩ := h
        have htrim : trim a = key.toList := by rw [← hname, String.toList_ofList]
        obtain ⟨gap, hgap, rfl⟩ := exists_gap hline htrim
        refine ⟨gap, hgap, rest, by rw [hline, List.append_assoc], ?_⟩
        rw [← hvalue, String.toList_ofList]
    · rw [pair?_of_not_mem hmem] at h
      cases h
  · rintro ⟨gap, hgap, rest, hline, hvalue⟩
    have hcut : trim l = (key.toList ++ gap) ++ '=' :: rest := by rw [hline, List.append_assoc]
    have hmem : '=' ∉ key.toList ++ gap := by
      rw [List.mem_append, not_or]
      exact ⟨hkey.unsplit, not_mem_of_blank hgap (by decide)⟩
    have htrim : trim (key.toList ++ gap) = key.toList := by
      rw [trim_append_right hgap, hkey.trimmed]
    have hhead : (trim l).head? ≠ some '#' := by
      rw [hline, List.head?_append_of_ne_nil _ hkey.ne_nil]
      exact hkey.plain
    rw [pair?_of_cut hcut hmem, htrim, if_neg (not_or.2 ⟨hhead, hkey.ne_nil⟩), ← hvalue,
      String.ofList_toList, String.ofList_toList]

/-- A line is replaced exactly if it sets the key without a gap. -/
theorem concerns_iff : concerns key l = true ↔ ∃ value, Sets key [] value l := by
  rw [concerns, List.isPrefixOf_iff_prefix]
  constructor
  · rintro ⟨rest, hrest⟩
    refine ⟨String.ofList (unquote (trim rest)), List.forall_mem_nil _, rest, ?_, by simp⟩
    rw [← hrest]
    simp
  · rintro ⟨value, -, rest, hline, -⟩
    exact ⟨rest, by simp [hline]⟩

/-- A line with a gap is not replaced. -/
theorem Sets.not_concerns (h : Sets key gap value l) (hgap : gap ≠ []) : ¬ concerns key l = true := by
  intro hl
  obtain ⟨-, -, rest, hline, -⟩ := concerns_iff.1 hl
  obtain ⟨rest', hline', -⟩ := h.reads
  obtain ⟨c, gap, rfl⟩ := List.exists_cons_of_ne_nil hgap
  have hsame : '=' = c := by
    rw [hline, List.append_cancel_left_eq] at hline'
    exact (List.cons.inj hline').1
  have hplain : '=' ∉ c :: gap := not_mem_of_blank h.blank (by decide)
  exact hplain (hsame ▸ List.mem_cons_self ..)

/-- The line of a setting is replaced when its key is assigned. -/
theorem concerns_lineOf_self (hkey : IsKey key) (value : String) :
    concerns key (lineOf key value) = true := by
  have hhead : (lineOf key value).head?.any isBlank = false := by
    rw [lineOf, List.head?_append_of_ne_nil _ hkey.ne_nil]
    exact head_of_trim hkey.trimmed
  rw [concerns, List.isPrefixOf_iff_prefix, trim, trimStart_of_not_blank hhead, lineOf,
    trimEnd_append_cons (by decide)]
  exact ⟨trimEnd value.toList, by simp⟩

/-! ## The last line counts -/

/-- Of several lines that set a key the last one counts. -/
theorem get?_settingsOn (key : String) (ls : List (List Char)) :
    (settingsOn ls).get? key = ls.reverse.findSome? (setting? key) := by
  induction ls using List.reverseRecOn with
  | nil => rfl
  | append_singleton ls l ih =>
    rw [List.reverse_concat, List.findSome?_cons, setting?]
    cases he : pair? l with
    | none => rw [settingsOn_concat_of_none he, ih, Option.bind_none]
    | some e =>
      obtain ⟨key', value'⟩ := e
      rw [settingsOn_concat he, Table.get?_insert, ih, Option.bind_some]
      by_cases hkey : key = key'
      · rw [if_pos hkey, if_pos hkey.symm]
      · rw [if_neg hkey, if_neg (Ne.symm hkey)]

/-- The last line that sets a key sets it to something else and has a gap, and a line before it has
none. -/
def Overruled (key value : String) (ls : List (List Char)) : Prop :=
  ∃ front l back gap other, ls = front ++ l :: back ∧ (∃ l' ∈ front, ∃ old, Sets key [] old l') ∧
    gap ≠ [] ∧ Sets key gap other l ∧ other ≠ value ∧ ∀ l' ∈ back, ∀ gap old, ¬ Sets key gap old l'

/-- What a line sets a key to when the key has been assigned. -/
def settingAfter? (key value : String) (l : List Char) : Option String :=
  if concerns key l then some value else setting? key l

theorem findSome?_reverse_eq_some_iff {f : List Char → Option String} :
    ls.reverse.findSome? f = some value ↔
      ∃ front l back, ls = front ++ l :: back ∧ f l = some value ∧ ∀ l' ∈ back, f l' = none := by
  rw [List.findSome?_eq_some_iff]
  constructor
  · rintro ⟨back, l, front, hls, hl, hback⟩
    refine ⟨front.reverse, l, back.reverse, ?_, hl, fun l' hl' => hback l' (List.mem_reverse.1 hl')⟩
    rw [← List.reverse_reverse ls, hls]
    simp
  · rintro ⟨front, l, back, rfl, hl, hback⟩
    exact ⟨back.reverse, l, front.reverse, by simp, hl, fun l' hl' => hback l' (List.mem_reverse.1 hl')⟩

theorem setting?_lineOf (hkey : IsKey key) (hvalue : IsValue value) :
    setting? key (lineOf key value) = some value :=
  setting?_iff_pair?_eq_some.2 (pair?_lineOf hkey hvalue)

/-- Where no line is replaced an assigned key has its value. -/
theorem get?_settingsOn_of_not_any (hkey : IsKey key) (hvalue : IsValue value)
    (h : ls.any (concerns key) = false) :
    (settingsOn (assignLines key value ls)).get? key = some value := by
  rw [assignLines, h, if_neg Bool.false_ne_true, get?_settingsOn, List.reverse_concat,
    List.findSome?_cons, setting?_lineOf hkey hvalue]

theorem get?_settingsOn_of_any (hkey : IsKey key) (hvalue : IsValue value)
    (h : ls.any (concerns key) = true) : (settingsOn (assignLines key value ls)).get? key =
      ls.reverse.findSome? (settingAfter? key value) := by
  rw [assignLines, if_pos h, get?_settingsOn, ← List.map_reverse, List.findSome?_map]
  refine congrArg (ls.reverse.findSome? ·) (funext fun l => ?_)
  rw [Function.comp_apply, settingAfter?]
  by_cases hl : concerns key l = true
  · rw [if_pos hl, if_pos hl, setting?_lineOf hkey hvalue]
  · rw [if_neg hl, if_neg hl]

/-- A key is still set to nothing where it was set to nothing. -/
theorem settingAfter?_eq_none_iff (hkey : IsKey key) :
    settingAfter? key value l = none ↔ ∀ gap old, ¬ Sets key gap old l := by
  constructor
  · intro h gap old hsets
    have hset := (setting?_eq_some_iff hkey).2 ⟨gap, hsets⟩
    rw [settingAfter?, hset] at h
    split at h <;> cases h
  · intro h
    have hplain : ¬ concerns key l = true := fun hl => by
      obtain ⟨old, hsets⟩ := concerns_iff.1 hl
      exact h [] old hsets
    rw [settingAfter?, if_neg hplain]
    cases hset : setting? key l with
    | none => rfl
    | some old =>
      obtain ⟨gap, hsets⟩ := (setting?_eq_some_iff hkey).1 hset
      exact absurd hsets (h gap old)

/-- A key is set where a line is replaced, and where a line with a gap stays. -/
theorem settingAfter?_eq_some_iff {other : String} (hkey : IsKey key) :
    settingAfter? key value l = some other ↔
      concerns key l = true ∧ value = other ∨ ∃ gap, gap ≠ [] ∧ Sets key gap other l := by
  by_cases hl : concerns key l = true
  · have hnone : ¬ ∃ gap, gap ≠ [] ∧ Sets key gap other l := fun ⟨gap, hgap, hsets⟩ =>
      hsets.not_concerns hgap hl
    rw [settingAfter?, if_pos hl, Option.some.injEq, or_iff_left hnone, and_iff_right hl]
  · rw [settingAfter?, if_neg hl, setting?_eq_some_iff hkey, or_iff_right fun h => hl h.1]
    refine exists_congr fun gap => (and_iff_right_of_imp ?_).symm
    rintro hsets rfl
    exact hl (concerns_iff.2 ⟨other, hsets⟩)

theorem overruled_iff (hkey : IsKey key) : Overruled key value ls ↔
    ls.any (concerns key) = true ∧ ∃ other, other ≠ value ∧
      ls.reverse.findSome? (settingAfter? key value) = some other := by
  constructor
  · rintro ⟨front, l, back, gap, other, rfl, ⟨l', hl', hreplaced⟩, hgap, hsets, hother, hback⟩
    have hany : (front ++ l :: back).any (concerns key) = true :=
      List.any_eq_true.2 ⟨l', List.mem_append_left _ hl', concerns_iff.2 hreplaced⟩
    have hset : settingAfter? key value l = some other :=
      (settingAfter?_eq_some_iff hkey).2 (.inr ⟨gap, hgap, hsets⟩)
    exact ⟨hany, other, hother, findSome?_reverse_eq_some_iff.2 ⟨front, l, back, rfl, hset,
      fun l' hl' => (settingAfter?_eq_none_iff hkey).2 (hback l' hl')⟩⟩
  · rintro ⟨hany, other, hother, hlast⟩
    obtain ⟨l₀, hl₀, hreplaced⟩ := List.any_eq_true.1 hany
    obtain ⟨front, l, back, rfl, hl, hback⟩ := findSome?_reverse_eq_some_iff.1 hlast
    have hsilent : ∀ l' ∈ back, ∀ gap old, ¬ Sets key gap old l' := fun l' hl' =>
      (settingAfter?_eq_none_iff hkey).1 (hback l' hl')
    obtain ⟨gap, hgap, hsets⟩ :=
      ((settingAfter?_eq_some_iff hkey).1 hl).resolve_left fun h => hother h.2.symm
    -- the last line has a gap, so the one that is replaced stands before it
    refine ⟨front, l, back, gap, other, rfl, ⟨l₀, ?_, concerns_iff.1 hreplaced⟩, hgap, hsets, hother,
      hsilent⟩
    rcases List.mem_append.1 hl₀ with hl₀ | hl₀
    · exact hl₀
    rcases List.mem_cons.1 hl₀ with rfl | hl₀
    · exact absurd hreplaced (hsets.not_concerns hgap)
    · obtain ⟨old, hsets₀⟩ := concerns_iff.1 hreplaced
      exact absurd hsets₀ (hsilent l₀ hl₀ [] old)

/-- An assigned key has its value exactly if no line behind those that are replaced overrules it. -/
theorem get?_settingsOn_assignLines_iff (hkey : IsKey key) (hvalue : IsValue value) :
    (settingsOn (assignLines key value ls)).get? key = some value ↔ ¬ Overruled key value ls := by
  rw [overruled_iff hkey]
  cases hany : ls.any (concerns key) with
  | false => exact iff_of_true (get?_settingsOn_of_not_any hkey hvalue hany) (by simp)
  | true =>
    obtain ⟨l₀, hl₀, hreplaced⟩ := List.any_eq_true.1 hany
    have hset₀ : settingAfter? key value l₀ = some value := by rw [settingAfter?, if_pos hreplaced]
    obtain ⟨last, hlast⟩ := Option.isSome_iff_exists.1 (List.findSome?_isSome_iff.2
      ⟨l₀, List.mem_reverse.2 hl₀, Option.isSome_iff_exists.2 ⟨value, hset₀⟩⟩)
    rw [get?_settingsOn_of_any hkey hvalue hany, hlast]
    simp

theorem get?_parse_assign_iff (hkey : IsKey key) (hvalue : IsValue value) (text : List Char) :
    (parse (assign key value text)).get? key = some value ↔ ¬ Overruled key value (lines text) := by
  rw [parse_assign hkey hvalue.unbroken]
  exact get?_settingsOn_assignLines_iff hkey hvalue

/-! ## Other keys -/

theorem exists_pair?_of_concerns (hkey : IsKey key) (h : concerns key l = true) :
    ∃ value, pair? l = some (key, value) := by
  obtain ⟨value, hsets⟩ := concerns_iff.1 h
  exact ⟨value, setting?_iff_pair?_eq_some.1 ((setting?_eq_some_iff hkey).2 ⟨[], hsets⟩)⟩

/-- What a line sets a key to that is not `key`. -/
def otherPair? (key : String) (l : List Char) : Option (String × String) :=
  (pair? l).filter fun e => decide (e.1 ≠ key)

theorem otherPair?_of_concerns (hkey : IsKey key) (h : concerns key l = true) :
    otherPair? key l = none := by
  obtain ⟨value, hentry⟩ := exists_pair?_of_concerns hkey h
  rw [otherPair?, hentry]
  simp

theorem filter_filterMap_pair? (key : String) (ls : List (List Char)) :
    (ls.filterMap pair?).filter (fun e => decide (e.1 ≠ key)) = ls.filterMap (otherPair? key) := by
  rw [List.filter_filterMap]
  rfl

/-- The lines that set other keys stay. -/
theorem filterMap_assignLines (hkey : IsKey key) (value : String) (ls : List (List Char)) :
    (assignLines key value ls).filterMap (otherPair? key) = ls.filterMap (otherPair? key) := by
  have hline : otherPair? key (lineOf key value) = none :=
    otherPair?_of_concerns hkey (concerns_lineOf_self hkey value)
  unfold assignLines
  split
  · rw [List.filterMap_map]
    refine List.filterMap_congr fun l _ => ?_
    rw [Function.comp_apply]
    split
    · rename_i hl
      rw [hline, otherPair?_of_concerns hkey hl]
    · rfl
  · rw [List.filterMap_append, List.filterMap_cons_none hline, List.filterMap_nil, List.append_nil]

theorem erase_settingsOn (key : String) (ls : List (List Char)) :
    (settingsOn ls).erase key = Table.ofList (ls.filterMap (otherPair? key)) := by
  rw [settingsOn, Table.erase, Table.filterKeys_ofList (fun k => decide (k ≠ key)),
    filter_filterMap_pair?]

/-- The settings of a text are those on its lines, where only newlines end lines. -/
theorem parse_eq_settingsOn (h : ∀ c ∈ text, isBreak c = true → c = '\n') :
    parse text = settingsOn (lines text) := by
  rw [parse]
  rcases splitOn_newline_cases h with hsame | hsame
  · rw [hsame, settingsOn]
  · rw [hsame]
    exact settingsOn_concat_of_none rfl _

/-- Where only newlines end lines, assigning a key leaves all other settings, in their order. -/
theorem erase_parse_assign (hkey : IsKey key) (hvalue : ∀ c ∈ value.toList, isBreak c = false)
    (h : ∀ c ∈ text, isBreak c = true → c = '\n') :
    (parse (assign key value text)).erase key = (parse text).erase key := by
  rw [parse_assign hkey hvalue, parse_eq_settingsOn h, erase_settingsOn, erase_settingsOn,
    filterMap_assignLines hkey]

/-! ## Once more -/

theorem assignLines_assignLines (hkey : IsKey key) (value : String) (ls : List (List Char)) :
    assignLines key value (assignLines key value ls) = assignLines key value ls := by
  have hline := concerns_lineOf_self hkey value
  have hany : (assignLines key value ls).any (concerns key) = true := by
    unfold assignLines
    split
    · rename_i h
      obtain ⟨l, hl, hconcerns⟩ := List.any_eq_true.1 h
      exact List.any_eq_true.2 ⟨_, List.mem_map_of_mem hl, by rwa [if_pos hconcerns]⟩
    · exact List.any_eq_true.2 ⟨_, List.mem_concat_self, hline⟩
  -- a line that is replaced once more is the line of the setting already
  have hsame : ∀ l ∈ assignLines key value ls, concerns key l = true → l = lineOf key value := by
    intro l hl hconcerns
    unfold assignLines at hl
    split at hl
    · obtain ⟨l', -, rfl⟩ := List.mem_map.1 hl
      by_cases hl' : concerns key l' = true
      · rw [if_pos hl']
      · rw [if_neg hl'] at hconcerns
        exact absurd hconcerns hl'
    · rename_i h
      rcases List.mem_append.1 hl with hl | hl
      · exact absurd (List.any_eq_true.2 ⟨l, hl, hconcerns⟩) h
      · exact List.mem_singleton.1 hl
  rw [assignLines, if_pos hany]
  refine (List.map_congr_left fun l hl => ?_).trans (List.map_id _)
  split
  · rename_i hconcerns
    exact (hsame l hl hconcerns).symm
  · rfl

theorem lines_assign (hkey : IsKey key) (hvalue : ∀ c ∈ value.toList, isBreak c = false)
    (text : List Char) : lines (assign key value text) = assignLines key value (lines text) := by
  have hunbroken : ∀ l ∈ assignLines key value (lines text), ∀ c ∈ l, isBreak c = false :=
    fun l hl => isBreak_assignLines hkey hvalue hl
  have hlines := lines_flatMap_newline hunbroken []
  rwa [List.append_nil, lines, List.append_nil, ← assign_eq_flatMap] at hlines

/-- A key that is assigned once more is assigned already. -/
theorem assign_assign (hkey : IsKey key) (hvalue : ∀ c ∈ value.toList, isBreak c = false)
    (text : List Char) : assign key value (assign key value text) = assign key value text := by
  rw [assign, lines_assign hkey hvalue, assignLines_assignLines hkey, assign]

end Decompilation.EnvFile
