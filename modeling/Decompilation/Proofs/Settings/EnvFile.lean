import Decompilation.Proofs.Table
import Decompilation.Proofs.Text.Blank
import Decompilation.Proofs.Text.Lines
import Decompilation.Settings.EnvFile

/-!
# Files of settings that were written

A text that was written line by line (`render`) lists the settings that it was written from
(`parse_render`), and assigning a key in it is putting the key into that list (`assign_render`). The
keys and values must be such as stand for themselves on a line (`IsKey`, `IsValue`).
-/

namespace Decompilation.EnvFile

open Text

variable {key key' value value' : String} {s : List Char} {es : List (String × String)}

/-- A text stands between two equal quotes. -/
def IsQuoted (s : List Char) : Prop :=
  ∃ q inner, (q = '\'' ∨ q = '"') ∧ s = q :: (inner ++ [q])

/-- A key that stands for itself on a line. -/
structure IsKey (key : String) : Prop where
  ne_nil : key.toList ≠ []
  trimmed : trim key.toList = key.toList
  unsplit : '=' ∉ key.toList
  unbroken : ∀ c ∈ key.toList, isBreak c = false
  plain : key.toList.head? ≠ some '#'

/-- A value that stands for itself behind an equals sign. -/
structure IsValue (value : String) : Prop where
  trimmed : trim value.toList = value.toList
  unbroken : ∀ c ∈ value.toList, isBreak c = false
  unquoted : ¬ IsQuoted value.toList

/-! ## One line -/

theorem unquote_of_not_quoted (h : ¬ IsQuoted s) : unquote s = s := by
  unfold unquote
  split
  · rename_i q c r
    refine if_neg fun hquoted => h ⟨q, (c :: r).dropLast, hquoted.1, ?_⟩
    rw [List.dropLast_append_getLast? q hquoted.2]
  · rfl

theorem unquote_ne_iff : unquote s ≠ s ↔ IsQuoted s := by
  refine ⟨not_imp_comm.1 unquote_of_not_quoted, ?_⟩
  rintro ⟨q, inner, hq, rfl⟩ hsame
  obtain ⟨c, r, hcons⟩ := List.exists_cons_of_ne_nil (List.concat_ne_nil q inner)
  have hlast : (c :: r).getLast? = some q := by rw [← hcons, List.getLast?_concat]
  rw [hcons, unquote, if_pos ⟨hq, hlast⟩] at hsame
  have hlength := congrArg List.length hsame
  simp only [List.length_dropLast, List.length_cons] at hlength
  omega

instance (s : List Char) : Decidable (IsQuoted s) := decidable_of_iff _ unquote_ne_iff

instance (s : List Char) : Decidable (∀ c ∈ s, isBreak c = false) := List.decidableBAll _ s

instance (key : String) : Decidable (IsKey key) :=
  decidable_of_iff (key.toList ≠ [] ∧ trim key.toList = key.toList ∧ '=' ∉ key.toList ∧
    (∀ c ∈ key.toList, isBreak c = false) ∧ key.toList.head? ≠ some '#')
    ⟨fun h => ⟨h.1, h.2.1, h.2.2.1, h.2.2.2.1, h.2.2.2.2⟩,
      fun h => ⟨h.1, h.2, h.3, h.4, h.5⟩⟩

instance (value : String) : Decidable (IsValue value) :=
  decidable_of_iff (trim value.toList = value.toList ∧
    (∀ c ∈ value.toList, isBreak c = false) ∧ ¬ IsQuoted value.toList)
    ⟨fun h => ⟨h.1, h.2.1, h.2.2⟩, fun h => ⟨h.1, h.2, h.3⟩⟩

theorem trim_lineOf (hkey : IsKey key) (hvalue : trim value.toList = value.toList) :
    trim (lineOf key value) = lineOf key value := by
  have hhead : (lineOf key value).head?.any isBlank = false := by
    rw [lineOf, List.head?_append_of_ne_nil _ hkey.ne_nil]
    exact head_of_trim hkey.trimmed
  rw [trim, trimStart_of_not_blank hhead, lineOf, trimEnd_append_cons (by decide),
    trimEnd_of_trim hvalue]

theorem takeWhile_append_equals {a : List Char} (ha : '=' ∉ a) (rest : List Char) :
    (a ++ '=' :: rest).takeWhile (· != '=') = a := by
  rw [List.takeWhile_append_of_pos]
  · simp
  · intro c hc
    exact bne_iff_ne.2 fun h => ha (h ▸ hc)

theorem dropWhile_append_equals {a : List Char} (ha : '=' ∉ a) (rest : List Char) :
    (a ++ '=' :: rest).dropWhile (· != '=') = '=' :: rest := by
  rw [List.dropWhile_append_of_pos]
  · simp
  · intro c hc
    exact bne_iff_ne.2 fun h => ha (h ▸ hc)

/-- The key on a line stands in front of the first equals sign. -/
theorem takeWhile_lineOf (hkey : '=' ∉ key.toList) (value : String) :
    (lineOf key value).takeWhile (· != '=') = key.toList := takeWhile_append_equals hkey _

theorem dropWhile_lineOf (hkey : '=' ∉ key.toList) (value : String) :
    (lineOf key value).dropWhile (· != '=') = '=' :: value.toList := dropWhile_append_equals hkey _

/-- A setting is read from its line. -/
theorem pair?_lineOf (hkey : IsKey key) (hvalue : IsValue value) :
    pair? (lineOf key value) = some (key, value) := by
  have hempty : (lineOf key value).isEmpty = false := by simp [lineOf]
  have hhead : ((lineOf key value).head? == some '#') = false := by
    rw [lineOf, List.head?_append_of_ne_nil _ hkey.ne_nil]
    exact beq_false_of_ne hkey.plain
  have hsplit : (lineOf key value).elem '=' = true := by simp [lineOf]
  have hkey' : key.toList.isEmpty = false := by simpa using hkey.ne_nil
  unfold pair?
  rw [trim_lineOf hkey hvalue.trimmed]
  simp only [hempty, hhead, hsplit, takeWhile_lineOf hkey.unsplit, dropWhile_lineOf hkey.unsplit,
    List.drop_succ_cons, List.drop_zero, hkey.trimmed, hvalue.trimmed, hkey',
    unquote_of_not_quoted hvalue.unquoted, String.ofList_toList, Bool.not_true, Bool.or_false,
    Bool.false_eq_true, if_false]

/-- A line is replaced where its own key is assigned. -/
theorem concerns_lineOf (hkey : '=' ∉ key.toList) (hkey' : IsKey key')
    (hvalue' : trim value'.toList = value'.toList) :
    concerns key (lineOf key' value') = true ↔ key' = key := by
  rw [concerns, trim_lineOf hkey' hvalue', List.isPrefixOf_iff_prefix]
  constructor
  · rintro ⟨rest, hrest⟩
    have hline : lineOf key' value' = lineOf key (String.ofList rest) := by
      rw [← hrest, lineOf, String.toList_ofList, List.append_assoc, List.singleton_append]
    have hkeys := congrArg (List.takeWhile (· != '=')) hline
    rw [takeWhile_lineOf hkey'.unsplit, takeWhile_lineOf hkey] at hkeys
    exact String.toList_inj.1 hkeys
  · rintro rfl
    exact ⟨value'.toList, by simp [lineOf]⟩

theorem isBreak_lineOf (hkey : IsKey key) (hvalue : ∀ c ∈ value.toList, isBreak c = false) :
    ∀ c ∈ lineOf key value, isBreak c = false := by
  intro c hc
  rcases List.mem_append.1 hc with hc | hc
  · exact hkey.unbroken c hc
  · rcases List.mem_cons.1 hc with rfl | hc
    · decide
    · exact hvalue c hc

/-! ## All lines -/

/-- Settings, each on a line of its own. -/
def render (es : List (String × String)) : List Char :=
  (es.map fun e => lineOf e.1 e.2).flatMap fun l => l ++ ['\n']

/-- Settings that stand for themselves. -/
def AreSettings (es : List (String × String)) : Prop := ∀ e ∈ es, IsKey e.1 ∧ IsValue e.2

theorem AreSettings.tail {e : String × String} (h : AreSettings (e :: es)) : AreSettings es :=
  fun e' he' => h e' (List.mem_cons_of_mem _ he')

theorem AreSettings.put (h : AreSettings es) (hkey : IsKey key) (hvalue : IsValue value) :
    AreSettings (Table.put key value es) := by
  induction es with
  | nil =>
    intro e he
    obtain rfl := List.mem_singleton.1 he
    exact ⟨hkey, hvalue⟩
  | cons e es ih =>
    intro e' he'
    rw [Table.put] at he'
    split at he'
    · rcases List.mem_cons.1 he' with rfl | he'
      · exact ⟨hkey, hvalue⟩
      · exact h.tail e' he'
    · rcases List.mem_cons.1 he' with rfl | he'
      · exact h e' (List.mem_cons_self ..)
      · exact ih h.tail e' he'

theorem lines_render (h : AreSettings es) : lines (render es) = es.map fun e => lineOf e.1 e.2 := by
  have hlines : ∀ l ∈ es.map fun e => lineOf e.1 e.2, ∀ c ∈ l, isBreak c = false := by
    intro l hl
    obtain ⟨e, he, rfl⟩ := List.mem_map.1 hl
    exact isBreak_lineOf (h e he).1 (h e he).2.unbroken
  rw [render, ← List.append_nil (List.flatMap _ _), lines_flatMap_newline hlines, lines, List.append_nil]

theorem splitOn_render (h : AreSettings es) :
    splitOn '\n' (render es) = (es.map fun e => lineOf e.1 e.2) ++ [[]] := by
  refine splitOn_flatMap fun l hl hnewline => ?_
  obtain ⟨e, he, rfl⟩ := List.mem_map.1 hl
  have := isBreak_lineOf (h e he).1 (h e he).2.unbroken _ hnewline
  contradiction

theorem return_not_mem_render (h : AreSettings es) : '\r' ∉ render es := by
  intro hmem
  obtain ⟨l, hl, hr⟩ := List.mem_flatMap.1 hmem
  obtain ⟨e, he, rfl⟩ := List.mem_map.1 hl
  rcases List.mem_append.1 hr with hr | hr
  · have := isBreak_lineOf (h e he).1 (h e he).2.unbroken _ hr
    contradiction
  · simp at hr

/-- What was written is read. -/
theorem parse_render (h : AreSettings es) : parse (render es) = Table.ofList es := by
  have hentries : (es.map fun e => lineOf e.1 e.2).filterMap pair? = es := by
    rw [List.filterMap_map]
    refine (List.filterMap_congr fun e he => ?_).trans List.filterMap_some
    exact pair?_lineOf (h e he).1 (h e he).2
  have hlast : pair? [] = none := rfl
  rw [parse, splitOn_render h, List.filterMap_append, hentries, List.filterMap_cons, hlast,
    List.filterMap_nil, List.append_nil]

/-- Where no line has a key already, it is assigned on a new line; a line that has it is replaced. -/
theorem assignLines_map (h : AreSettings es) (hnodup : (es.map Prod.fst).Nodup) (hkey : IsKey key)
    (value : String) : assignLines key value (es.map fun e => lineOf e.1 e.2) =
      (Table.put key value es).map fun e => lineOf e.1 e.2 := by
  have hconcerns : ∀ e ∈ es, concerns key (lineOf e.1 e.2) = true ↔ e.1 = key := fun e he =>
    concerns_lineOf hkey.unsplit (h e he).1 (h e he).2.trimmed
  have hany : ((es.map fun e => lineOf e.1 e.2).any (concerns key)) = true ↔
      key ∈ es.map Prod.fst := by
    rw [List.any_map, List.any_eq_true, List.mem_map]
    exact exists_congr fun e => and_congr_right fun he => hconcerns e he
  by_cases hmem : key ∈ es.map Prod.fst
  · rw [assignLines, if_pos (hany.2 hmem), Table.put_of_mem hmem hnodup, List.map_map, List.map_map]
    refine List.map_congr_left fun e he => ?_
    by_cases heq : e.1 = key
    · rw [Function.comp_apply, Function.comp_apply, if_pos ((hconcerns e he).2 heq), if_pos heq]
    · rw [Function.comp_apply, Function.comp_apply, if_neg (mt (hconcerns e he).1 heq), if_neg heq]
  · rw [assignLines, if_neg (mt hany.1 hmem), Table.put_of_not_mem hmem, List.map_append,
      List.map_singleton]

/-- A key that is assigned in a text that was written is put into the list of settings. -/
theorem assign_render (h : AreSettings es) (hnodup : (es.map Prod.fst).Nodup) (hkey : IsKey key)
    (value : String) : assign key value (render es) = render (Table.put key value es) := by
  have hne : Table.put key value es ≠ [] := by
    intro hnil
    have hmem : key ∈ (Table.put key value es).map Prod.fst := Table.mem_keys_put.2 (.inl rfl)
    simp [hnil] at hmem
  rw [assign, lines_render h, assignLines_map h hnodup hkey, joinWith_newline (by simpa using hne),
    render]

/-! ## Any text -/

/-- The settings on some lines. -/
def settingsOn (ls : List (List Char)) : Table String String := Table.ofList (ls.filterMap pair?)

theorem settingsOn_concat_of_none {l : List Char} (h : pair? l = none) (ls : List (List Char)) :
    settingsOn (ls ++ [l]) = settingsOn ls := by
  rw [settingsOn, List.filterMap_append, List.filterMap_cons, h, List.filterMap_nil, List.append_nil,
    settingsOn]

theorem settingsOn_concat {l : List Char} (h : pair? l = some (key, value))
    (ls : List (List Char)) : settingsOn (ls ++ [l]) = (settingsOn ls).insert key value := by
  rw [settingsOn, List.filterMap_append, List.filterMap_cons, h, List.filterMap_nil,
    Table.ofList_concat, settingsOn]

/-- The last line of a key is one of those that are replaced, or it names what it named. -/
theorem get?_settingsOn_map (hkey : IsKey key) (hvalue : IsValue value) (ls : List (List Char)) :
    (settingsOn (ls.map fun l => if concerns key l then lineOf key value else l)).get? key =
        some value ∨
      (settingsOn (ls.map fun l => if concerns key l then lineOf key value else l)).get? key =
        (settingsOn ls).get? key := by
  induction ls using List.reverseRecOn with
  | nil => exact .inr rfl
  | append_singleton ls l ih =>
    rw [List.map_append, List.map_singleton]
    by_cases hl : concerns key l
    · rw [if_pos hl, settingsOn_concat (pair?_lineOf hkey hvalue)]
      exact .inl (Table.get?_insert_self ..)
    · rw [if_neg hl]
      cases he : pair? l with
      | none => rwa [settingsOn_concat_of_none he, settingsOn_concat_of_none he]
      | some e =>
        obtain ⟨key', value'⟩ := e
        rw [settingsOn_concat he, settingsOn_concat he, Table.get?_insert, Table.get?_insert]
        split
        · exact .inr rfl
        · exact ih

theorem get?_settingsOn_assignLines (hkey : IsKey key) (hvalue : IsValue value)
    (ls : List (List Char)) : (settingsOn (assignLines key value ls)).get? key = some value ∨
      (settingsOn (assignLines key value ls)).get? key = (settingsOn ls).get? key := by
  unfold assignLines
  split
  · exact get?_settingsOn_map hkey hvalue ls
  · rw [settingsOn_concat (pair?_lineOf hkey hvalue)]
    exact .inl (Table.get?_insert_self ..)

theorem isBreak_assignLines (hkey : IsKey key) (hvalue : ∀ c ∈ value.toList, isBreak c = false)
    {text l : List Char} (hl : l ∈ assignLines key value (lines text)) :
    ∀ c ∈ l, isBreak c = false := by
  have hline : ∀ l ∈ lines text, ∀ c ∈ l, isBreak c = false := fun l hl => (exists_of_mem_lines hl).1
  unfold assignLines at hl
  split at hl
  · obtain ⟨l', hl', rfl⟩ := List.mem_map.1 hl
    split
    · exact isBreak_lineOf hkey hvalue
    · exact hline l' hl'
  · rcases List.mem_append.1 hl with hl | hl
    · exact hline l hl
    · rw [List.mem_singleton.1 hl]
      exact isBreak_lineOf hkey hvalue

theorem assign_eq_flatMap (key value : String) (text : List Char) : assign key value text =
    (assignLines key value (lines text)).flatMap fun l => l ++ ['\n'] := by
  refine joinWith_newline ?_
  unfold assignLines
  split
  · rename_i hany
    intro hnil
    rw [List.map_eq_nil_iff.1 hnil] at hany
    cases hany
  · simp

theorem return_not_mem_assign (hkey : IsKey key) (hvalue : ∀ c ∈ value.toList, isBreak c = false)
    (text : List Char) : '\r' ∉ assign key value text := by
  rw [assign_eq_flatMap]
  intro hmem
  obtain ⟨l, hl, hr⟩ := List.mem_flatMap.1 hmem
  rcases List.mem_append.1 hr with hr | hr
  · have := isBreak_assignLines hkey hvalue hl _ hr
    contradiction
  · simp at hr

/-- The settings of a text in which a key was assigned are those on the lines that this leaves. -/
theorem parse_assign (hkey : IsKey key) (hvalue : ∀ c ∈ value.toList, isBreak c = false)
    (text : List Char) :
    parse (assign key value text) = settingsOn (assignLines key value (lines text)) := by
  have hnewline : ∀ l ∈ assignLines key value (lines text), '\n' ∉ l := fun l hl hmem => by
    have := isBreak_assignLines hkey hvalue hl _ hmem
    contradiction
  rw [parse, assign_eq_flatMap, splitOn_flatMap hnewline]
  exact settingsOn_concat_of_none rfl _

/-- A key that was assigned has its value, or the value that it has where every separator ends a
line. -/
theorem get?_parse_assign (hkey : IsKey key) (hvalue : IsValue value) (text : List Char) :
    (parse (assign key value text)).get? key = some value ∨
      (parse (assign key value text)).get? key =
        (parse (joinWith ['\n'] (lines text))).get? key := by
  have hjoined : parse (joinWith ['\n'] (lines text)) = settingsOn (lines text) := by
    have hnewline : ∀ l ∈ lines text, '\n' ∉ l := fun l hl hmem => by
      have := (exists_of_mem_lines hl).1 _ hmem
      contradiction
    by_cases hnil : lines text = []
    · rw [hnil]
      rfl
    · rw [parse, splitOn_joinWith hnil hnewline, settingsOn]
  rw [parse_assign hkey hvalue.unbroken, hjoined]
  exact get?_settingsOn_assignLines hkey hvalue _

end Decompilation.EnvFile
