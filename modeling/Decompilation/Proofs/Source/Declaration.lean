import Mathlib.Data.List.Sort
import Decompilation.Proofs.Source.Word

/-!
# The grammar of declarations

`Head` is the head of a namespace declaration taken apart. `declaration?` reads exactly the heads
(`declaration?_eq_some_iff`), and no head starts inside a head (`Head.append_eq_text`): the word
`namespace` does not overlap itself, and a name that is this word has no other name behind it.
-/

namespace Decompilation.Source

open Text

/-! ## Heads -/

/-- The head of a namespace declaration behind the word `namespace`: blanks, a name that runs as far
as names go, perhaps more blanks, and the delimiter of the form. -/
structure Head where
  gap : List Char
  name : List Char
  pad : List Char
  form : Form
  gap_ne_nil : gap ≠ []
  gap_blank : ∀ c ∈ gap, isBlank c = true
  name_start : name.head?.any isNameStart = true
  name_qualified : ∀ c ∈ name, isQualified c = true
  name_longest : (pad ++ [form.delimiter]).head?.any isQualified = false
  pad_blank : ∀ c ∈ pad, isBlank c = true

namespace Head

/-- A head behind the word `namespace`. -/
def tail (h : Head) : List Char := h.gap ++ (h.name ++ (h.pad ++ [h.form.delimiter]))

/-- A head. -/
def text (h : Head) : List Char := namespaceWord ++ h.tail

/-- The declaration with a head at an offset. -/
def token (h : Head) (offset : Nat) : Token := ⟨offset, String.ofList h.name, h.form⟩

end Head

theorem delimiter_ofDelimiter? {c : Char} {form : Form} (h : Form.ofDelimiter? c = some form) :
    form.delimiter = c := by
  unfold Form.ofDelimiter? at h
  split at h
  · cases h; simp [Form.delimiter, *]
  · split at h
    · cases h; simp [Form.delimiter, *]
    · simp at h

@[simp] theorem ofDelimiter?_delimiter (form : Form) :
    Form.ofDelimiter? form.delimiter = some form := by
  cases form <;> rfl

theorem isQualified_delimiter (form : Form) : isQualified form.delimiter = false := by
  cases form <;> rfl

theorem isBlank_delimiter (form : Form) : isBlank form.delimiter = false := by
  cases form <;> rfl

theorem isNameStart_delimiter (form : Form) : isNameStart form.delimiter = false := by
  cases form <;> rfl

/-- A name is never followed by one of its own characters: blanks and delimiters are none. -/
theorem longest_of_blank {pad : List Char} (form : Form) (hpad : ∀ c ∈ pad, isBlank c = true) :
    (pad ++ [form.delimiter]).head?.any isQualified = false := by
  cases pad with
  | nil => exact isQualified_delimiter form
  | cons c pad => exact not_isQualified_of_isBlank (hpad c (by simp))

namespace Head

theorem gap_head? (h : Head) : ∃ c r, h.gap = c :: r ∧ isBlank c = true := by
  obtain ⟨c, r, hgap⟩ := List.exists_cons_of_ne_nil h.gap_ne_nil
  exact ⟨c, r, hgap, h.gap_blank c (by simp [hgap])⟩

theorem name_head? (h : Head) : ∃ c r, h.name = c :: r ∧ isNameStart c = true := by
  have hs := h.name_start
  cases hname : h.name with
  | nil => simp [hname] at hs
  | cons c r => exact ⟨c, r, rfl, by simpa [hname] using hs⟩

theorem tail_head? (h : Head) (rest : List Char) :
    (h.tail ++ rest).head?.any isWord = false := by
  rw [tail, List.append_assoc]
  exact not_isWord_of_blanks h.gap_ne_nil h.gap_blank _

end Head

theorem exists_head_of_declaration? {s name rest : List Char} {form : Form}
    (h : declaration? s = some (name, form, rest)) :
    ∃ h : Head, h.name = name ∧ h.form = form ∧ s = h.tail ++ rest := by
  simp only [declaration?, Option.bind_eq_bind, Option.bind_eq_some_iff] at h
  obtain ⟨t, hblanks, h⟩ := h
  obtain ⟨gap, hne, hgap, rfl, -⟩ := behindBlanks?_eq_some_iff.1 hblanks
  split at h
  case isFalse => simp at h
  rename_i hstart
  split at h
  case h_1 => simp at h
  rename_i c r hr
  simp only [Option.map_eq_some_iff, Prod.mk.injEq] at h
  obtain ⟨f, hf, rfl, rfl, rfl⟩ := h
  have hname : t = t.takeWhile isQualified ++ t.dropWhile isQualified :=
    List.takeWhile_append_dropWhile.symm
  have hpad : t.dropWhile isQualified = (t.dropWhile isQualified).takeWhile isBlank ++ c :: r := by
    rw [← hr, trimStart, List.takeWhile_append_dropWhile]
  have hblanks : ∀ c ∈ (t.dropWhile isQualified).takeWhile isBlank, isBlank c = true :=
    fun c => of_mem_takeWhile
  have hfirst : (t.takeWhile isQualified).head?.any isNameStart = true :=
    any_head?_takeWhile (fun _ hc => isQualified_of_isWord (isWord_of_isNameStart hc)) hstart
  refine ⟨⟨gap, t.takeWhile isQualified, (t.dropWhile isQualified).takeWhile isBlank, f, hne, hgap,
    hfirst, fun c => of_mem_takeWhile, longest_of_blank f hblanks, hblanks⟩, rfl, rfl, ?_⟩
  simp only [Head.tail, delimiter_ofDelimiter? hf, List.append_assoc, List.cons_append, List.nil_append]
  rw [← hpad, ← hname]

theorem declaration?_tail_append (h : Head) (rest : List Char) :
    declaration? (h.tail ++ rest) = some (h.name, h.form, rest) := by
  obtain ⟨n, q, hname, hn⟩ := h.name_head?
  set behind := h.pad ++ h.form.delimiter :: rest with hbehind
  have htail : h.tail ++ rest = h.gap ++ (h.name ++ behind) := by simp [Head.tail, hbehind]
  have hstart : (h.name ++ behind).head?.any isNameStart = true := by simp [hname, hn]
  have hblanks : behindBlanks? (h.gap ++ (h.name ++ behind)) = some (h.name ++ behind) :=
    behindBlanks?_eq_some_iff.2 ⟨h.gap, h.gap_ne_nil, h.gap_blank, rfl,
      by simp [hname, isBlank_of_isNameStart hn]⟩
  have hlongest : behind.head?.any isQualified = false := by
    have := h.name_longest
    rw [hbehind]
    cases hp : h.pad <;> simp_all
  have hpad : trimStart behind = h.form.delimiter :: rest :=
    (takeWhile_append_run h.pad_blank (by simp [isBlank_delimiter])).2
  obtain ⟨hrun, hrest⟩ := takeWhile_append_run h.name_qualified hlongest
  simp only [htail, declaration?, hblanks, if_true, Option.bind_eq_bind, Option.bind_some, hstart, hrun,
    hrest, hpad, ofDelimiter?_delimiter, Option.map_some]

theorem declaration?_eq_some_iff {s name rest : List Char} {form : Form} :
    declaration? s = some (name, form, rest) ↔
      ∃ h : Head, h.name = name ∧ h.form = form ∧ s = h.tail ++ rest := by
  constructor
  · exact exists_head_of_declaration?
  · rintro ⟨h, rfl, rfl, rfl⟩
    exact declaration?_tail_append h rest

/-! ## No head starts inside a head -/

/-- Where nothing looks like the start of the word, the word does not start. -/
theorem append_eq_of_not_mem {a b x y : List Char} (ha : 'n' ∉ a)
    (h : x ++ (namespaceWord ++ y) = a ++ b) :
    ∃ x', x = a ++ x' ∧ x' ++ (namespaceWord ++ y) = b := by
  rcases List.append_eq_append_iff.1 h with ⟨v, rfl, hv⟩ | ⟨x', rfl, hx⟩
  · cases v with
    | nil => exact ⟨[], by simp, by simpa using hv⟩
    | cons c v =>
      obtain rfl : 'n' = c := by simpa [namespaceWord] using congrArg List.head? hv
      simp at ha
  · exact ⟨x', rfl, hx.symm⟩

/-- The word does not overlap itself. -/
theorem append_namespaceWord_eq {x y rest : List Char} (hx : x ≠ [])
    (h : x ++ (namespaceWord ++ y) = namespaceWord ++ rest) :
    ∃ x', x = namespaceWord ++ x' ∧ x' ++ (namespaceWord ++ y) = rest := by
  obtain ⟨c, x, rfl⟩ := List.exists_cons_of_ne_nil hx
  have h' : c = 'n' ∧ x ++ (namespaceWord ++ y) = namespaceWord.tail ++ rest := by
    simpa [namespaceWord] using h
  obtain ⟨x', rfl, hrest⟩ := append_eq_of_not_mem (by decide) h'.2
  exact ⟨x', by simp [namespaceWord, h'.1], hrest⟩

namespace Head

/-- A name is no head's first word: behind the name stands no other name. -/
theorem not_prefix_name (h h' : Head) {v rest rest' : List Char} (hv : ∀ c ∈ v, isQualified c = true) :
    namespaceWord ++ (h'.tail ++ rest') ≠ v ++ (h.pad ++ h.form.delimiter :: rest) := by
  intro heq
  obtain ⟨g, r, hgap, hg⟩ := h'.gap_head?
  obtain ⟨n, q, hname, hn⟩ := h'.name_head?
  have hbehind : (h.pad ++ h.form.delimiter :: rest).head?.any isQualified = false := by
    have := h.name_longest
    cases hp : h.pad <;> simp_all
  obtain ⟨hrun, hrest⟩ := takeWhile_append_run hv hbehind
  have hword : ∀ c ∈ namespaceWord, isQualified c = true := List.all_eq_true.1 rfl
  have hbehind' : (h'.tail ++ rest').head?.any isQualified = false := by
    simp [tail, hgap, not_isQualified_of_isBlank hg]
  obtain ⟨-, hrest'⟩ := takeWhile_append_run hword hbehind'
  rw [heq, hrest] at hrest'
  -- both sides start with blanks; behind them stands a delimiter on one, a name on the other
  have hleft : trimStart (h.pad ++ h.form.delimiter :: rest) = h.form.delimiter :: rest :=
    (takeWhile_append_run h.pad_blank (by simp [isBlank_delimiter])).2
  have hright : trimStart (h'.tail ++ rest') = h'.name ++ (h'.pad ++ h'.form.delimiter :: rest') := by
    have hstart : (h'.name ++ (h'.pad ++ h'.form.delimiter :: rest')).head?.any isBlank = false := by
      simp [hname, isBlank_of_isNameStart hn]
    have := (takeWhile_append_run h'.gap_blank hstart).2
    simpa [tail, trimStart] using this
  rw [hrest', hright, hname] at hleft
  obtain rfl : n = h.form.delimiter := by simpa using congrArg List.head? hleft
  simp [isNameStart_delimiter] at hn

/-- No head starts inside a head. -/
theorem append_eq_text (h h' : Head) {x rest rest' : List Char} (hx : x ≠ [])
    (heq : x ++ (namespaceWord ++ (h'.tail ++ rest')) = h.text ++ rest) :
    ∃ x', x = h.text ++ x' ∧ x' ++ (namespaceWord ++ (h'.tail ++ rest')) = rest := by
  have hblanks : 'n' ∉ h.gap := fun hm => absurd (h.gap_blank _ hm) (by decide)
  have hend : 'n' ∉ h.pad ++ [h.form.delimiter] := by
    intro hm
    rcases List.mem_append.1 hm with hm | hm
    · exact absurd (h.pad_blank _ hm) (by decide)
    · cases hf : h.form <;> simp [hf, Form.delimiter] at hm
  rw [text, List.append_assoc] at heq
  obtain ⟨x₁, rfl, h₁⟩ := append_namespaceWord_eq hx heq
  obtain ⟨x₂, rfl, h₂⟩ := append_eq_of_not_mem hblanks
    (show x₁ ++ (namespaceWord ++ (h'.tail ++ rest')) =
        h.gap ++ (h.name ++ (h.pad ++ h.form.delimiter :: rest)) by
      simpa [tail] using h₁)
  rcases List.append_eq_append_iff.1 h₂ with ⟨v, hv, hbad⟩ | ⟨x₃, rfl, h₃⟩
  · exact absurd hbad (not_prefix_name h h' fun c hc => h.name_qualified c (by simp [hv, hc]))
  · obtain ⟨x₄, rfl, h₄⟩ := append_eq_of_not_mem hend
      (show x₃ ++ (namespaceWord ++ (h'.tail ++ rest')) = h.pad ++ [h.form.delimiter] ++ rest by
        simpa using h₃.symm)
    exact ⟨x₄, by simp [text, tail], h₄⟩

end Head

end Decompilation.Source
