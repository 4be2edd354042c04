import Mathlib.Data.List.Infix
import Decompilation.Proofs.Source.Word
import Decompilation.Proofs.Text.Search
import Decompilation.Source.TypeDeclaration

/-!
# The grammar of type declarations

`TypeHead` is the head of a type declaration taken apart, up to the name that it gives, and `Starts`
says that a text starts with it. `typeHead?` reads exactly these heads (`typeHead?_eq_some_iff`), each
to the end of its list of type parameters (`typeHead_follows_grammar`). Where a word or a run of blanks
ends is never a choice, for no word character is a blank; the one choice is whether `class` or `struct`
behind `record` is the name.
-/

namespace Decompilation.Source

open Text

variable {s t rest tail : List Char} {words : List String} {name kind : String}

/-! ## Words with blanks behind them -/

/-- One of some words, with blanks behind it. -/
structure Spaced (words : List String) where
  word : String
  gap : List Char
  known : word ∈ words
  gap_ne_nil : gap ≠ []
  gap_blank : ∀ c ∈ gap, isBlank c = true

/-- What may stand between `record` and the name of a type. -/
def variantWords : List String := ["class", "struct"]

/-- Some words are made of word characters, and none of them is empty. -/
def AreWords (words : List String) : Prop :=
  ∀ w ∈ words, w.toList.head?.any isWord = true ∧ w.toList.all isWord = true

instance : Decidable (AreWords words) := inferInstanceAs (Decidable (∀ w ∈ words, _ ∧ _))

theorem areWords_modifierWords : AreWords modifierWords := by decide

theorem areWords_kindWords : AreWords kindWords := by decide

theorem areWords_variantWords : AreWords variantWords := by decide

theorem AreWords.isWord_of_mem (h : AreWords words) {w : String} (hw : w ∈ words) :
    ∀ c ∈ w.toList, isWord c = true :=
  List.all_eq_true.1 (h w hw).2

namespace Spaced

def text (w : Spaced words) : List Char := w.word.toList ++ w.gap

theorem head_text (hwords : AreWords words) (w : Spaced words) (t : List Char) :
    (w.text ++ t).head?.any isWord = true := by
  have hword := (hwords w.word w.known).1
  exact any_head?_append (any_head?_append hword w.gap) t

theorem cut_text (hwords : AreWords words) (w : Spaced words) (t : List Char) :
    (w.text ++ t).takeWhile isWord = w.word.toList ∧ (w.text ++ t).dropWhile isWord = w.gap ++ t := by
  have hgap := not_isWord_of_blanks w.gap_ne_nil w.gap_blank t
  rw [text, List.append_assoc]
  exact takeWhile_append_run (hwords.isWord_of_mem w.known) hgap

theorem behindBlanks?_gap (w : Spaced words) (ht : t.head?.any isBlank = false) :
    behindBlanks? (w.gap ++ t) = some t :=
  behindBlanks?_eq_some_iff.2 ⟨w.gap, w.gap_ne_nil, w.gap_blank, rfl, ht⟩

/-- The first word of a text and the blanks that are skipped behind it. -/
theorem exists_of_behindBlanks? (hknown : String.ofList (s.takeWhile isWord) ∈ words)
    (h : behindBlanks? (s.dropWhile isWord) = some rest) :
    ∃ w : Spaced words, s = w.text ++ rest ∧ rest.head?.any isBlank = false := by
  obtain ⟨gap, hne, hgap, hrest, hhead⟩ := behindBlanks?_eq_some_iff.1 h
  refine ⟨⟨String.ofList (s.takeWhile isWord), gap, hknown, hne, hgap⟩, ?_, hhead⟩
  rw [text, String.toList_ofList, List.append_assoc, ← hrest, List.takeWhile_append_dropWhile]

theorem exists_prefix_iff (hwords : AreWords words) : (∃ w : Spaced words, w.text <+: s) ↔
    String.ofList (s.takeWhile isWord) ∈ words ∧ (s.dropWhile isWord).head?.any isBlank = true := by
  constructor
  · rintro ⟨w, t, rfl⟩
    obtain ⟨hrun, hbehind⟩ := w.cut_text hwords t
    rw [hrun, hbehind, String.ofList_toList]
    exact ⟨w.known, any_head?_run w.gap_ne_nil w.gap_blank t⟩
  · rintro ⟨hknown, hblank⟩
    obtain ⟨w, hs, -⟩ := exists_of_behindBlanks? hknown (if_pos hblank)
    exact ⟨w, _, hs.symm⟩

end Spaced

/-! ## Modifiers and kinds -/

theorem typeKind?_of_kind (hkind : kind ∈ kindWords) (ht : t.head?.any isWord = false) :
    typeKind? (kind.toList ++ t) = some (kind, t) := by
  obtain ⟨hrun, hbehind⟩ := takeWhile_append_run (areWords_kindWords.isWord_of_mem hkind) ht
  have hknown : kindWords.contains kind = true := List.contains_iff_mem.2 hkind
  rw [typeKind?, hrun, hbehind, String.ofList_toList, if_pos hknown]

theorem typeKind?_of_modifier (m : Spaced modifierWords) (ht : t.head?.any isBlank = false) :
    typeKind? (m.text ++ t) = typeKind? t := by
  obtain ⟨hrun, hbehind⟩ := m.cut_text areWords_modifierWords t
  have hapart : ∀ w ∈ modifierWords, ¬ kindWords.contains w = true := by decide
  have hknown : modifierWords.contains m.word = true := List.contains_iff_mem.2 m.known
  have hblanks := m.behindBlanks?_gap ht
  rw [typeKind?, hrun, hbehind, String.ofList_toList, if_neg (hapart m.word m.known), if_pos hknown]
  split
  · rename_i next hnext
    rw [Option.some.inj (hnext.symm.trans hblanks)]
  · rename_i hnone
    cases hnone.symm.trans hblanks

theorem head_modifiers (modifiers : List (Spaced modifierWords)) (hkind : kind ∈ kindWords)
    (t : List Char) :
    (modifiers.flatMap Spaced.text ++ (kind.toList ++ t)).head?.any isWord = true := by
  cases modifiers with
  | nil => exact any_head?_append (areWords_kindWords kind hkind).1 t
  | cons m modifiers =>
    rw [List.flatMap_cons, List.append_assoc]
    exact m.head_text areWords_modifierWords _

theorem typeKind?_of_modifiers (modifiers : List (Spaced modifierWords)) (hkind : kind ∈ kindWords)
    (ht : t.head?.any isWord = false) :
    typeKind? (modifiers.flatMap Spaced.text ++ (kind.toList ++ t)) = some (kind, t) := by
  induction modifiers with
  | nil => exact typeKind?_of_kind hkind ht
  | cons m modifiers ih =>
    have hhead := not_isBlank_of_isWord (head_modifiers modifiers hkind t)
    rw [List.flatMap_cons, List.append_assoc, typeKind?_of_modifier m hhead, ih]

theorem exists_modifiers_of_typeKind? (h : typeKind? s = some (kind, rest)) :
    ∃ modifiers : List (Spaced modifierWords), kind ∈ kindWords ∧
      s = modifiers.flatMap Spaced.text ++ (kind.toList ++ rest) := by
  induction s using typeKind?.induct with
  | case1 s word hkind =>
    rw [typeKind?, if_pos hkind] at h
    obtain ⟨rfl, rfl⟩ := Prod.mk.inj (Option.some.inj h)
    refine ⟨[], List.contains_iff_mem.1 hkind, ?_⟩
    rw [String.toList_ofList, List.takeWhile_append_dropWhile]
    rfl
  | case2 s word behind hkind hmodifier next hnext ih =>
    have hsame : typeKind? s = typeKind? next := by
      rw [typeKind?, if_neg hkind, if_pos hmodifier]
      split
      · rename_i next' hnext'
        rw [Option.some.inj (hnext'.symm.trans hnext)]
      · rename_i hnone
        cases hnone.symm.trans hnext
    obtain ⟨modifiers, hknown, rfl⟩ := ih (hsame ▸ h)
    obtain ⟨m, hs, -⟩ := Spaced.exists_of_behindBlanks? (List.contains_iff_mem.1 hmodifier) hnext
    refine ⟨m :: modifiers, hknown, ?_⟩
    rw [hs, List.flatMap_cons, List.append_assoc]
  | case3 s word behind hkind hmodifier hnone =>
    rw [typeKind?, if_neg hkind, if_pos hmodifier] at h
    split at h
    · rename_i next hnext
      cases hnone.symm.trans hnext
    · cases h
  | case4 s word hkind hmodifier =>
    rw [typeKind?, if_neg hkind, if_neg hmodifier] at h
    cases h

/-! ## Records -/

theorem behindRecordKind_of_variant (v : Spaced variantWords) (ht : t.head?.any isBlank = false) :
    behindRecordKind (v.text ++ t) = t := by
  obtain ⟨hrun, hbehind⟩ := v.cut_text areWords_variantWords t
  have hknown : v.word = "class" ∨ v.word = "struct" := by simpa [variantWords] using v.known
  rw [behindRecordKind, hrun, hbehind, String.ofList_toList, if_pos hknown, v.behindBlanks?_gap ht,
    Option.getD_some]

theorem behindRecordKind_of_not (h : ¬ ∃ v : Spaced variantWords, v.text <+: s) :
    behindRecordKind s = s := by
  rw [Spaced.exists_prefix_iff areWords_variantWords] at h
  unfold behindRecordKind
  dsimp only
  split
  · rename_i hknown
    have hblank : ¬ (s.dropWhile isWord).head?.any isBlank = true := fun hblank =>
      h ⟨by simpa [variantWords] using hknown, hblank⟩
    rw [behindBlanks?, if_neg hblank, Option.getD_none]
  · rfl

/-- What is skipped behind `record` is one of the two words with blanks behind it, wherever one stands. -/
theorem exists_variant (s : List Char) : ∃ variant : Option (Spaced variantWords),
    s = variant.elim [] Spaced.text ++ behindRecordKind s ∧
      (variant.isSome = true ↔ ∃ v : Spaced variantWords, v.text <+: s) := by
  by_cases h : ∃ v : Spaced variantWords, v.text <+: s
  · obtain ⟨hknown, hblank⟩ := (Spaced.exists_prefix_iff areWords_variantWords).1 h
    obtain ⟨v, hs, hrest⟩ := Spaced.exists_of_behindBlanks? hknown (if_pos hblank)
    have hread : behindRecordKind s = _ :=
      (congrArg behindRecordKind hs).trans (behindRecordKind_of_variant v hrest)
    exact ⟨some v, by rwa [hread], by simpa using h⟩
  · refine ⟨none, ?_, by simpa using h⟩
    rw [behindRecordKind_of_not h]
    rfl

/-! ## Heads -/

/-- The head of a type declaration up to its name: blanks, modifiers, the kind of type, perhaps one more
word of the kind, and the name, with blanks behind each word but the name. -/
structure TypeHead where
  pad : List Char
  modifiers : List (Spaced modifierWords)
  kind : Spaced kindWords
  variant : Option (Spaced variantWords)
  name : List Char
  pad_blank : ∀ c ∈ pad, isBlank c = true
  name_start : name.head?.any isNameStart = true
  name_word : ∀ c ∈ name, isWord c = true

namespace TypeHead

/-- What stands behind the first word of the kind. -/
def behindKind (h : TypeHead) : List Char := h.variant.elim [] Spaced.text ++ h.name

/-- The head without the blanks in front of it. -/
def text (h : TypeHead) : List Char :=
  h.modifiers.flatMap Spaced.text ++ (h.kind.text ++ h.behindKind)

/-- A text starts with the head and goes on with `tail`. The name is as long as it can be, and another
word of the kind is read exactly where `record` has one of them and blanks behind it. -/
structure Starts (h : TypeHead) (s tail : List Char) : Prop where
  eq : s = h.pad ++ (h.text ++ tail)
  longest : tail.head?.any isWord = false
  variant_iff : h.variant.isSome = true ↔
    h.kind.word = "record" ∧ ∃ v : Spaced variantWords, v.text <+: h.behindKind ++ tail

theorem head_name (h : TypeHead) : h.name.head?.any isWord = true := by
  have hstart := h.name_start
  cases hname : h.name with
  | nil =>
    rw [hname] at hstart
    cases hstart
  | cons c r => exact h.name_word c (by simp [hname])

theorem head_behindKind (h : TypeHead) : h.behindKind.head?.any isWord = true := by
  cases hvariant : h.variant with
  | none => simpa [behindKind, hvariant] using h.head_name
  | some v => simpa [behindKind, hvariant] using v.head_text areWords_variantWords h.name

theorem text_append (h : TypeHead) (tail : List Char) : h.text ++ tail =
    h.modifiers.flatMap Spaced.text ++ (h.kind.word.toList ++ (h.kind.gap ++ (h.behindKind ++ tail))) := by
  simp [text, Spaced.text]

theorem head_text (h : TypeHead) : h.text.head?.any isWord = true := by
  rw [← List.append_nil h.text, text_append]
  exact head_modifiers h.modifiers h.kind.known _

/-- A head ends with the last character of its name. -/
theorem exists_last (h : TypeHead) : ∃ front c, h.text = front ++ [c] ∧ isBlank c = false := by
  obtain hnil | ⟨front, c, hname⟩ := List.eq_nil_or_concat' h.name
  · have hhead := h.head_name
    rw [hnil] at hhead
    cases hhead
  · refine ⟨_, c, by rw [text, behindKind, hname, ← List.append_assoc, ← List.append_assoc,
      ← List.append_assoc], ?_⟩
    rw [Bool.eq_false_iff]
    intro hblank
    have hword := h.name_word c (by simp [hname])
    simp [not_isWord_of_isBlank hblank] at hword

/-- The head without the blanks in front of it, as a head. -/
def bare (h : TypeHead) : TypeHead := { h with pad := [], pad_blank := List.forall_mem_nil _ }

variable {h : TypeHead}

/-- A text starts with the head whatever is behind it, as long as that goes on neither with the name nor,
unless it did so before, with a blank. -/
theorem Starts.behind (hs : h.Starts s tail) (ht : t.head?.any isWord = false)
    (hblank : t.head?.any isBlank = true → tail.head?.any isBlank = true) :
    h.bare.Starts (h.text ++ t) t := by
  refine ⟨rfl, ht, ?_⟩
  have hvariant := hs.variant_iff
  change h.variant.isSome = true ↔
    h.kind.word = "record" ∧ ∃ v : Spaced variantWords, v.text <+: h.behindKind ++ t
  rw [behindKind] at hvariant ⊢
  cases hv : h.variant with
  | some v =>
    rw [hv] at hvariant
    refine ⟨fun _ => ⟨(hvariant.1 rfl).1, v, ?_⟩, fun _ => rfl⟩
    rw [List.append_assoc]
    exact List.prefix_append _ _
  | none =>
    -- the name would be the word, and a blank behind it now was one before
    obtain ⟨hrun, hbehind⟩ := takeWhile_append_run h.name_word hs.longest
    obtain ⟨hrun', hbehind'⟩ := takeWhile_append_run h.name_word ht
    rw [hv, Option.elim_none, List.nil_append, Spaced.exists_prefix_iff areWords_variantWords, hrun,
      hbehind] at hvariant
    rw [Option.elim_none, List.nil_append, Spaced.exists_prefix_iff areWords_variantWords, hrun',
      hbehind']
    constructor
    · intro hnone
      cases hnone
    · rintro ⟨hrecord, hknown, hblank'⟩
      exact hvariant.2 ⟨hrecord, hknown, hblank hblank'⟩

/-- What is skipped behind the kind leads up to the name. -/
theorem Starts.behindVariant (hs : h.Starts s tail) :
    (if h.kind.word = "record" then behindRecordKind (h.behindKind ++ tail) else h.behindKind ++ tail) =
      h.name ++ tail := by
  have hname := not_isBlank_of_isWord (any_head?_append h.head_name tail)
  have hvariant := hs.variant_iff
  cases hv : h.variant with
  | some v =>
    rw [hv] at hvariant
    rw [if_pos (hvariant.1 rfl).1, behindKind, hv, List.append_assoc]
    exact behindRecordKind_of_variant v hname
  | none =>
    rw [behindKind, hv, Option.elim_none, List.nil_append] at hvariant ⊢
    split
    · rename_i hrecord
      refine behindRecordKind_of_not fun hread => ?_
      cases hvariant.2 ⟨hrecord, hread⟩
    · rfl

theorem Starts.typeHead?_eq (hs : h.Starts s tail) :
    typeHead? s = some (String.ofList h.name, behindParameters tail) := by
  have htrim : trimStart s = h.text ++ tail := by
    rw [hs.eq]
    exact (takeWhile_append_run h.pad_blank (not_isBlank_of_isWord (any_head?_append h.head_text tail))).2
  have hkind : typeKind? (h.text ++ tail) =
      some (h.kind.word, h.kind.gap ++ (h.behindKind ++ tail)) := by
    rw [text_append]
    exact typeKind?_of_modifiers h.modifiers h.kind.known
      (not_isWord_of_blanks h.kind.gap_ne_nil h.kind.gap_blank _)
  have hblanks : behindBlanks? (h.kind.gap ++ (h.behindKind ++ tail)) = some (h.behindKind ++ tail) :=
    h.kind.behindBlanks?_gap (not_isBlank_of_isWord (any_head?_append h.head_behindKind tail))
  have hstart : (h.name ++ tail).head?.any isNameStart = true := any_head?_append h.name_start tail
  obtain ⟨hrun, hrest⟩ := takeWhile_append_run h.name_word hs.longest
  simp only [typeHead?, htrim, hkind, Option.bind_eq_bind, Option.bind_some, hblanks, hs.behindVariant,
    hstart, if_true, hrun, hrest]

end TypeHead

theorem exists_starts_of_typeHead? (h : typeHead? s = some (name, rest)) :
    ∃ (head : TypeHead) (tail : List Char), head.Starts s tail ∧ String.ofList head.name = name ∧
      behindParameters tail = rest := by
  simp only [typeHead?, Option.bind_eq_bind, Option.bind_eq_some_iff] at h
  obtain ⟨⟨kind, behind⟩, hkind, s₂, hblanks, h⟩ := h
  obtain ⟨modifiers, hknown, hmodifiers⟩ := exists_modifiers_of_typeKind? hkind
  obtain ⟨gap, hne, hgap, rfl, -⟩ := behindBlanks?_eq_some_iff.1 hblanks
  obtain ⟨variant, hcut, hvariant⟩ : ∃ variant : Option (Spaced variantWords),
      s₂ = variant.elim [] Spaced.text ++ (if kind = "record" then behindRecordKind s₂ else s₂) ∧
        (variant.isSome = true ↔ kind = "record" ∧ ∃ v : Spaced variantWords, v.text <+: s₂) := by
    by_cases hrecord : kind = "record"
    · simpa [hrecord] using exists_variant s₂
    · exact ⟨none, by simp [hrecord], by simp [hrecord]⟩
  generalize (if kind = "record" then behindRecordKind s₂ else s₂) = s₃ at h hcut
  split at h
  case isFalse => cases h
  rename_i hstart
  obtain ⟨rfl, rfl⟩ := Prod.mk.inj (Option.some.inj h)
  have hname : (s₃.takeWhile isWord).head?.any isNameStart = true :=
    any_head?_takeWhile (fun _ => isWord_of_isNameStart) hstart
  let head : TypeHead := ⟨s.takeWhile isBlank, modifiers, ⟨kind, gap, hknown, hne, hgap⟩, variant,
    s₃.takeWhile isWord, fun c => of_mem_takeWhile, hname, fun c => of_mem_takeWhile⟩
  have hbehind : head.behindKind ++ s₃.dropWhile isWord = s₂ := by
    rw [hcut, TypeHead.behindKind, List.append_assoc]
    exact congrArg _ List.takeWhile_append_dropWhile
  refine ⟨head, s₃.dropWhile isWord, ⟨?_, any_head?_dropWhile isWord s₃, ?_⟩, rfl, rfl⟩
  · rw [TypeHead.text_append, hbehind, ← hmodifiers, trimStart, List.takeWhile_append_dropWhile]
  · rw [hbehind]
    exact hvariant

/-- The heads that are read are those that a text starts with. -/
theorem typeHead?_eq_some_iff : typeHead? s = some (name, rest) ↔
    ∃ (h : TypeHead) (tail : List Char), h.Starts s tail ∧ String.ofList h.name = name ∧
      behindParameters tail = rest := by
  constructor
  · exact exists_starts_of_typeHead?
  · rintro ⟨h, tail, hs, rfl, rfl⟩
    exact hs.typeHead?_eq

/-! ## Lists of type parameters -/

/-- A text starts with a list of type parameters, which blanks may precede, and goes on with `rest`. -/
def Parameters (s rest : List Char) : Prop :=
  ∃ gap inner, s = gap ++ '<' :: (inner ++ '>' :: rest) ∧ (∀ c ∈ gap, isBlank c = true) ∧
    inner ≠ [] ∧ '>' ∉ inner

theorem behindParameters_of_parameters (h : Parameters s rest) : behindParameters s = rest := by
  obtain ⟨gap, inner, rfl, hgap, hinner, hfirst⟩ := h
  have htrim : trimStart (gap ++ '<' :: (inner ++ '>' :: rest)) = '<' :: (inner ++ '>' :: rest) :=
    (takeWhile_append_run hgap rfl).2
  obtain ⟨c, inner, rfl⟩ := List.exists_cons_of_ne_nil hinner
  have hdrop : (c :: inner ++ '>' :: rest).drop (inner.length + 2) = rest := by
    rw [List.cons_append, List.drop_succ_cons, ← List.drop_drop, List.drop_left, List.drop_one,
      List.tail_cons]
  rw [behindParameters, htrim]
  simp only [find?_append_cons hfirst rest, List.length_cons, hdrop]

theorem behindParameters_cases (s : List Char) : Parameters s (behindParameters s) ∨
    behindParameters s = s ∧ ∀ rest, ¬ Parameters s rest := by
  by_cases h : ∃ rest, Parameters s rest
  · obtain ⟨rest, hrest⟩ := h
    rw [behindParameters_of_parameters hrest]
    exact .inl hrest
  refine .inr ⟨?_, not_exists.1 h⟩
  unfold behindParameters
  split
  · rename_i r htrim
    split
    · rename_i n hn
      have hmem : '>' ∈ r := by
        by_contra hmem
        rw [find?_eq_none_iff.2 hmem] at hn
        cases hn
      obtain ⟨inner, rest, rfl, hfirst⟩ := List.eq_append_cons_of_mem hmem
      rw [find?_append_cons hfirst] at hn
      have hinner : inner ≠ [] := by
        rintro rfl
        cases hn
      refine absurd ⟨rest, s.takeWhile isBlank, inner, ?_, ?_, hinner, hfirst⟩ h
      · rw [← htrim, trimStart, List.takeWhile_append_dropWhile]
      · exact List.all_eq_true.1 List.all_takeWhile
    · rfl
  · rfl

theorem behindParameters_suffix (s : List Char) : behindParameters s <:+ s := by
  rcases behindParameters_cases s with ⟨gap, inner, hs, -⟩ | ⟨hsame, -⟩
  · exact ⟨gap ++ '<' :: (inner ++ ['>']), by simpa using hs.symm⟩
  · rw [hsame]

/-- Where a head ends that has `tail` behind its name: behind a list of type parameters, and where there
is none with the name. -/
inductive EndsAt (tail : List Char) : List Char → Prop
  | parameters {after : List Char} (h : Parameters tail after) : EndsAt tail after
  | name (h : ∀ after, ¬ Parameters tail after) : EndsAt tail tail

theorem endsAt_iff : EndsAt tail rest ↔ behindParameters tail = rest := by
  constructor
  · intro h
    cases h with
    | parameters hread => exact behindParameters_of_parameters hread
    | name hnone =>
      exact (behindParameters_cases _).elim (fun hread => absurd hread (hnone _)) And.left
  · rintro rfl
    rcases behindParameters_cases tail with hread | ⟨hsame, hnone⟩
    · exact .parameters hread
    · rw [hsame]
      exact .name hnone

/-- **Heads of type declarations are read as their grammar says.** A name is read exactly where a text
starts with a head that gives it, whatever is behind the head or wherever the text ends, and what is read
of the text goes as far as the head and its list of type parameters. -/
theorem typeHead_follows_grammar (s : List Char) (name : String) (rest : List Char) :
    typeHead? s = some (name, rest) ↔ ∃ (h : TypeHead) (tail : List Char),
      h.Starts s tail ∧ String.ofList h.name = name ∧ EndsAt tail rest := by
  simp only [endsAt_iff]
  exact typeHead?_eq_some_iff

/-- Without a blank behind it `class` is a name, and empty brackets are no list of parameters. -/
example : typeHead? " public\tsealed record class<> A<B>".toList =
    some ("class", "<> A<B>".toList) := by decide +kernel

end Decompilation.Source
