import Decompilation.Proofs.Source.Declaration
import Decompilation.Proofs.Text.Blank
import Decompilation.Proofs.Text.Lines
import Decompilation.Source.Header

/-!
# The header in front of other text

In a header the word `namespace` stands whole nowhere (`wordless_headerFront`). Where a header and a
blank line lead up to this word, the header is that of the whole text
(`header_headerFront_append`).
-/

namespace Decompilation.Source

open Text

variable {a b front tail lead s l : List Char}

/-! ## Texts without the word -/

/-- The word `namespace` stands whole nowhere in a text. -/
def Wordless (s : List Char) : Prop := ∀ front tail, ¬ StandsWhole namespaceWord none s front tail

theorem isWord_of_mem_namespaceWord {c : Char} (h : c ∈ namespaceWord) : isWord c = true := by
  have : ∀ c ∈ namespaceWord, isWord c = true := List.all_eq_true.1 rfl
  exact this c h

theorem lastOr_any_isWord {before : Option Char} {x y : List Char} (hx : x ≠ [])
    (h : namespaceWord = x ++ y) : (lastOr before x).any isWord = true := by
  rw [lastOr, List.getLast?_eq_some_getLast hx, Option.some_or]
  exact isWord_of_mem_namespaceWord (h ▸ List.mem_append_left _ (List.getLast_mem hx))

/-- The word does not lie across the end of a part that does not end in a word. -/
theorem StandsWhole.of_length_lt {before : Option Char} (hlast : (lastOr before a).any isWord = false)
    (hs : StandsWhole namespaceWord before (a ++ b) front tail) (hlt : front.length < a.length) :
    ∃ tail', StandsWhole namespaceWord before a front tail' ∧ tail = tail' ++ b := by
  have heq := hs.eq
  rw [List.append_assoc] at heq
  rcases List.append_eq_append_iff.1 heq with ⟨x, rfl, -⟩ | ⟨x, rfl, hx⟩
  · rw [List.length_append] at hlt
    omega
  have hne : x ≠ [] := by
    rintro rfl
    simp at hlt
  rw [lastOr_append] at hlast
  rcases List.append_eq_append_iff.1 hx with ⟨tail', rfl, htail⟩ | ⟨y, hword, -⟩
  · refine ⟨tail', ⟨by simp, hs.left, ?_⟩, htail⟩
    have hright := hs.right
    rw [htail] at hright
    cases tail' with
    | nil => rfl
    | cons c tail' => exact hright
  · simp [lastOr_any_isWord hne hword] at hlast

/-- The first place where the word stands whole, where a text without it leads up to it. -/
theorem Wordless.le_length (hw : Wordless lead) (hlast : (lastOr none lead).any isWord = false)
    (hs : StandsWhole namespaceWord none (lead ++ b) front tail) : lead.length ≤ front.length := by
  by_contra hlt
  obtain ⟨tail', hs', -⟩ := hs.of_length_lt hlast (Nat.lt_of_not_le hlt)
  exact hw _ _ hs'

theorem wordless_nil : Wordless [] := by
  intro front tail hs
  have := hs.eq
  simp [namespaceWord] at this

/-- What is cut out of a text where no word is touched is as free of the word as the text. -/
theorem Wordless.of_append (hw : Wordless (a ++ (s ++ b))) (ha : a.getLast?.all isBlank = true)
    (hb : b.head?.all isBlank = true) : Wordless s := by
  intro front tail hs
  refine hw (a ++ front) (tail ++ b) ⟨by simp [hs.eq], ?_, ?_⟩
  · have hleft := hs.left
    rw [lastOr_append, lastOr, lastOr]
    rw [lastOr] at hleft
    cases hfront : front.getLast? with
    | some c => simpa [hfront] using hleft
    | none =>
      cases hlast : a.getLast? with
      | none => rfl
      | some c => exact not_isWord_of_isBlank (by simpa [hlast] using ha)
  · have hright := hs.right
    cases tail with
    | cons c tail => exact hright
    | nil =>
      cases b with
      | nil => rfl
      | cons c b => exact not_isWord_of_isBlank hb

/-- Where a blank stands between them, texts without the word make a text without it. -/
theorem Wordless.append_cons {c : Char} (ha : Wordless a) (hb : Wordless b)
    (hc : isBlank c = true) : Wordless (a ++ c :: b) := by
  intro front tail hs
  have hlast : (lastOr none (a ++ [c])).any isWord = false := by
    rw [lastOr_concat]
    exact not_isWord_of_isBlank hc
  have hcons : a ++ c :: b = (a ++ [c]) ++ b := by simp
  rw [hcons] at hs
  by_cases hlt : front.length < (a ++ [c]).length
  · obtain ⟨tail', hs', -⟩ := hs.of_length_lt hlast hlt
    have hcut := hs'.eq
    rcases tail'.eq_nil_or_concat with rfl | ⟨tail', d, rfl⟩
    · have := congrArg List.getLast? hcut
      obtain rfl : c = 'e' := by simpa [namespaceWord] using this
      simp [isBlank] at hc
    · rw [List.concat_eq_append, ← List.append_assoc] at hcut
      obtain ⟨rfl, hcd⟩ := List.append_inj' hcut rfl
      refine ha front tail' ⟨rfl, hs'.left, ?_⟩
      have hright := hs'.right
      cases tail' with
      | nil => rfl
      | cons => exact hright
  · obtain ⟨front', rfl⟩ : ∃ front', front = (a ++ [c]) ++ front' := by
      have heq := hs.eq
      rw [List.append_assoc front] at heq
      exact (List.prefix_of_prefix_length_le ⟨_, rfl⟩ ⟨_, heq.symm⟩ (Nat.le_of_not_lt hlt)).imp
        fun _ h => h.symm
    rw [standsWhole_append, lastOr_concat] at hs
    refine hb front' tail ⟨hs.eq, ?_, hs.right⟩
    have hleft := hs.left
    cases front' with
    | nil => rfl
    | cons d front' => rwa [lastOr_cons] at hleft ⊢

/-! ## Preambles and headers -/

/-- What leads up to the first whole word. -/
theorem cutAtWord?_append (hw : Wordless lead) (hlast : (lastOr none lead).any isWord = false)
    (htail : tail.head?.any isWord = false) :
    cutAtWord? namespaceWord none (lead ++ (namespaceWord ++ tail)) = some (lead, tail) := by
  have hs : StandsWhole namespaceWord none (lead ++ (namespaceWord ++ tail)) lead tail :=
    ⟨by simp, hlast, htail⟩
  cases hcut : cutAtWord? namespaceWord none (lead ++ (namespaceWord ++ tail)) with
  | none => exact absurd hs (not_standsWhole_of_cutAtWord? (by simp [namespaceWord]) hcut)
  | some cut =>
    obtain ⟨lead', tail'⟩ := cut
    obtain ⟨hstands, hfirst⟩ := standsWhole_of_cutAtWord? hcut
    have hlen := Nat.le_antisymm (hfirst _ _ hs) (hw.le_length hlast hstands)
    obtain ⟨rfl, rfl⟩ := hstands.tail_eq hs hlen
    rfl

theorem preamble_append (hw : Wordless lead) (hlast : (lastOr none lead).any isWord = false)
    (htail : tail.head?.any isWord = false) :
    preamble (lead ++ (namespaceWord ++ tail)) = lead := by
  rw [preamble, cutAtWord?_append hw hlast htail]

theorem wordless_preamble (text : List Char) : Wordless (preamble text) := by
  unfold preamble
  split
  · rename_i lead tail hcut
    obtain ⟨hstands, hfirst⟩ := standsWhole_of_cutAtWord? hcut
    intro front tail' hs
    have hlen := congrArg List.length hs.eq
    simp only [List.length_append] at hlen
    cases tail' with
    | nil =>
      have hleft := hstands.left
      rw [hs.eq, List.append_nil, lastOr_append,
        lastOr_any_isWord (by simp [namespaceWord]) (List.append_nil _).symm] at hleft
      simp at hleft
    | cons c tail' =>
      have := hfirst front (c :: tail' ++ (namespaceWord ++ tail))
        ⟨by rw [hstands.eq, hs.eq]; simp, hs.left, hs.right⟩
      simp only [namespaceWord, List.length_cons] at hlen
      omega
  · exact wordless_nil

/-- The directives of a text in order. -/
def directives (text : List Char) : List (List Char) :=
  ((lines (preamble text)).filter isUsingDirective).map trimEnd

theorem header_eq (text : List Char) : header text = joinWith ['\n'] (directives text) := rfl

@[simp] theorem isUsingDirective_trimEnd (l : List Char) :
    isUsingDirective (trimEnd l) = isUsingDirective l := by
  unfold isUsingDirective
  rw [trim_trimEnd]

/-- A directive is a line without the word and without trailing blanks. -/
theorem of_mem_directives {text d : List Char} (h : d ∈ directives text) :
    Wordless d ∧ (∀ c ∈ d, isBreak c = false) ∧ isUsingDirective d = true ∧ trimEnd d = d := by
  obtain ⟨l, hl, rfl⟩ := List.mem_map.1 h
  obtain ⟨hline, husing⟩ := List.mem_filter.1 hl
  obtain ⟨hbreaks, a, b, htext, ha, hb⟩ := exists_of_mem_lines hline
  obtain ⟨blanks, hblanks, htrim⟩ := exists_trimEnd l
  have hw : Wordless (a ++ (l ++ b)) := htext ▸ wordless_preamble text
  have hw' : Wordless ([] ++ (trimEnd l ++ blanks)) := htrim ▸ hw.of_append ha hb
  refine ⟨hw'.of_append rfl ?_, fun c hc => hbreaks c ?_, by simpa using husing, by simp⟩
  · cases blanks with
    | nil => rfl
    | cons c blanks => exact hblanks c (List.mem_cons_self ..)
  · rw [htrim]
    exact List.mem_append_left _ hc

/-- What stands in front of the declaration where a unit is written: the header and a blank line. -/
def headerFront (header : List Char) : List Char :=
  if header.isEmpty then [] else header ++ ['\n', '\n']

/-- In front of a declaration the directives stand each on a line of its own. -/
theorem headerFront_header (text : List Char) :
    header text = [] ∧ headerFront (header text) = [] ∨
      headerFront (header text) = (directives text).flatMap (· ++ ['\n']) ++ ['\n'] := by
  by_cases hnil : header text = []
  · exact .inl ⟨hnil, by simp [headerFront, hnil]⟩
  · have hne : directives text ≠ [] := by
      intro hd
      simp [header_eq, hd, joinWith] at hnil
    right
    rw [← joinWith_newline hne, ← header_eq, headerFront]
    simp [hnil]

theorem lastOr_headerFront (header : List Char) :
    (lastOr none (headerFront header)).any isWord = false := by
  unfold headerFront
  split
  · rfl
  · rw [lastOr_append, lastOr_cons, lastOr_cons]
    rfl

theorem wordless_lines {ls : List (List Char)} (hls : ∀ l ∈ ls, Wordless l) :
    Wordless (ls.flatMap (· ++ ['\n']) ++ ['\n']) := by
  induction ls with
  | nil => exact wordless_nil.append_cons wordless_nil (by decide)
  | cons l ls ih =>
    have hrest := ih fun l' hl' => hls l' (List.mem_cons_of_mem _ hl')
    have := (hls l (List.mem_cons_self ..)).append_cons hrest (c := '\n') (by decide)
    simpa using this

/-- In a header the word `namespace` stands whole nowhere. -/
theorem wordless_headerFront (text : List Char) : Wordless (headerFront (header text)) := by
  rcases headerFront_header text with ⟨-, hfront⟩ | hfront
  · rw [hfront]
    exact wordless_nil
  · rw [hfront]
    exact wordless_lines fun d hd => (of_mem_directives hd).1

/-- A header is the header of what it stands in front of. -/
theorem header_headerFront_append (text : List Char) (htail : tail.head?.any isWord = false) :
    header (headerFront (header text) ++ (namespaceWord ++ tail)) = header text := by
  have hpreamble := preamble_append (wordless_headerFront text) (lastOr_headerFront _) htail
  rcases headerFront_header text with ⟨hnil, hfront⟩ | hfront
  · rw [header_eq, directives, hpreamble, hfront, hnil]
    rfl
  · have hfilter : (directives text).filter isUsingDirective = directives text :=
      List.filter_eq_self.2 fun d hd => (of_mem_directives hd).2.2.1
    have htrim : (directives text).map trimEnd = directives text :=
      (List.map_congr_left fun d hd => (of_mem_directives hd).2.2.2).trans (List.map_id _)
    have hempty : (lines ['\n']).filter isUsingDirective = [] := by decide
    rw [header_eq, directives, hpreamble, hfront,
      lines_flatMap_newline fun d hd => (of_mem_directives hd).2.1, List.filter_append, hfilter,
      hempty, List.append_nil, htrim, ← header_eq]

end Decompilation.Source
