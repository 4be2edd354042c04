import Mathlib.Data.List.DropRight
import Decompilation.Text.Blank

/-!
# Trimming

A text is its trimmed text with blanks around it (`exists_trim`), and blanks around a text do not
change what is left when it is trimmed (`trim_append_append`).
-/

namespace Decompilation.Text

variable {s a b : List Char}

theorem isBlank_newline : ∀ c ∈ ['\n'], isBlank c = true := List.all_eq_true.1 rfl

theorem not_mem_of_blank {c : Char} (ha : ∀ c ∈ a, isBlank c = true) (hc : isBlank c = false) :
    c ∉ a := by
  intro hm
  simp [ha c hm] at hc

theorem exists_trimEnd (s : List Char) :
    ∃ b, (∀ c ∈ b, isBlank c = true) ∧ s = trimEnd s ++ b :=
  ⟨s.rtakeWhile isBlank, fun _ hc => List.mem_rtakeWhile_imp hc,
    List.rdropWhile_append_rtakeWhile.symm⟩

theorem exists_trim (s : List Char) : ∃ a b, (∀ c ∈ a, isBlank c = true) ∧
    (∀ c ∈ b, isBlank c = true) ∧ s = a ++ (trim s ++ b) := by
  obtain ⟨b, hb, hs⟩ := exists_trimEnd (trimStart s)
  refine ⟨s.takeWhile isBlank, b, fun c hc => ?_, hb, ?_⟩
  · exact List.all_eq_true.1 List.all_takeWhile c hc
  · rw [trim, ← hs, trimStart, List.takeWhile_append_dropWhile]

theorem trim_eq_nil_iff : trim s = [] ↔ allBlank s = true := by
  constructor
  · intro h
    obtain ⟨a, b, ha, hb, hs⟩ := exists_trim s
    rw [hs, h, List.nil_append, allBlank, List.all_append, Bool.and_eq_true]
    exact ⟨List.all_eq_true.2 ha, List.all_eq_true.2 hb⟩
  · intro h
    rw [trim, trimStart, List.dropWhile_eq_nil_iff.2 (List.all_eq_true.1 h)]
    rfl

theorem trimmed_eq_empty_iff {t : String} : trimmed t = "" ↔ allBlank t.toList = true := by
  rw [trimmed, ← String.ofList_nil, String.ofList_inj, trim_eq_nil_iff]

theorem trim_subset (s : List Char) : trim s ⊆ s := by
  obtain ⟨a, b, -, -, hs⟩ := exists_trim s
  conv_rhs => rw [hs]
  exact fun c hc => List.mem_append_right _ (List.mem_append_left _ hc)

theorem trimEnd_append (hb : ∀ c ∈ b, isBlank c = true) : trimEnd (s ++ b) = trimEnd s := by
  unfold trimEnd
  rw [List.reverse_append,
    List.dropWhile_append_of_pos fun c hc => hb c (List.mem_reverse.1 hc)]

theorem trimEnd_subset (s : List Char) : trimEnd s ⊆ s := by
  obtain ⟨b, -, hs⟩ := exists_trimEnd s
  conv_rhs => rw [hs]
  exact List.subset_append_left _ b

theorem trimStart_of_not_blank (h : s.head?.any isBlank = false) : trimStart s = s := by
  cases s with
  | nil => rfl
  | cons c s => exact trimStart_cons_of_not h

/-- A text that is its own trimmed text starts with no blank. -/
theorem head_of_trim (h : trim s = s) : s.head?.any isBlank = false := by
  cases s with
  | nil => rfl
  | cons c s =>
    by_contra hc
    have hblank : isBlank c = true := by simpa using hc
    obtain ⟨b, -, hb⟩ := exists_trimEnd (trimStart s)
    have hlength := congrArg List.length hb
    have hstart : (trimStart s).length ≤ s.length := (List.dropWhile_suffix _).length_le
    rw [trim, trimStart_cons_blank hblank] at h
    rw [h, List.length_append, List.length_cons] at hlength
    omega

/-- What stands in front of a character that is no blank is not trimmed at the end. -/
theorem trimEnd_append_cons {c : Char} (hc : isBlank c = false) (a s : List Char) :
    trimEnd (a ++ c :: s) = a ++ c :: trimEnd s := by
  have hreverse : (a ++ c :: s).reverse = s.reverse ++ c :: a.reverse := by simp
  have hkeep : (c :: a.reverse).dropWhile isBlank = c :: a.reverse :=
    List.dropWhile_cons_of_neg (by simp [hc])
  rw [trimEnd, hreverse, List.dropWhile_append, hkeep]
  split
  · rename_i hs
    rw [trimEnd, List.isEmpty_iff.1 hs]
    simp
  · simp [trimEnd]

theorem trim_append_left (ha : ∀ c ∈ a, isBlank c = true) : trim (a ++ s) = trim s := by
  unfold trim trimStart
  rw [List.dropWhile_append_of_pos ha]

theorem trim_append_right (hb : ∀ c ∈ b, isBlank c = true) : trim (s ++ b) = trim s := by
  unfold trim trimStart
  rw [List.dropWhile_append]
  split
  · rename_i hs
    rw [List.isEmpty_iff.1 hs, List.dropWhile_eq_nil_iff.2 hb]
  · exact trimEnd_append hb

theorem trim_append_append (ha : ∀ c ∈ a, isBlank c = true) (hb : ∀ c ∈ b, isBlank c = true) :
    trim (a ++ (s ++ b)) = trim s := by
  rw [trim_append_left ha, trim_append_right hb]

@[simp] theorem trim_trim (s : List Char) : trim (trim s) = trim s := by
  obtain ⟨a, b, ha, hb, hs⟩ := exists_trim s
  conv_rhs => rw [hs]
  rw [trim_append_append ha hb]

@[simp] theorem trimEnd_trimEnd (s : List Char) : trimEnd (trimEnd s) = trimEnd s :=
  List.rdropWhile_idempotent isBlank s

theorem trimEnd_of_trim (h : trim s = s) : trimEnd s = s := by
  rw [← h, trim, trimEnd_trimEnd]

@[simp] theorem trim_trimEnd (s : List Char) : trim (trimEnd s) = trim s := by
  obtain ⟨b, hb, hs⟩ := exists_trimEnd s
  conv_rhs => rw [hs]
  rw [trim_append_right hb]

end Decompilation.Text
