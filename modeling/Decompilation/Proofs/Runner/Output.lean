import Mathlib.Data.List.Sort
import Mathlib.Data.String.Basic
import Decompilation.Proofs.Machine
import Decompilation.Proofs.Text.Lines
import Decompilation.Runner.Output

/-!
# The files that a run leaves

Files are collected in the order of their paths, segment by segment. The order is linear, so every
sort puts them in the same order (`collect_eq_insertionSort`). No text that is read of them has a
carriage return (`return_not_mem_of_readAll`).
-/

namespace Decompilation

namespace Path

variable {a b c : List String} {x y : String}

theorem segmentsLe_cons : segmentsLe (x :: a) (y :: b) = true ↔
    x < y ∨ x = y ∧ segmentsLe a b = true := by
  rw [segmentsLe]
  split
  · simp [*]
  · split
    · simp_all
    · simp_all

theorem segmentsLe_total (a b : List String) : segmentsLe a b = true ∨ segmentsLe b a = true := by
  induction a generalizing b with
  | nil => exact .inl rfl
  | cons x a ih =>
    cases b with
    | nil => exact .inr rfl
    | cons y b =>
      rw [segmentsLe_cons, segmentsLe_cons]
      rcases lt_trichotomy x y with hlt | rfl | hlt
      · exact .inl (.inl hlt)
      · exact (ih b).imp (fun h => .inr ⟨rfl, h⟩) fun h => .inr ⟨rfl, h⟩
      · exact .inr (.inl hlt)

theorem segmentsLe_trans (hab : segmentsLe a b = true) (hbc : segmentsLe b c = true) :
    segmentsLe a c = true := by
  induction a generalizing b c with
  | nil => rfl
  | cons x a ih =>
    cases b with
    | nil => cases hab
    | cons y b =>
      cases c with
      | nil => cases hbc
      | cons z c =>
        rw [segmentsLe_cons] at hab hbc ⊢
        rcases hab with hxy | ⟨rfl, hab⟩
        · rcases hbc with hyz | ⟨rfl, -⟩
          · exact .inl (hxy.trans hyz)
          · exact .inl hxy
        · exact hbc.imp_right fun h => ⟨h.1, ih hab h.2⟩

theorem segmentsLe_antisymm (hab : segmentsLe a b = true) (hba : segmentsLe b a = true) : a = b := by
  induction a generalizing b with
  | nil =>
    cases b with
    | nil => rfl
    | cons y b => cases hba
  | cons x a ih =>
    cases b with
    | nil => cases hab
    | cons y b =>
      rw [segmentsLe_cons] at hab hba
      rcases hab with hxy | ⟨rfl, hab⟩
      · rcases hba with hyx | ⟨rfl, -⟩
        · exact absurd hyx hxy.asymm
        · exact absurd hxy (lt_irrefl _)
      · rcases hba with hlt | ⟨-, hba⟩
        · exact absurd hlt (lt_irrefl _)
        · rw [ih hab hba]

end Path

namespace Runner

/-- The names that lead to a file come before others or are the same. -/
def Before (a b : List String) : Prop := Path.segmentsLe a b = true

instance : DecidableRel Before := fun a b =>
  inferInstanceAs (Decidable (Path.segmentsLe a b = true))

/-- What is collected, sorted by recursion on the list. -/
theorem collect_eq_insertionSort (root : Path) (suffixes : List String) :
    collect root suffixes = do
      return ((← Files.filesBelow root).filter (hasSuffix suffixes)).insertionSort Before := by
  have : Std.Total Before := ⟨Path.segmentsLe_total⟩
  have : IsTrans _ Before := ⟨fun _ _ _ => Path.segmentsLe_trans⟩
  have : Std.Antisymm Before := ⟨fun _ _ => Path.segmentsLe_antisymm⟩
  have hle : (fun a b => decide (Before a b)) = Path.segmentsLe := by
    funext a b
    rw [Bool.eq_iff_iff, decide_eq_true_iff]
    rfl
  have hsort : ∀ l : List (List String), l.mergeSort Path.segmentsLe = l.insertionSort Before := by
    intro l
    rw [← List.mergeSort_eq_insertionSort, ← hle]
  simp only [collect, hsort]

variable {m m' : Machine} {files : List Path} {texts : List (List Char)}

theorem return_not_mem_of_readUpTo {limit : Json.Value} {total : Int}
    (hrun : readUpTo limit total files m = .ok texts m') : ∀ t ∈ texts, '\r' ∉ t := by
  induction files generalizing total m m' texts with
  | nil =>
    cases hrun
    simp
  | cons p files ih =>
    rw [readUpTo] at hrun
    obtain ⟨t, m₁, hread, hrest⟩ := Act.exists_of_bind_ok hrun
    obtain ⟨above, m₂, -, hlimit⟩ := Act.exists_of_bind_ok hrest
    dsimp only at hlimit
    split at hlimit
    · cases hlimit
    · obtain ⟨rest, m₃, hothers, hdone⟩ := Act.exists_of_bind_ok hlimit
      cases hdone
      obtain ⟨f, m₄, -, htext⟩ := Act.exists_of_bind_ok hread
      cases htext
      exact List.forall_mem_cons.2 ⟨Text.return_not_mem_unifyBreaks _, ih hothers⟩

/-- What is read has newlines for all line ends. -/
theorem return_not_mem_of_readAll {maxFiles maxCharacters : Json.Value}
    (hrun : readAll files maxFiles maxCharacters m = .ok texts m') : ∀ t ∈ texts, '\r' ∉ t := by
  rw [readAll] at hrun
  obtain ⟨fileLimit, m₁, -, hrest⟩ := Act.exists_of_bind_ok hrun
  obtain ⟨characterLimit, m₂, -, hread⟩ := Act.exists_of_bind_ok hrest
  rw [readWithin] at hread
  obtain ⟨above, m₃, -, hlimit⟩ := Act.exists_of_bind_ok hread
  dsimp only at hlimit
  split at hlimit
  · cases hlimit
  · exact return_not_mem_of_readUpTo hlimit

end Runner

end Decompilation
