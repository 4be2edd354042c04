import Decompilation.Proofs.Disk.Folders
import Decompilation.Proofs.Fault

/-!
# What a disk refuses

A walk ends nowhere because a name is missing, too long or behind a file, or because of too many links
(`refusal_of_walk`); only a null byte keeps a path from being walked at all. So the system can always
say whether something is at a path, unless the path is too long (`Files.fails_isThere_iff`), and where
it can, what it refuses to read or to write there it refuses with an error of its own.
-/

namespace Decompilation

open Act

namespace Disk

variable {d : Disk} {aim : Aim} {links : Nat} {here cwd : Place} {names : List String} {p : Path}
  {r : Refusal} {n : Node}

/-- A refusal that a walk may end with. -/
inductive EndsWalk (aim : Aim) : Refusal → Prop
  | missing : EndsWalk aim .missing
  | notFolder : EndsWalk aim .notFolder
  | nameTooLong : EndsWalk aim .nameTooLong
  | tooManyLinks : EndsWalk aim .tooManyLinks
  | isFolder (writing : aim = .write) : EndsWalk aim .isFolder

theorem refusal_of_walkNames {follow : Place → List String → Except Refusal Place}
    (hfollow : ∀ here names r, follow here names = .error r → EndsWalk aim r)
    (h : walkNames d aim follow here names = .error r) : EndsWalk aim r := by
  induction names generalizing here with
  | nil => cases h
  | cons name names ih =>
    rw [walkNames] at h
    split at h
    · split at h
      · exact ih h
      split at h
      · exact ih h
      split at h
      · rename_i hslash
        cases h
        exact .isFolder hslash.1
      split at h
      · cases h
        exact .missing
      split at h
      · cases h
        exact .nameTooLong
      split at h
      · split at h <;> cases h
        exact .missing
      · split at h
        · cases h
        · exact hfollow _ _ _ h
      · exact ih h
    · cases h
      exact .notFolder

theorem refusal_of_walk (h : walk d aim links here names = .error r) : EndsWalk aim r := by
  induction links generalizing here names r with
  | zero =>
    refine refusal_of_walkNames (fun _ _ r hr => ?_) h
    cases hr
    exact .tooManyLinks
  | succ links ih => exact refusal_of_walkNames (fun _ _ _ hr => ih hr) h

/-- A path without null bytes is followed. -/
def Plain (p : Path) : Prop := ∀ s ∈ p.segments, '\x00' ∉ s.toList

theorem screen_of_not_plain (h : ¬ Plain p) : screen p = .error .nullByte := by
  have hnull : p.segments.any (·.toList.elem '\x00') = true := by
    simpa [Plain] using h
  rw [screen, if_pos hnull]

theorem refusal_of_place (h : d.place cwd aim p = .error r) :
    r = .nullByte ∧ ¬ Plain p ∨ EndsWalk aim r := by
  rw [place] at h
  by_cases hplain : Plain p
  · refine .inr ?_
    cases hscreen : screen p with
    | error r' =>
      rw [hscreen] at h
      cases h
      unfold screen at hscreen
      split at hscreen
      · rename_i hnull
        exact absurd hplain (by simpa [Plain] using hnull)
      split at hscreen <;> cases hscreen
      exact .nameTooLong
    | ok u =>
      rw [hscreen] at h
      exact refusal_of_walk h
  · rw [screen_of_not_plain hplain] at h
    cases h
    exact .inl ⟨rfl, hplain⟩

theorem plain_of_place {q : Place} (h : d.place cwd aim p = .ok q) : Plain p :=
  (Files.screen_eq_ok_iff.1 (place_eq_ok_iff.1 h).1).1

theorem place_of_stat (h : d.stat cwd p = .ok n) : ∃ q, d.place cwd .find p = .ok q := by
  cases hplace : d.place cwd .find p with
  | ok q => exact ⟨q, rfl⟩
  | error r =>
    rw [stat_of_place_error hplace] at h
    cases h

/-- That nothing is at a path can be said for sure, unless the path is too long. -/
theorem refusal_of_stat (h : d.stat cwd p = .error r) : r.meansAbsent = true ∨ r = .nameTooLong := by
  cases hplace : d.place cwd .find p with
  | error r' =>
    rw [stat_of_place_error hplace] at h
    cases h
    rcases refusal_of_place hplace with ⟨rfl, -⟩ | hends
    · exact .inl rfl
    · cases hends with
      | missing | notFolder | tooManyLinks => exact .inl rfl
      | nameTooLong => exact .inr rfl
      | isFolder writing => cases writing
  | ok q =>
    cases hlook : d.look? q with
    | none =>
      rw [stat_of_place_none hplace hlook] at h
      cases h
      exact .inl rfl
    | some n =>
      rw [stat_of_place hplace hlook] at h
      cases h

end Disk

namespace Files

open Disk (Plain)

variable {m m' : Machine} {p : Path} {n : Node} {f : Fault}

/-! ## Asking -/

/-- A path is too long, or a name that it leads through is. -/
def TooLong (m : Machine) (p : Path) : Prop := m.disk.stat m.cwd p = .error .nameTooLong

theorem tooLong_of_long (hclean : Plain p) (hlong : Disk.pathLimit ≤ p.toString.utf8ByteSize) :
    TooLong m p := by
  rw [TooLong, Disk.stat, Disk.place, screen_of_long hclean hlong]
  rfl

theorem lookUp?_of_tooLong (h : TooLong m p) :
    lookUp? p m = .error (.refused .nameTooLong [p.toString]) m := by
  rw [lookUp?, bind_ok (get_eq m), h]
  rfl

theorem lookUp?_of_not_tooLong (h : ¬ TooLong m p) : ∃ found, lookUp? p m = .ok found m := by
  rw [lookUp?, bind_ok (get_eq m)]
  cases hstat : m.disk.stat m.cwd p with
  | ok n => exact ⟨some n, rfl⟩
  | error r =>
    rcases Disk.refusal_of_stat hstat with habsent | rfl
    · exact ⟨none, by simp only [habsent, if_true]; rfl⟩
    · exact absurd hstat h

theorem isThere_of_tooLong (h : TooLong m p) :
    isThere p m = .error (.refused .nameTooLong [p.toString]) m :=
  bind_error (lookUp?_of_tooLong h) _

/-- Whether something is at a path can be said unless the path is too long. -/
theorem fails_isThere_iff : Fails (isThere p) m ↔ TooLong m p := by
  by_cases h : TooLong m p
  · exact iff_of_true ⟨_, _, isThere_of_tooLong h⟩ h
  · obtain ⟨found, hfound⟩ := lookUp?_of_not_tooLong h
    exact iff_of_false (not_fails_of_ok (bind_ok hfound _)) h

theorem isRefusal_of_isThere (h : isThere p m = .error f m') : f.isRefusal = true := by
  rw [isThere_of_tooLong (fails_isThere_iff.1 ⟨f, m', h⟩)] at h
  cases h
  rfl

theorem plain_of_isThere (h : isThere p m = .ok true m') : Plain p := by
  obtain ⟨n, hn⟩ := (isThere_cases h).2.1 rfl
  obtain ⟨q, hplace⟩ := Disk.place_of_stat hn
  exact Disk.plain_of_place hplace

/-! ## Reading and writing -/

/-- The file at a path, if there is one, holds a text. -/
def Legible (m : Machine) (p : Path) : Prop :=
  ∀ f, m.disk.stat m.cwd p = .ok (.file f) → ∃ text, Text.Utf8.decode f.content = .ok text

theorem stat_of_openFile {g : File} (h : openFile p m = .ok g m') :
    m.disk.stat m.cwd p = .ok (.file g) := by
  rw [openFile, bind_ok (get_eq m)] at h
  cases hstat : m.disk.stat m.cwd p with
  | error r =>
    rw [hstat] at h
    cases h
  | ok n =>
    rw [hstat] at h
    cases n with
    | file g' =>
      cases h
      rfl
    | folder | link target => cases h

theorem isRefusal_of_openFile (hn : m.disk.stat m.cwd p = .ok n) (h : openFile p m = .error f m') :
    f.isRefusal = true := by
  rw [openFile, bind_ok (get_eq m), hn] at h
  cases n with
  | file g => cases h
  | folder | link target =>
    cases h
    rfl

theorem isRefusal_of_readText (hn : m.disk.stat m.cwd p = .ok n) (hlegible : Legible m p)
    (h : readText p m = .error f m') : f.isRefusal = true := by
  rcases cases_of_bind_error h with hopen | ⟨g, m₁, hopen, hdecode⟩
  · exact isRefusal_of_openFile hn hopen
  · obtain ⟨text, htext⟩ := hlegible g (stat_of_openFile hopen)
    rw [htext] at hdecode
    cases hdecode

theorem isRefusal_of_readLines (hn : m.disk.stat m.cwd p = .ok n) (hlegible : Legible m p)
    (h : readLines p m = .error f m') : f.isRefusal = true := by
  rcases cases_of_bind_error h with hopen | ⟨g, m₁, hopen, hdecode⟩
  · exact isRefusal_of_openFile hn hopen
  · obtain ⟨text, htext⟩ := hlegible g (stat_of_openFile hopen)
    dsimp only at hdecode
    rw [htext] at hdecode
    cases hdecode

theorem isRefusal_of_writeText {text : List Char} (hplain : Plain p)
    (h : writeText p text m = .error f m') : f.isRefusal = true := by
  cases hplace : m.disk.place m.cwd .write p with
  | error r =>
    rw [writeText, writeBytes, reach, bind_error (reachOr_of_error _ hplace)] at h
    cases h
    rcases Disk.refusal_of_place hplace with ⟨-, hnull⟩ | hends
    · exact absurd hplain hnull
    · cases hends <;> rfl
  | ok q =>
    rw [writeText, writeBytes, reach, bind_ok (reachOr_of_ok _ hplace)] at h
    cases hlook : m.disk.look? q with
    | none =>
      rw [hlook] at h
      cases h
    | some n =>
      rw [hlook] at h
      cases n with
      | file g => cases h
      | folder | link target =>
        cases h
        rfl

end Files

end Decompilation
