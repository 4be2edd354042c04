import Mathlib.Algebra.GroupWithZero.Nat
import Decompilation.Proofs.Project.Rewrite
import Decompilation.Runner.Output

/-!
# Reading within limits

Files are read one after the other as long as no limit is passed. What is read in the end is all of them
or nothing: the text of every file where neither the number of the files nor, file by file, the number of
characters so far is above its limit, and otherwise the problem with the first number that is
(`readAll_keeps_limits`).
-/

namespace Decompilation.Runner

open Act (bind_ok)
open Project (readAs)

variable {m m' : Machine} {path : Path} {paths : List Path} {f : File} {files : List File}
  {texts : List (List Char)} {limit total : Int} {k : Nat}

/-- Paths lead to files, one each. -/
def LeadTo (m : Machine) (paths : List Path) (files : List File) : Prop :=
  List.Forall₂ (fun p f => m.disk.stat m.cwd p = .ok (.file f)) paths files

/-- How many characters some files read as. -/
def charactersOf (files : List File) : Nat := (files.map fun f => (readAs f).length).sum

/-- The fault of reading more than a limit allows. -/
def excess (kind : String) (actual limit : Int) : Fault :=
  .reported .outputSize (.outputTooLarge kind (.int actual) (.int limit))

/-- After so many files, and not sooner, more characters than the limit have been read. -/
structure FirstAbove (files : List File) (limit : Int) (k : Nat) : Prop where
  pos : 0 < k
  le : k ≤ files.length
  above : limit < charactersOf (files.take k)
  within : ∀ j < k, 0 < j → (charactersOf (files.take j) : Int) ≤ limit

@[simp] theorem charactersOf_cons :
    charactersOf (f :: files) = (readAs f).length + charactersOf files := rfl

theorem isAbove_int (count limit : Int) (m : Machine) :
    Act.isAbove count (.int limit) m = .ok (decide (limit < count)) m := rfl

/-! ## File by file -/

theorem readUpTo_of_above (h : m.disk.stat m.cwd path = .ok (.file f))
    (habove : limit < total + (readAs f).length) :
    readUpTo (.int limit) total (path :: paths) m =
      .error (excess "bytes" (total + (readAs f).length) limit) m := by
  have hlimit : Act.isAbove (total + (readAs f).length) (.int limit) m = .ok true m := by
    rw [isAbove_int, decide_eq_true habove]
  rw [readUpTo, bind_ok (Files.readLenient_of_stat h)]
  exact bind_ok hlimit _

theorem readUpTo_of_within (h : m.disk.stat m.cwd path = .ok (.file f))
    (hwithin : total + (readAs f).length ≤ limit) :
    readUpTo (.int limit) total (path :: paths) m = (do
      return readAs f :: (← readUpTo (.int limit) (total + (readAs f).length) paths)) m := by
  have hlimit : Act.isAbove (total + (readAs f).length) (.int limit) m = .ok false m := by
    rw [isAbove_int, decide_eq_false (Int.not_lt.2 hwithin)]
  rw [readUpTo, bind_ok (Files.readLenient_of_stat h)]
  exact bind_ok hlimit _

theorem readUpTo_ok (h : LeadTo m paths files)
    (hwithin : ∀ j, 0 < j → j ≤ files.length →
      total + (charactersOf (files.take j) : Int) ≤ limit) :
    readUpTo (.int limit) total paths m = .ok (files.map readAs) m := by
  induction h generalizing total with
  | nil => rfl
  | @cons p f paths files hstat _ ih =>
    have hfirst : total + ((readAs f).length : Int) ≤ limit := by
      have := hwithin 1 (by omega) (by simp)
      simpa [charactersOf] using this
    have hrest : readUpTo (.int limit) (total + (readAs f).length) paths m =
        .ok (files.map readAs) m := ih fun j hj hle => by
      have := hwithin (j + 1) (by omega) (by simpa using hle)
      rw [List.take_succ_cons, charactersOf_cons] at this
      omega
    rw [readUpTo_of_within hstat hfirst, bind_ok hrest]
    rfl

/-- Behind the file at which a limit is passed nothing is read. -/
theorem readUpTo_error (h : LeadTo m (paths.take k) (files.take k)) (hpaths : k ≤ paths.length)
    (hfiles : k ≤ files.length) (hpos : 0 < k)
    (habove : limit < total + (charactersOf (files.take k) : Int))
    (hwithin : ∀ j < k, 0 < j → total + (charactersOf (files.take j) : Int) ≤ limit) :
    readUpTo (.int limit) total paths m =
      .error (excess "bytes" (total + charactersOf (files.take k)) limit) m := by
  induction paths generalizing total files k with
  | nil =>
    simp at hpaths
    omega
  | cons p paths ih =>
    obtain _ | k := k
    · omega
    obtain _ | ⟨f, files⟩ := files
    · simp at hfiles
    obtain ⟨hstat, hrest⟩ := List.forall₂_cons.1 h
    rw [List.take_succ_cons, charactersOf_cons] at habove ⊢
    obtain rfl | hk := Nat.eq_zero_or_pos k
    · have hlast : limit < total + ((readAs f).length : Int) := by simpa [charactersOf] using habove
      rw [readUpTo_of_above hstat hlast]
      simp [charactersOf]
    · have hfirst : total + ((readAs f).length : Int) ≤ limit := by
        have := hwithin 1 (by omega) (by omega)
        simpa [charactersOf] using this
      have hrun : readUpTo (.int limit) (total + (readAs f).length) paths m =
          .error (excess "bytes" (total + (readAs f).length + charactersOf (files.take k)) limit) m :=
        ih hrest (by simpa using hpaths) (by simpa using hfiles) hk (by omega) fun j hlt hj => by
          have := hwithin (j + 1) (by omega) (by omega)
          rw [List.take_succ_cons, charactersOf_cons] at this
          omega
      rw [readUpTo_of_within hstat hfirst, Act.bind_error hrun]
      congr 2
      omega

/-! ## All files -/

theorem readAll_int (paths : List Path) (maxFiles limit : Int) :
    readAll paths (.int maxFiles) (.int limit) = readWithin (.int maxFiles) (.int limit) paths := rfl

theorem readAll_of_many {maxFiles : Int} (h : maxFiles < paths.length) :
    readAll paths (.int maxFiles) (.int limit) m =
      .error (excess "files" paths.length maxFiles) m := by
  have hcount : Act.isAbove paths.length (.int maxFiles) m = .ok true m := by
    rw [isAbove_int, decide_eq_true h]
  rw [readAll_int, readWithin]
  exact bind_ok hcount _

theorem readAll_of_few {maxFiles : Int} (h : paths.length ≤ maxFiles) :
    readAll paths (.int maxFiles) (.int limit) m = readUpTo (.int limit) 0 paths m := by
  have hcount : Act.isAbove paths.length (.int maxFiles) m = .ok false m := by
    rw [isAbove_int, decide_eq_false (Int.not_lt.2 h)]
  rw [readAll_int, readWithin]
  exact bind_ok hcount _

theorem readAll_of_firstAbove {maxFiles : Int} (hfew : paths.length ≤ maxFiles)
    (hk : k ≤ paths.length) (h : LeadTo m (paths.take k) (files.take k))
    (hfirst : FirstAbove files limit k) : readAll paths (.int maxFiles) (.int limit) m =
      .error (excess "bytes" (charactersOf (files.take k)) limit) m := by
  have hrun : readUpTo (.int limit) 0 paths m =
      .error (excess "bytes" (0 + charactersOf (files.take k)) limit) m :=
    readUpTo_error h hk hfirst.le hfirst.pos (by simpa using hfirst.above) (by simpa using hfirst.within)
  rw [readAll_of_few hfew, hrun, Int.zero_add]

/-- The characters of each beginning with a file are at most as many as a limit allows. -/
def Within (files : List File) (limit : Int) : Prop :=
  ∀ k ≤ files.length, 0 < k → charactersOf (files.take k) ≤ limit

instance (files : List File) (limit : Int) : Decidable (Within files limit) :=
  inferInstanceAs (Decidable (∀ k ≤ files.length, 0 < k → (charactersOf (files.take k) : Int) ≤ limit))

theorem readAll_of_within {maxFiles : Int} (hfew : paths.length ≤ maxFiles) (h : LeadTo m paths files)
    (hwithin : Within files limit) :
    readAll paths (.int maxFiles) (.int limit) m = .ok (files.map readAs) m := by
  rw [readAll_of_few hfew]
  exact readUpTo_ok h fun k hpos hle => by simpa using hwithin k hle hpos

/-- Where not every number of characters is within a limit, there is a first one above it. -/
theorem exists_firstAbove (h : ¬ Within files limit) : ∃ k, FirstAbove files limit k := by
  unfold Within at h
  push Not at h
  obtain ⟨hle, hpos, habove⟩ := Nat.find_spec h
  refine ⟨Nat.find h, hpos, hle, habove, fun j hlt hj => ?_⟩
  by_contra hnot
  exact Nat.find_min h hlt ⟨by omega, hj, Int.not_le.1 hnot⟩

/-- **Files are read within limits or not at all.** More files than the one limit allows are a problem
with their number, whatever the paths lead to. Otherwise the first number of characters above the other
limit is the problem, whatever the paths behind that file lead to. Files that are there are all read, in
order, exactly if their number is at most the one limit, and the number of characters of each beginning
of them at most the other. -/
theorem readAll_keeps_limits (m : Machine) (paths : List Path) (maxFiles limit : Int) :
    (maxFiles < paths.length → readAll paths (.int maxFiles) (.int limit) m =
      .error (excess "files" paths.length maxFiles) m) ∧
    (paths.length ≤ maxFiles → ∀ files k, k ≤ paths.length →
      LeadTo m (paths.take k) (files.take k) → FirstAbove files limit k →
      readAll paths (.int maxFiles) (.int limit) m =
        .error (excess "bytes" (charactersOf (files.take k)) limit) m) ∧
    ∀ files, LeadTo m paths files →
      (∀ texts m', readAll paths (.int maxFiles) (.int limit) m = .ok texts m' ↔
        (paths.length ≤ maxFiles ∧ Within files limit) ∧ texts = files.map readAs ∧ m' = m) ∧
      (paths.length ≤ maxFiles → ¬ Within files limit → ∃ k, FirstAbove files limit k ∧
        readAll paths (.int maxFiles) (.int limit) m =
          .error (excess "bytes" (charactersOf (files.take k)) limit) m) := by
  refine ⟨readAll_of_many, fun hfew files k hk hlead hfirst =>
    readAll_of_firstAbove hfew hk hlead hfirst, fun files hlead => ?_⟩
  have hlength : paths.length = files.length := hlead.length_eq
  have hpassed : paths.length ≤ maxFiles → ¬ Within files limit → ∃ k, FirstAbove files limit k ∧
      readAll paths (.int maxFiles) (.int limit) m =
        .error (excess "bytes" (charactersOf (files.take k)) limit) m := by
    intro hfew hnot
    obtain ⟨k, hfirst⟩ := exists_firstAbove hnot
    have hk : k ≤ paths.length := hlength ▸ hfirst.le
    exact ⟨k, hfirst, readAll_of_firstAbove hfew hk (List.forall₂_take k hlead) hfirst⟩
  refine ⟨fun texts m' => ⟨fun hrun => ?_, ?_⟩, hpassed⟩
  · have hfew : paths.length ≤ maxFiles := by
      by_contra hmany
      rw [readAll_of_many (Int.not_le.1 hmany)] at hrun
      cases hrun
    have hwithin : Within files limit := by
      by_contra hnot
      obtain ⟨k, -, herror⟩ := hpassed hfew hnot
      rw [herror] at hrun
      cases hrun
    rw [readAll_of_within hfew hlead hwithin] at hrun
    cases hrun
    exact ⟨⟨hfew, hwithin⟩, rfl, rfl⟩
  · rintro ⟨⟨hfew, hwithin⟩, rfl, rfl⟩
    exact readAll_of_within hfew hlead hwithin

/-- Two files, the first with a line end of two characters and a byte that is no text. -/
def sampleFiles : List File :=
  [File.ofBytes [0x61, 0x0D, 0x0A, 0x62, 0xFF], File.ofBytes [0x74, 0x77, 0x6F]]

def sampleFolder : Machine :=
  Machine.ofDisk <| (Disk.empty.put ["a.cs"] (.file (File.ofBytes [0x61, 0x0D, 0x0A, 0x62, 0xFF]))).put
    ["b.cs"] (.file (File.ofBytes [0x74, 0x77, 0x6F]))

/-- Seven characters in two files, and limits of seven, six and three characters and of one file. The
paths that are not read lead nowhere. -/
theorem readAll_keeps_limits_of_seven :
    let a : Path := ⟨.root, ["a.cs"]⟩
    let b : Path := ⟨.root, ["b.cs"]⟩
    let gone : Path := ⟨.root, ["gone.cs"]⟩
    LeadTo sampleFolder [a, b] sampleFiles ∧
    readAll [a, b] (.int 2) (.int 7) sampleFolder =
      .ok ["a\nb\uFFFD".toList, "two".toList] sampleFolder ∧
    readAll [a, b] (.int 2) (.int 6) sampleFolder = .error (excess "bytes" 7 6) sampleFolder ∧
    readAll [a, gone] (.int 2) (.int 3) sampleFolder = .error (excess "bytes" 4 3) sampleFolder ∧
    readAll [a, gone] (.int 1) (.int 7) sampleFolder = .error (excess "files" 2 1) sampleFolder := by
  intro a b gone
  have hlead : LeadTo sampleFolder [a, b] sampleFiles :=
    .cons (by decide +kernel) (.cons (by decide +kernel) .nil)
  have htexts : sampleFiles.map readAs = ["a\nb\uFFFD".toList, "two".toList] := by decide +kernel
  have htwo : LeadTo sampleFolder ([a, gone].take 1) (sampleFiles.take 1) :=
    .cons (by decide +kernel) .nil
  have hseven : FirstAbove sampleFiles 6 2 :=
    ⟨by decide, by decide, by decide +kernel, by decide +kernel⟩
  have hfour : FirstAbove sampleFiles 3 1 :=
    ⟨by decide, by decide, by decide +kernel, by decide +kernel⟩
  have hall : charactersOf (sampleFiles.take 2) = 7 := by decide +kernel
  have hone : charactersOf (sampleFiles.take 1) = 4 := by decide +kernel
  refine ⟨hlead, ?_, ?_, ?_, ?_⟩
  · obtain ⟨-, -, hread⟩ := readAll_keeps_limits sampleFolder [a, b] 2 7
    have hfits : ([a, b].length : Int) ≤ 2 ∧ Within sampleFiles 7 := by decide +kernel
    exact ((hread sampleFiles hlead).1 _ _).2 ⟨hfits, htexts.symm, rfl⟩
  · obtain ⟨-, hpassed, -⟩ := readAll_keeps_limits sampleFolder [a, b] 2 6
    rw [hpassed (by decide) sampleFiles 2 (by decide) hlead hseven, hall]
    rfl
  · obtain ⟨-, hpassed, -⟩ := readAll_keeps_limits sampleFolder [a, gone] 2 3
    rw [hpassed (by decide) sampleFiles 1 (by decide) htwo hfour, hone]
    rfl
  · exact (readAll_keeps_limits sampleFolder [a, gone] 1 7).1 (by decide)

end Decompilation.Runner
