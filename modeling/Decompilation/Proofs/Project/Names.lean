import Mathlib.Data.List.Forall2
import Decompilation.Project.Names
import Decompilation.Proofs.Disk.Walk
import Decompilation.Proofs.Text.Lines

/-!
# Which units share a place

The file of a unit forgets which characters of the unit's name are dots and which are underscores
(`unitFileName_eq_iff`), the folder of a unit forgets empty parts of the name
(`unitFolder_eq_iff`), and both take the unit of all text outside namespaces for a namespace
`global`.
-/

namespace Decompilation.Project

open Source (globalName isQualified)
open Text (splitOn)

/-- The name that a unit's places are made from. -/
def plainName (n : String) : List Char := if n = globalName then "global".toList else n.toList

/-- What the names of units are made of. -/
def IsUnitName (n : String) : Prop := ∀ c ∈ plainName n, isQualified c = true

theorem IsUnitName.not_mem {n : String} {c : Char} (h : IsUnitName n) (hc : isQualified c = false) :
    c ∉ plainName n := by
  intro hm
  simp [h c hm] at hc

/-! ## Files -/

/-- Two texts differ in nothing but dots that are underscores in the other one. -/
def SameButDots : List Char → List Char → Prop :=
  List.Forall₂ fun a b => a = b ∨ a = '.' ∧ b = '_' ∨ a = '_' ∧ b = '.'

instance : DecidableRel SameButDots := by
  unfold SameButDots
  infer_instance

/-- A character of a file's name for one of a namespace's name. -/
def undotted (c : Char) : Char := if c = '.' then '_' else c

theorem undotted_eq_iff {a b : Char} :
    undotted a = undotted b ↔ a = b ∨ a = '.' ∧ b = '_' ∨ a = '_' ∧ b = '.' := by
  unfold undotted
  split <;> split <;> grind

theorem map_undotted_eq_iff {s t : List Char} :
    s.map undotted = t.map undotted ↔ SameButDots s t := by
  rw [SameButDots, ← List.forall₂_eq_eq_eq, List.forall₂_map_left_iff, List.forall₂_map_right_iff]
  simp only [undotted_eq_iff]

theorem unitFileName_eq (n : String) :
    unitFileName n = String.ofList ((plainName n).map undotted) ++ ".cs" := by
  unfold unitFileName plainName
  split
  · decide
  · rfl

theorem unitFileName_eq_iff (n m : String) :
    unitFileName n = unitFileName m ↔ SameButDots (plainName n) (plainName m) := by
  rw [unitFileName_eq, unitFileName_eq, ← map_undotted_eq_iff, ← String.toList_inj,
    String.toList_append, String.toList_append, List.append_cancel_right_eq, String.toList_ofList,
    String.toList_ofList]

theorem IsUnitName.not_mem_unitFileName {n : String} {c : Char} (h : IsUnitName n)
    (hc : isQualified c = false) : c ∉ (unitFileName n).toList := by
  rw [unitFileName_eq, String.toList_append, String.toList_ofList, List.mem_append, not_or]
  constructor
  · intro hm
    obtain ⟨d, hd, rfl⟩ := List.mem_map.1 hm
    unfold undotted at hc
    split at hc
    · simp [isQualified, Source.isWord, Source.isNameStart] at hc
    · simp [h d hd] at hc
  · intro hm
    have : ∀ c ∈ ".cs".toList, isQualified c = true := List.all_eq_true.1 rfl
    simp [this c hm] at hc

theorem ordinary_of_length {s : String} (h : 3 ≤ s.toList.length) : Disk.Ordinary s := by
  have hne : ∀ t : String, t.toList.length < 3 → s ≠ t := by
    rintro t ht rfl
    omega
  exact ⟨not_or.2 ⟨hne "" (by decide), hne "." (by decide)⟩, hne ".." (by decide)⟩

theorem ordinary_append (s : String) : Disk.Ordinary (s ++ ".cs") := by
  apply ordinary_of_length
  rw [String.toList_append, List.length_append]
  exact Nat.le_add_left 3 _

theorem ordinary_unitFileName (n : String) : Disk.Ordinary (unitFileName n) := by
  rw [unitFileName_eq]
  exact ordinary_append _

/-! ## Folders -/

/-- The parts of a unit's name that are folders below each other. -/
def folderParts (n : String) : List String :=
  (splitOn '.' (plainName n)).filterMap fun part =>
    if part = [] then none else some (String.ofList part)

theorem div_of_not_mem {s : String} (p : Path) (hslash : '/' ∉ s.toList) (hdot : s ≠ ".") :
    p / s = { p with segments := p.segments ++ if s = "" then [] else [s] } := by
  have hpieces : Text.pieces '/' s = [s] := by
    rw [Text.pieces, Text.splitOn_of_not_mem hslash, List.map_singleton, String.ofList_toList]
  have hanchor : Path.anchorOf s.toList = .here := by
    have : s.toList.takeWhile (· == '/') = [] := by
      cases hs : s.toList with
      | nil => rfl
      | cons c t =>
        rw [hs, List.mem_cons, not_or] at hslash
        simp [Ne.symm hslash.1]
    rw [Path.anchorOf, this]
    rfl
  have hsegments : Path.segmentsOf s = if s = "" then [] else [s] := by
    rw [Path.segmentsOf, hpieces, List.filter_singleton]
    split
    · rename_i hs
      rw [hs]
      rfl
    · rename_i hs
      have hkeep : (s != "" && s != ".") = true := by
        rw [Bool.and_eq_true, bne_iff_ne, bne_iff_ne]
        exact ⟨hs, hdot⟩
      rw [hkeep]
      rfl
  change Path.join p (Path.ofString s) = _
  simp [Path.join, Path.ofString, Path.isAnchored, hanchor, hsegments]

theorem div_eq_child {s : String} (p : Path) (hslash : '/' ∉ s.toList) (hname : Disk.Ordinary s) :
    p / s = p.child s := by
  rw [div_of_not_mem p hslash fun h => hname.ne_same (.inr h),
    if_neg fun h => hname.ne_same (.inl h)]
  rfl

theorem foldl_div_pieces (root : Path) {parts : List (List Char)}
    (hparts : ∀ p ∈ parts, ∀ c ∈ p, c ≠ '/' ∧ c ≠ '.') :
    (parts.map String.ofList).foldl (fun p part => p / part) root =
      { root with segments := root.segments ++
        parts.filterMap fun part => if part = [] then none else some (String.ofList part) } := by
  induction parts generalizing root with
  | nil => simp
  | cons p parts ih =>
    have hslash : '/' ∉ (String.ofList p).toList := by
      rw [String.toList_ofList]
      exact fun hm => (hparts p (List.mem_cons_self ..) _ hm).1 rfl
    have hdot : String.ofList p ≠ "." := by
      intro hp
      have := congrArg String.toList hp
      rw [String.toList_ofList] at this
      exact (hparts p (List.mem_cons_self ..) '.' (by simp [this])).2 rfl
    rw [List.map_cons, List.foldl_cons, div_of_not_mem root hslash hdot,
      ih _ fun q hq => hparts q (List.mem_cons_of_mem _ hq)]
    by_cases hp : p = []
    · simp [hp]
    · have : String.ofList p ≠ "" := by
        intro hnil
        have := congrArg String.toList hnil
        rw [String.toList_ofList] at this
        exact hp this
      simp [hp, this]

theorem unitFolder_eq (root : Path) {n : String} (hslash : '/' ∉ plainName n) :
    unitFolder root n = { root with segments := root.segments ++ folderParts n } := by
  unfold unitFolder folderParts
  unfold plainName at hslash ⊢
  split
  · exact div_of_not_mem root (by decide) (by decide)
  · rename_i hn
    rw [if_neg hn] at hslash
    apply foldl_div_pieces root
    intro p hp c hc
    obtain ⟨hmem, hdot⟩ := Text.of_mem_splitOn hp c hc
    exact ⟨fun hc => hslash (hc ▸ hmem), hdot⟩

theorem unitFolder_eq_iff (root : Path) {n m : String} (hn : '/' ∉ plainName n)
    (hm : '/' ∉ plainName m) :
    unitFolder root n = unitFolder root m ↔ folderParts n = folderParts m := by
  rw [unitFolder_eq root hn, unitFolder_eq root hm]
  simp

/-- A name that does not start with a dot has a part. -/
theorem folderParts_ne_nil {n : String} (h : (plainName n).head?.any Source.isNameStart = true) :
    folderParts n ≠ [] := by
  unfold folderParts
  cases hname : plainName n with
  | nil =>
    rw [hname] at h
    cases h
  | cons c s =>
    rw [hname] at h
    have hc : c ≠ '.' := by
      rintro rfl
      cases h
    obtain ⟨p, ps, hpieces⟩ := List.exists_cons_of_ne_nil (Text.splitOn_ne_nil '.' s)
    rw [splitOn, if_neg hc, hpieces]
    simp

/-- The parts of a unit's name are words. -/
theorem IsUnitName.isWord_of_mem_folderParts {n part : String} (h : IsUnitName n)
    (hpart : part ∈ folderParts n) : ∀ c ∈ part.toList, Source.isWord c = true := by
  obtain ⟨piece, hpiece, hsome⟩ := List.mem_filterMap.1 hpart
  split at hsome
  · cases hsome
  cases hsome
  rw [String.toList_ofList]
  intro c hc
  obtain ⟨hmem, hdot⟩ := Text.of_mem_splitOn hpiece c hc
  have hqualified := h c hmem
  rw [isQualified, Bool.or_eq_true, beq_iff_eq] at hqualified
  exact hqualified.resolve_right hdot

/-- The parts of a unit's name are names of folders, without dots and slashes. -/
theorem IsUnitName.of_mem_folderParts {n part : String} (h : IsUnitName n)
    (hpart : part ∈ folderParts n) :
    Disk.Ordinary part ∧ '.' ∉ part.toList ∧ '/' ∉ part.toList := by
  obtain ⟨piece, hpiece, hsome⟩ := List.mem_filterMap.1 hpart
  split at hsome
  · cases hsome
  rename_i hne
  cases hsome
  have hmem := Text.of_mem_splitOn hpiece
  rw [String.toList_ofList]
  have hdot : '.' ∉ piece := fun hm => (hmem _ hm).2 rfl
  have hnot : ∀ s : String, s = "" ∨ '.' ∈ s.toList → String.ofList piece ≠ s := by
    rintro s hs rfl
    rcases hs with hs | hs
    · exact hne (by simpa using congrArg String.toList hs)
    · exact hdot (by simpa using hs)
  refine ⟨⟨?_, hnot _ (.inr (by decide))⟩, hdot, fun hm => h.not_mem rfl (hmem _ hm).1⟩
  rintro (heq | heq)
  · exact hnot _ (.inl rfl) heq
  · exact hnot _ (.inr (by decide)) heq

end Decompilation.Project
