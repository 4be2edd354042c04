import Mathlib.Data.List.Basic
import Decompilation.Proofs.Text.Lines
import Decompilation.Path

/-!
# Texts of paths

A path has no shorter text than the folder that it lies in, and segments without slashes can be read
off their text (`segmentText_inj`). A path that is read from a text is read again from its own text
(`ofString_toString`). But for slashes and dots a path and its text are of the same characters
(`mem_toString`, `mem_ofString`).
-/

namespace Decompilation.Path

variable {p root : Path} {segments segments' : List String} {name : String}

theorem segmentText_concat (hne : segments ≠ []) (name : String) :
    segmentText (segments ++ [name]) = segmentText segments ++ "/" ++ name := by
  rw [segmentText, String.intercalate_append_of_ne_nil hne (by simp), String.intercalate_singleton]
  rfl

theorem utf8ByteSize_segmentText_le (segments : List String) (name : String) :
    (segmentText segments).utf8ByteSize ≤ (segmentText (segments ++ [name])).utf8ByteSize := by
  by_cases hne : segments = []
  · rw [hne]
    exact Nat.zero_le _
  · rw [segmentText_concat hne, String.utf8ByteSize_append, String.utf8ByteSize_append]
    omega

/-- The text of a path is not shorter than that of the folder that the path lies in. -/
theorem utf8ByteSize_toString_le (hanchor : p.isAnchored = true) (name : String) :
    p.toString.utf8ByteSize ≤ (p.child name).toString.utf8ByteSize := by
  obtain ⟨anchor, segments⟩ := p
  have hle := utf8ByteSize_segmentText_le segments name
  cases anchor with
  | here => cases hanchor
  | root | doubleRoot =>
    simp only [toString, child, String.utf8ByteSize_append]
    omega

theorem toList_segmentText (segments : List String) :
    (segmentText segments).toList = ['/'].intercalate (segments.map String.toList) := by
  rw [segmentText, String.toList_intercalate]
  rfl

theorem splitOn_segmentText (hne : segments ≠ []) (h : ∀ s ∈ segments, '/' ∉ s.toList) :
    (segmentText segments).toList.splitOn '/' = segments.map String.toList := by
  rw [toList_segmentText, List.splitOn_intercalate]
  · exact List.forall_mem_map.2 h
  · simpa using hne

/-- Segments without slashes can be read off their text. -/
theorem segmentText_inj (hne : segments ≠ []) (hne' : segments' ≠ [])
    (h : ∀ s ∈ segments, '/' ∉ s.toList) (h' : ∀ s ∈ segments', '/' ∉ s.toList)
    (htext : segmentText segments = segmentText segments') : segments = segments' := by
  apply List.map_injective_iff.2 (fun _ _ => String.toList_inj.1)
  rw [← splitOn_segmentText hne h, ← splitOn_segmentText hne' h', htext]

/-! ## Paths that are read from texts -/

/-- A segment that a text can have: not left out in reading, and no two segments in one. -/
def IsSegment (s : String) : Prop := s ≠ "" ∧ s ≠ "." ∧ '/' ∉ s.toList

/-- A path that a text can be read as. -/
def Canonical (p : Path) : Prop := ∀ s ∈ p.segments, IsSegment s

instance : DecidablePred IsSegment := fun s =>
  inferInstanceAs (Decidable (s ≠ "" ∧ s ≠ "." ∧ '/' ∉ s.toList))

instance : DecidablePred Canonical := fun p =>
  inferInstanceAs (Decidable (∀ s ∈ p.segments, IsSegment s))

theorem canonical_ofString (s : String) : (ofString s).Canonical := by
  intro t ht
  obtain ⟨hpiece, hkept⟩ := List.mem_filter.1 ht
  rw [Bool.and_eq_true, bne_iff_ne, bne_iff_ne] at hkept
  obtain ⟨piece, hmem, rfl⟩ := List.mem_map.1 hpiece
  refine ⟨hkept.1, hkept.2, fun hslash => ?_⟩
  rw [String.toList_ofList] at hslash
  exact (Text.of_mem_splitOn hmem _ hslash).2 rfl

theorem Canonical.child (h : p.Canonical) (hname : IsSegment name) : (p.child name).Canonical := by
  intro s hs
  rcases List.mem_append.1 hs with hs | hs
  · exact h s hs
  · rwa [List.mem_singleton.1 hs]

theorem Canonical.joinText (h : p.Canonical) (s : String) : (p / s).Canonical := by
  intro t ht
  change t ∈ (p.join (ofString s)).segments at ht
  unfold join at ht
  split at ht
  · exact canonical_ofString s t ht
  · rcases List.mem_append.1 ht with ht | ht
    · exact h t ht
    · exact canonical_ofString s t ht

theorem pieces_segmentText (hne : segments ≠ []) (h : ∀ s ∈ segments, IsSegment s) :
    Text.pieces '/' (segmentText segments) = segments := by
  rw [Text.pieces, Text.splitOn_eq, splitOn_segmentText hne fun s hs => (h s hs).2.2, List.map_map]
  simp

theorem filter_segments (h : ∀ s ∈ segments, IsSegment s) :
    segments.filter (fun s => s != "" && s != ".") = segments := by
  apply List.filter_eq_self.2
  intro s hs
  rw [Bool.and_eq_true, bne_iff_ne, bne_iff_ne]
  exact ⟨(h s hs).1, (h s hs).2.1⟩

theorem segmentsOf_segmentText (h : ∀ s ∈ segments, IsSegment s) :
    segmentsOf (segmentText segments) = segments := by
  by_cases hne : segments = []
  · rw [hne]
    rfl
  · rw [segmentsOf, pieces_segmentText hne h, filter_segments h]

theorem takeWhile_segmentText (h : ∀ s ∈ segments, IsSegment s) :
    (segmentText segments).toList.takeWhile (· == '/') = [] := by
  cases segments with
  | nil => rfl
  | cons s rest =>
    obtain ⟨hne, -, hslash⟩ := h s (List.mem_cons_self ..)
    obtain ⟨c, r, hs⟩ := List.exists_cons_of_ne_nil fun hnil => hne (String.toList_eq_nil_iff.1 hnil)
    have hc : c ≠ '/' := by
      rintro rfl
      simp [hs] at hslash
    have htext : ∃ t, (segmentText (s :: rest)).toList = c :: t := by
      rw [toList_segmentText, List.map_cons, hs]
      cases rest with
      | nil => exact ⟨r, by simp⟩
      | cons s' rest => exact ⟨_, by simp [List.intercalate_cons_cons]; rfl⟩
    obtain ⟨t, ht⟩ := htext
    rw [ht, List.takeWhile_cons_of_neg (by simpa using hc)]

/-- A slash in front of a text adds an empty piece, which is left out. -/
theorem segmentsOf_slash (s : String) : segmentsOf ("/" ++ s) = segmentsOf s := by
  rw [segmentsOf, segmentsOf, Text.pieces, Text.pieces, String.toList_append]
  change ((Text.splitOn '/' ('/' :: s.toList)).map String.ofList).filter _ = _
  rw [Text.splitOn, if_pos rfl, List.map_cons]
  rfl

/-- The text of a path that a text can be read as is read as that path. -/
theorem ofString_toString (h : p.Canonical) : ofString p.toString = p := by
  obtain ⟨anchor, segments⟩ := p
  have hsegments : segmentsOf (segmentText segments) = segments := segmentsOf_segmentText h
  have hslashes := takeWhile_segmentText h
  cases anchor with
  | here =>
    by_cases hne : segments = []
    · rw [hne]
      decide
    · have htext : toString ⟨.here, segments⟩ = segmentText segments := by simp [toString, hne]
      rw [htext, ofString, anchorOf, hslashes, hsegments]
      rfl
  | root =>
    have hanchor : anchorOf ('/' :: (segmentText segments).toList) = .root := by
      rw [anchorOf, List.takeWhile_cons_of_pos rfl, hslashes]
      rfl
    rw [toString, ofString, segmentsOf_slash, hsegments, String.toList_append]
    exact congrArg (Path.mk · segments) hanchor
  | doubleRoot =>
    have hanchor : anchorOf ('/' :: '/' :: (segmentText segments).toList) = .doubleRoot := by
      rw [anchorOf, List.takeWhile_cons_of_pos rfl, List.takeWhile_cons_of_pos rfl, hslashes]
      rfl
    have htext : toString ⟨.doubleRoot, segments⟩ = "/" ++ ("/" ++ segmentText segments) := by
      rw [toString, ← String.append_assoc]
      rfl
    rw [htext, ofString, segmentsOf_slash, segmentsOf_slash, hsegments, String.toList_append,
      String.toList_append]
    exact congrArg (Path.mk · segments) hanchor

/-! ## Characters -/

theorem mem_segmentText {c : Char} (h : c ∈ (segmentText segments).toList) :
    c = '/' ∨ ∃ s ∈ segments, c ∈ s.toList := by
  induction segments with
  | nil => simp [segmentText] at h
  | cons s rest ih =>
    rw [toList_segmentText, List.map_cons] at h
    cases rest with
    | nil => exact .inr ⟨s, by simp, by simpa using h⟩
    | cons s' rest =>
      rw [List.map_cons, List.intercalate_cons_cons, List.mem_append, List.mem_append,
        List.mem_singleton, ← List.map_cons, ← toList_segmentText] at h
      rcases h with (h | rfl) | h
      · exact .inr ⟨s, List.mem_cons_self .., h⟩
      · exact .inl rfl
      · refine (ih h).imp_right ?_
        rintro ⟨t, ht, hc⟩
        exact ⟨t, List.mem_cons_of_mem _ ht, hc⟩

theorem mem_toString {c : Char} (h : c ∈ p.toString.toList) :
    c = '/' ∨ c = '.' ∨ ∃ s ∈ p.segments, c ∈ s.toList := by
  obtain ⟨anchor, segments⟩ := p
  have htext : c = '/' ∨ c = '.' ∨ c ∈ (segmentText segments).toList := by
    cases anchor with
    | here =>
      dsimp only [toString] at h
      split at h
      · exact .inr (.inl (by simpa using h))
      · exact .inr (.inr h)
    | root | doubleRoot =>
      dsimp only [toString] at h
      rw [String.toList_append, List.mem_append] at h
      exact h.elim (fun h => .inl (by simpa using h)) fun h => .inr (.inr h)
  rcases htext with rfl | rfl | htext
  · exact .inl rfl
  · exact .inr (.inl rfl)
  · exact (mem_segmentText htext).imp_right .inr

theorem mem_ofString {c : Char} {s : String} (h : c ∈ s.toList) :
    c = '/' ∨ c = '.' ∨ ∃ t ∈ (ofString s).segments, c ∈ t.toList := by
  rw [← Text.joinWith_splitOn '/' s.toList] at h
  rcases Text.mem_joinWith h with h | ⟨piece, hpiece, hc⟩
  · exact .inl (List.mem_singleton.1 h)
  by_cases hdot : piece = ['.']
  · rw [hdot] at hc
    exact .inr (.inl (List.mem_singleton.1 hc))
  · refine .inr (.inr ⟨String.ofList piece, List.mem_filter.2 ⟨List.mem_map_of_mem hpiece, ?_⟩,
      by rwa [String.toList_ofList]⟩)
    rw [Bool.and_eq_true, bne_iff_ne, bne_iff_ne, ← String.toList_inj.ne, ← String.toList_inj.ne,
      String.toList_ofList]
    exact ⟨List.ne_nil_of_mem hc, hdot⟩

end Decompilation.Path
