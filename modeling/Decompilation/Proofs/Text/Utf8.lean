import Decompilation.Text.Utf8
import Mathlib.Data.List.Basic

/-!
# Texts read back from their bytes

A character is read off the head of the bytes that encode it (`exists_head`), so a text that is
written is read back (`decodeLenient_encode`).
-/

namespace Decompilation.Text.Utf8

theorem following?_eq (b : UInt8) : following? b =
    if b.toNat < 0x80 then some (0, 0x80, 0xBF)
    else if b.toNat < 0xC2 then none
    else if b.toNat < 0xE0 then some (1, 0x80, 0xBF)
    else if b.toNat = 0xE0 then some (2, 0xA0, 0xBF)
    else if b.toNat = 0xED then some (2, 0x80, 0x9F)
    else if b.toNat < 0xF0 then some (2, 0x80, 0xBF)
    else if b.toNat = 0xF0 then some (3, 0x90, 0xBF)
    else if b.toNat < 0xF4 then some (3, 0x80, 0xBF)
    else if b.toNat = 0xF4 then some (3, 0x80, 0x8F)
    else none := by
  simp only [following?, UInt8.lt_iff_toNat_lt, ← UInt8.toNat_inj]
  rfl

/-- A byte with the last six bits of a number, as it follows the first byte of a character. -/
def tailByte (n : Nat) : UInt8 := UInt8.ofNat (n % 64 + 128)

theorem toNat_tailByte (n : Nat) : (tailByte n).toNat = n % 64 + 128 := by
  rw [tailByte, UInt8.toNat_ofNat']
  omega

theorem continuing_zero (low high : UInt8) (bs : List UInt8) : continuing 0 low high bs = 0 := by
  cases bs <;> rfl

theorem continuing_tailByte {n : Nat} {low high : UInt8} {first : Nat} {bs : List UInt8}
    (hlow : low.toNat ≤ first % 64 + 128) (hhigh : first % 64 + 128 ≤ high.toNat) :
    continuing (n + 1) low high (tailByte first :: bs) = continuing n 0x80 0xBF bs + 1 := by
  rw [continuing]
  refine if_pos ⟨UInt8.le_iff_toNat_le.2 ?_, UInt8.le_iff_toNat_le.2 ?_⟩
  · rwa [toNat_tailByte]
  · rwa [toNat_tailByte]

/-- All bytes behind the first one continue it, if the second one is in its range. -/
theorem continuing_map_tailByte {low high : UInt8} {first : Nat} (hlow : low.toNat ≤ first % 64 + 128)
    (hhigh : first % 64 + 128 ≤ high.toNat) (others : List Nat) (rest : List UInt8) :
    continuing (others.length + 1) low high ((first :: others).map tailByte ++ rest) =
      others.length + 1 := by
  induction others generalizing low high first with
  | nil => rw [List.map_cons, List.cons_append, List.length_nil, continuing_tailByte hlow hhigh,
      continuing_zero]
  | cons second others ih =>
    rw [List.map_cons, List.cons_append, List.length_cons, continuing_tailByte hlow hhigh, ih]
    · change 128 ≤ _
      omega
    · change _ ≤ 191
      omega

/-- A character is read off its bytes, whatever follows. -/
theorem head_of_bytes {c : Char} {b low high : UInt8} {bytes : List UInt8}
    (hfollowing : following? b = some (bytes.length, low, high))
    (hcontinuing : ∀ rest, continuing bytes.length low high (bytes ++ rest) = bytes.length)
    (hcombine : combine bytes.length b bytes = c.toNat) (rest : List UInt8) :
    head b (bytes ++ rest) = .char c (bytes.length + 1) := by
  rw [head, hfollowing]
  simp only [hcontinuing, if_true, List.take_left, hcombine, Char.ofNat_toNat]

/-- A character of several bytes, by its number: the first byte gives the range of the second one. -/
theorem head_of_tailBytes {c : Char} {b low high : UInt8} {first : Nat} {others : List Nat}
    (hfollowing : following? b = some (others.length + 1, low, high))
    (hlow : low.toNat ≤ first % 64 + 128) (hhigh : first % 64 + 128 ≤ high.toNat)
    (hcombine : combine (others.length + 1) b ((first :: others).map tailByte) = c.toNat)
    (rest : List UInt8) : head b ((first :: others).map tailByte ++ rest) =
      .char c (((first :: others).map tailByte).length + 1) := by
  have hlen : ((first :: others).map tailByte).length = others.length + 1 := by simp
  have hfollowing' : following? b = some (((first :: others).map tailByte).length, low, high) := by
    rw [hlen, hfollowing]
  refine head_of_bytes hfollowing' (fun rest => ?_) ?_ rest
  · rw [hlen, continuing_map_tailByte hlow hhigh]
  · rw [hlen, hcombine]

/-- The second of three bytes is in the range that the first one gives it: after `E0` and `ED` that leaves
out overlong forms and surrogates. -/
theorem exists_following_three {v : Nat} (hlow : 2047 < v) (hhigh : v ≤ 65535)
    (hvalid : v < 0xD800 ∨ 0xDFFF < v) : ∃ low high : UInt8,
    following? (UInt8.ofNat (v / 4096 % 16 + 224)) = some (2, low, high) ∧
      low.toNat ≤ v / 64 % 64 + 128 ∧ v / 64 % 64 + 128 ≤ high.toNat := by
  have hb : (UInt8.ofNat (v / 4096 % 16 + 224)).toNat = v / 4096 + 224 := by
    rw [UInt8.toNat_ofNat']
    omega
  rw [following?_eq, hb, if_neg (by omega), if_neg (by omega), if_neg (by omega)]
  by_cases hfirst : v / 4096 + 224 = 0xE0
  · refine ⟨0xA0, 0xBF, if_pos hfirst, ?_, ?_⟩
    · change 160 ≤ _
      omega
    · change _ ≤ 191
      omega
  rw [if_neg hfirst]
  by_cases hlast : v / 4096 + 224 = 0xED
  · refine ⟨0x80, 0x9F, if_pos hlast, ?_, ?_⟩
    · change 128 ≤ _
      omega
    · change _ ≤ 159
      omega
  · rw [if_neg hlast, if_pos (by omega)]
    refine ⟨0x80, 0xBF, rfl, ?_, ?_⟩
    · change 128 ≤ _
      omega
    · change _ ≤ 191
      omega

/-- The second of four bytes is in the range that the first one gives it: after `F0` and `F4` that leaves
out overlong forms and what is above U+10FFFF. -/
theorem exists_following_four {v : Nat} (hlow : 65535 < v) (hhigh : v < 0x110000) :
    ∃ low high : UInt8, following? (UInt8.ofNat (v / 262144 % 8 + 240)) = some (3, low, high) ∧
      low.toNat ≤ v / 4096 % 64 + 128 ∧ v / 4096 % 64 + 128 ≤ high.toNat := by
  have hb : (UInt8.ofNat (v / 262144 % 8 + 240)).toNat = v / 262144 + 240 := by
    rw [UInt8.toNat_ofNat']
    omega
  rw [following?_eq, hb, if_neg (by omega), if_neg (by omega), if_neg (by omega),
    if_neg (by omega), if_neg (by omega), if_neg (by omega)]
  by_cases hfirst : v / 262144 + 240 = 0xF0
  · refine ⟨0x90, 0xBF, if_pos hfirst, ?_, ?_⟩
    · change 144 ≤ _
      omega
    · change _ ≤ 191
      omega
  rw [if_neg hfirst]
  by_cases hlast : v / 262144 + 240 < 0xF4
  · refine ⟨0x80, 0xBF, if_pos hlast, ?_, ?_⟩
    · change 128 ≤ _
      omega
    · change _ ≤ 191
      omega
  · rw [if_neg hlast, if_pos (by omega)]
    refine ⟨0x80, 0x8F, rfl, ?_, ?_⟩
    · change 128 ≤ _
      omega
    · change _ ≤ 143
      omega

/-- A character is read off the head of its bytes. -/
theorem exists_head (c : Char) : ∃ b bytes, String.utf8EncodeChar c = b :: bytes ∧
    ∀ rest, head b (bytes ++ rest) = .char c (bytes.length + 1) := by
  have hvalid : c.toNat < 0xD800 ∨ 0xDFFF < c.toNat ∧ c.toNat < 0x110000 := c.valid
  have hencode := String.utf8EncodeChar.eq_def c
  have hnat : c.val.toNat = c.toNat := rfl
  simp only [hnat] at hencode
  generalize hv : c.toNat = v at hencode hvalid
  split at hencode
  · have hfollowing : following? (UInt8.ofNat v) = some (0, 0x80, 0xBF) := by
      rw [following?_eq, UInt8.toNat_ofNat', if_pos (by omega)]
    refine ⟨_, [], hencode, head_of_bytes hfollowing (fun rest => continuing_zero _ _ _) ?_⟩
    simp only [combine, List.foldl_nil, List.length_nil, UInt8.toNat_ofNat']
    omega
  split at hencode
  · have hfollowing : following? (UInt8.ofNat (v / 64 % 32 + 192)) = some (1, 0x80, 0xBF) := by
      rw [following?_eq, UInt8.toNat_ofNat', if_neg (by omega), if_neg (by omega), if_pos (by omega)]
    refine ⟨_, [v].map tailByte, hencode, head_of_tailBytes hfollowing ?_ ?_ ?_⟩
    · change 128 ≤ _
      omega
    · change _ ≤ 191
      omega
    · simp only [combine, List.map_cons, List.map_nil, List.foldl_cons, List.foldl_nil,
        List.length_nil, toNat_tailByte, UInt8.toNat_ofNat', hv]
      omega
  split at hencode
  · obtain ⟨low, high, hfollowing, hlow, hhigh⟩ :=
      exists_following_three (by omega) (by omega) (by omega : v < 0xD800 ∨ 0xDFFF < v)
    refine ⟨_, [v / 64, v].map tailByte, hencode, head_of_tailBytes hfollowing hlow hhigh ?_⟩
    simp only [combine, List.map_cons, List.map_nil, List.foldl_cons, List.foldl_nil,
      List.length_cons, List.length_nil, toNat_tailByte, UInt8.toNat_ofNat', hv]
    omega
  · obtain ⟨low, high, hfollowing, hlow, hhigh⟩ :=
      exists_following_four (by omega) (by omega : v < 0x110000)
    refine ⟨_, [v / 4096, v / 64, v].map tailByte, hencode,
      head_of_tailBytes hfollowing hlow hhigh ?_⟩
    simp only [combine, List.map_cons, List.map_nil, List.foldl_cons, List.foldl_nil,
      List.length_cons, List.length_nil, toNat_tailByte, UInt8.toNat_ofNat', hv]
    omega

theorem exists_encode_cons (c : Char) (s : List Char) : ∃ b bytes,
    encode (c :: s) = b :: (bytes ++ encode s) ∧
      head b (bytes ++ encode s) = .char c (bytes.length + 1) := by
  obtain ⟨b, bytes, hbytes, hhead⟩ := exists_head c
  refine ⟨b, bytes, ?_, hhead _⟩
  rw [encode, List.flatMap_cons, hbytes]
  rfl

/-- A text is read back from its bytes. -/
theorem decodeLenient_encode (s : List Char) : decodeLenient (encode s) = s := by
  induction s with
  | nil => rw [encode, List.flatMap_nil, decodeLenient]
  | cons c s ih =>
    obtain ⟨b, bytes, hencode, hhead⟩ := exists_encode_cons c s
    rw [hencode, decodeLenient, hhead]
    simp only [Head.skip, Nat.add_sub_cancel, List.drop_left, ih]

theorem decodeFrom_encode (position : Nat) (s : List Char) :
    decodeFrom position (encode s) = .ok s := by
  induction s generalizing position with
  | nil => rw [encode, List.flatMap_nil, decodeFrom]
  | cons c s ih =>
    obtain ⟨b, bytes, hencode, hhead⟩ := exists_encode_cons c s
    rw [hencode, decodeFrom, hhead]
    simp only [Nat.add_sub_cancel, List.drop_left, ih]
    rfl

/-- There is no fault in the bytes of a text. -/
theorem decode_encode (s : List Char) : decode (encode s) = .ok s := decodeFrom_encode 0 s

end Decompilation.Text.Utf8
