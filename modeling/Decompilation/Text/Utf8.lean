/-!
# UTF-8

`encode` writes a text as bytes. `Sequence.next?` takes one encoded character off a list of bytes,
or tells how many bytes make up the longest beginning of a character there and what is wrong with
it. On it stand a strict reader, which refuses at the first fault, and a lenient one, which puts
U+FFFD in the place of each faulty run.
-/

namespace Decompilation.Text.Utf8

def encode (s : List Char) : List UInt8 := s.flatMap String.utf8EncodeChar

/-- What is wrong with a run of bytes that encodes no character. -/
inductive Flaw where
  | start
  | continuation
  | truncated
  deriving DecidableEq, Repr

def Flaw.text : Flaw → String
  | .start => "invalid start byte"
  | .continuation => "invalid continuation byte"
  | .truncated => "unexpected end of data"

/-- How many bytes follow a first byte, and the range of the second one; `none` if no character
starts with it. The range excludes overlong forms, surrogates and numbers above U+10FFFF. -/
def following? (b : UInt8) : Option (Nat × UInt8 × UInt8) :=
  if b < 0x80 then some (0, 0x80, 0xBF)
  else if b < 0xC2 then none
  else if b < 0xE0 then some (1, 0x80, 0xBF)
  else if b = 0xE0 then some (2, 0xA0, 0xBF)
  else if b = 0xED then some (2, 0x80, 0x9F)
  else if b < 0xF0 then some (2, 0x80, 0xBF)
  else if b = 0xF0 then some (3, 0x90, 0xBF)
  else if b < 0xF4 then some (3, 0x80, 0xBF)
  else if b = 0xF4 then some (3, 0x80, 0x8F)
  else none

/-- How many leading bytes continue a character, when at most `count` are wanted and the first of
them must lie between `low` and `high`. -/
def continuing (count : Nat) (low high : UInt8) : List UInt8 → Nat
  | [] => 0
  | b :: bs =>
    match count with
    | 0 => 0
    | n + 1 => if low ≤ b ∧ b ≤ high then continuing n 0x80 0xBF bs + 1 else 0

/-- The value of a character from its first byte and the `count` bytes behind it. -/
def combine (count : Nat) (first : UInt8) (others : List UInt8) : Nat :=
  let top := match count with
    | 0 => first.toNat
    | 1 => first.toNat % 0x20
    | 2 => first.toNat % 0x10
    | _ => first.toNat % 0x08
  others.foldl (fun n b => 0x40 * n + b.toNat % 0x40) top

/-- What stands at the head of a list of bytes: a character of `length` bytes, or a flaw that
spoils `length` bytes. -/
inductive Head where
  | char (c : Char) (length : Nat)
  | flawed (flaw : Flaw) (length : Nat)
  deriving Repr

/-- Reads the head of a non-empty list of bytes. -/
def head (b : UInt8) (bs : List UInt8) : Head :=
  match following? b with
  | none => .flawed .start 1
  | some (count, low, high) =>
    let n := continuing count low high bs
    if n = count then .char (Char.ofNat (combine count b (bs.take n))) (n + 1)
    else if n = bs.length then .flawed .truncated (n + 1)
    else .flawed .continuation (n + 1)

def replacement : Char := '\uFFFD'

/-- The number of bytes of a head, which is never zero; `skip` is that number less one. -/
def Head.skip : Head → Nat
  | .char _ n => n - 1
  | .flawed _ n => n - 1

/-- The text of a list of bytes, with U+FFFD for each faulty run. -/
def decodeLenient : List UInt8 → List Char
  | [] => []
  | b :: bs =>
    let h := head b bs
    (match h with | .char c _ => c | .flawed _ _ => replacement) :: decodeLenient (bs.drop h.skip)
  termination_by bytes => bytes.length
  decreasing_by simp only [List.length_cons, List.length_drop]; omega

/-- Why a list of bytes is no text: the flaw, where it starts, the bytes it spoils. -/
structure Fault where
  flaw : Flaw
  position : Nat
  bytes : List UInt8
  deriving DecidableEq, Repr

/-- The text of a list of bytes that starts at `position`, or the first fault. -/
def decodeFrom (position : Nat) : List UInt8 → Except Fault (List Char)
  | [] => .ok []
  | b :: bs =>
    match head b bs with
    | .char c n => (decodeFrom (position + n) (bs.drop (n - 1))).map (c :: ·)
    | .flawed flaw n => .error ⟨flaw, position, (b :: bs).take n⟩
  termination_by bytes => bytes.length
  decreasing_by simp only [List.length_cons, List.length_drop]; omega

def decode (bytes : List UInt8) : Except Fault (List Char) := decodeFrom 0 bytes

end Decompilation.Text.Utf8
