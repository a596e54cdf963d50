import Mathlib

/-!
# Texts of bytes

Three conversions between bytes and text that Rust libraries make and that messages and labels
of a model read:

* `Utf8.validate`: the check of `core::str::from_utf8`, with the `Utf8Error` it reports (the
  valid prefix, and the length of the bad sequence or none for a cut-off one) and its texts;
* `debugBytes`: the `Debug` text of a byte vector;
* `crc32`: the CRC-32 (IEEE) checksum of `crc32fast::hash`;
* `base32`: RFC 4648 base32 without padding, in lower case, and `groupsOf5`, its text cut into
  groups of five characters joined by dashes.
-/

namespace Utf8

/-- `Utf8Error`: the valid prefix's length, and the invalid sequence's, if complete. -/
structure Utf8Error where
  validUpTo : ℕ
  errorLen : Option ℕ
  deriving DecidableEq, Repr

/-- The `Display` text of `Utf8Error`, which `FromUtf8Error` shows too. -/
def Utf8Error.toString (e : Utf8Error) : String :=
  match e.errorLen with
  | some len => "invalid utf-8 sequence of " ++ Nat.repr len ++ " bytes from index " ++
      Nat.repr e.validUpTo
  | none => "incomplete utf-8 byte sequence from index " ++ Nat.repr e.validUpTo

/-- `utf8_char_width`: the length of the sequence a first byte starts, or zero. -/
def charWidth (b : UInt8) : ℕ :=
  if b < 0x80 then 1 else if b < 0xC2 then 0 else if b < 0xE0 then 2
  else if b < 0xF0 then 3 else if b < 0xF5 then 4 else 0

/-- A continuation byte, `0x80..=0xBF` (`(b as i8) < -64`). -/
def isCont (b : UInt8) : Bool := 0x80 ≤ b && b < 0xC0

/-- The second bytes allowed after the first byte of a three-byte sequence. -/
def second3 (first b : UInt8) : Bool :=
  (first = 0xE0 && 0xA0 ≤ b && b ≤ 0xBF) || (0xE1 ≤ first && first ≤ 0xEC && isCont b) ||
    (first = 0xED && 0x80 ≤ b && b ≤ 0x9F) || (0xEE ≤ first && first ≤ 0xEF && isCont b)

/-- The second bytes allowed after the first byte of a four-byte sequence. -/
def second4 (first b : UInt8) : Bool :=
  (first = 0xF0 && 0x90 ≤ b && b ≤ 0xBF) || (0xF1 ≤ first && first ≤ 0xF3 && isCont b) ||
    (first = 0xF4 && 0x80 ≤ b && b ≤ 0x8F)

/-- `run_utf8_validation` from byte `offset` on. -/
def validate (offset : ℕ) : List UInt8 → Except Utf8Error Unit
  | [] => .ok ()
  | first :: rest =>
    let err (len : Option ℕ) : Except Utf8Error Unit := .error ⟨offset, len⟩
    if first < 0x80 then validate (offset + 1) rest
    else match charWidth first, rest with
      | 2, [] => err none
      | 2, b1 :: rest => if isCont b1 then validate (offset + 2) rest else err (some 1)
      | 3, [] => err none
      | 3, [b1] => if second3 first b1 then err none else err (some 1)
      | 3, b1 :: b2 :: rest =>
        if !second3 first b1 then err (some 1)
        else if !isCont b2 then err (some 2)
        else validate (offset + 3) rest
      | 4, [] => err none
      | 4, [b1] => if second4 first b1 then err none else err (some 1)
      | 4, [b1, b2] =>
        if !second4 first b1 then err (some 1)
        else if !isCont b2 then err (some 2)
        else err none
      | 4, b1 :: b2 :: b3 :: rest =>
        if !second4 first b1 then err (some 1)
        else if !isCont b2 then err (some 2)
        else if !isCont b3 then err (some 3)
        else validate (offset + 4) rest
      | _, _ => err (some 1)

/-- Valid UTF-8: `String::from_utf8` accepts the bytes. -/
def IsValid (bytes : List UInt8) : Prop := validate 0 bytes = .ok ()

instance (bytes : List UInt8) : Decidable (IsValid bytes) :=
  inferInstanceAs (Decidable (validate 0 bytes = .ok ()))

example : IsValid [0x74, 0xC3, 0xA9] ∧ validate 0 [0x74, 0xE0, 0x80] = .error ⟨1, some 1⟩ ∧
    validate 0 [0xF0, 0x9F, 0x98] = .error ⟨0, none⟩ := by decide

/-- The `Debug` text of `Utf8Error`, which `Result::expect` appends to its message. -/
def Utf8Error.debug (e : Utf8Error) : String :=
  let len := match e.errorLen with
    | some len => "Some(" ++ Nat.repr len ++ ")"
    | none => "None"
  "Utf8Error \x7b valid_up_to: " ++ Nat.repr e.validUpTo ++ ", error_len: " ++ len ++ " \x7d"

/-- `core::str::from_utf8`: the text the bytes spell, or the error. -/
def fromUtf8 (bytes : List UInt8) : Except Utf8Error String :=
  match validate 0 bytes with
  | .ok () => .ok (String.fromUTF8! ⟨bytes.toArray⟩)
  | .error e => .error e

end Utf8

/-- The `Debug` text of a `Vec<u8>`: its bytes in decimal, in brackets. -/
def debugBytes (bytes : List UInt8) : String :=
  "[" ++ ", ".intercalate (bytes.map fun b => Nat.repr b.toNat) ++ "]"

/-! ## CRC-32 and base32 -/

/-- Eight shifts of the reflected CRC-32 register, with the polynomial `0xEDB88320`. -/
def crc32Shift : ℕ → UInt32 → UInt32
  | 0, c => c
  | n + 1, c => crc32Shift n (if c &&& 1 = 1 then (c >>> 1) ^^^ 0xEDB88320 else c >>> 1)

/-- `crc32fast::hash`: CRC-32 (IEEE). -/
def crc32 (bytes : List UInt8) : UInt32 :=
  bytes.foldl (fun c b => crc32Shift 8 (c ^^^ b.toUInt32)) 0xFFFFFFFF ^^^ 0xFFFFFFFF

/-- The bits of the bytes, high bit first. -/
def bitsOf (bytes : List UInt8) : List Bool :=
  bytes.flatMap fun b => (List.range 8).reverse.map fun i => b.toNat.testBit i

/-- The bits cut into groups of five, the last one perhaps shorter. -/
def groups5 : List Bool → List (List Bool)
  | a :: b :: c :: d :: e :: rest => [a, b, c, d, e] :: groups5 rest
  | [] => []
  | rest => [rest]

/-- The lower-case base32 alphabet. -/
def base32Alphabet : List Char := "abcdefghijklmnopqrstuvwxyz234567".toList

/-- The character of five bits, a short group padded with zero bits on the right. -/
def base32Char (bits : List Bool) : Char :=
  let v := bits.foldl (fun n bit => 2 * n + if bit then 1 else 0) 0
  base32Alphabet.getD (v * 2 ^ (5 - bits.length)) 'a'

/-- Base32 without padding, in lower case. -/
def base32 (bytes : List UInt8) : List Char := (groups5 (bitsOf bytes)).map base32Char

/-- A text cut into groups of five characters joined by dashes. -/
def groupsOf5 : List Char → List Char
  | a :: b :: c :: d :: e :: f :: rest => a :: b :: c :: d :: e :: '-' :: groupsOf5 (f :: rest)
  | rest => rest
