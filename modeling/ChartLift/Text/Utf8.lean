/-!
# UTF-8

Reading bytes as text and writing text as bytes. Reading stops at the first sequence that is
malformed and tells how many bytes of it could have been the start of a character.
-/

namespace ChartLift.Text

/-- The contents of a file. -/
abbrev Bytes := List UInt8

/-- Where bytes are no UTF-8. -/
inductive Utf8Fault where
  /-- A sequence of `count` bytes at an index that starts no character. -/
  | invalid (count index : Nat)
  /-- A sequence at an index that the bytes end in. -/
  | incomplete (index : Nat)
  deriving DecidableEq, Repr

/-- The fault in words. -/
def Utf8Fault.message : Utf8Fault → String
  | .invalid count index =>
    "invalid utf-8 sequence of " ++ toString count ++ " bytes from index " ++ toString index
  | .incomplete index => "incomplete utf-8 byte sequence from index " ++ toString index

namespace Utf8

/-- Bytes that continue a sequence. -/
def isTrail (b : UInt8) : Bool := decide (0x80 ≤ b) && decide (b ≤ 0xBF)

/-- How many bytes the sequence of a first byte has; none where no sequence begins with it. -/
def width (first : UInt8) : Nat :=
  if first < 0x80 then 1
  else if first < 0xC2 then 0
  else if first < 0xE0 then 2
  else if first < 0xF0 then 3
  else if first < 0xF5 then 4
  else 0

/-- Second bytes that may follow a first byte: neither overlong forms nor surrogates nor code points
beyond the last plane. -/
def isSecond (first b : UInt8) : Bool :=
  if first = 0xE0 then decide (0xA0 ≤ b) && decide (b ≤ 0xBF)
  else if first = 0xED then decide (0x80 ≤ b) && decide (b ≤ 0x9F)
  else if first = 0xF0 then decide (0x90 ≤ b) && decide (b ≤ 0xBF)
  else if first = 0xF4 then decide (0x80 ≤ b) && decide (b ≤ 0x8F)
  else isTrail b

/-- The six low bits of a continuing byte. -/
def low (b : UInt8) : Nat := b.toNat % 64

/-- The character of a sequence of two bytes. -/
def char2 (a b : UInt8) : Char := Char.ofNat (a.toNat % 32 * 64 + low b)

/-- The character of a sequence of three bytes. -/
def char3 (a b c : UInt8) : Char := Char.ofNat (a.toNat % 16 * 4096 + low b * 64 + low c)

/-- The character of a sequence of four bytes. -/
def char4 (a b c d : UInt8) : Char :=
  Char.ofNat (a.toNat % 8 * 262144 + low b * 4096 + low c * 64 + low d)

/-- The text that bytes write, the first of them standing at an index. -/
def decodeFrom (index : Nat) : Bytes → Except Utf8Fault (List Char)
  | [] => .ok []
  | a :: rest =>
    match width a with
    | 1 => (decodeFrom (index + 1) rest).map (Char.ofNat a.toNat :: ·)
    | 2 =>
      match rest with
      | [] => .error (.incomplete index)
      | b :: rest =>
        if !isSecond a b then .error (.invalid 1 index)
        else (decodeFrom (index + 2) rest).map (char2 a b :: ·)
    | 3 =>
      match rest with
      | [] => .error (.incomplete index)
      | [b] => .error (if isSecond a b then .incomplete index else .invalid 1 index)
      | b :: c :: rest =>
        if !isSecond a b then .error (.invalid 1 index)
        else if !isTrail c then .error (.invalid 2 index)
        else (decodeFrom (index + 3) rest).map (char3 a b c :: ·)
    | 4 =>
      match rest with
      | [] => .error (.incomplete index)
      | [b] => .error (if isSecond a b then .incomplete index else .invalid 1 index)
      | [b, c] =>
        .error (if !isSecond a b then .invalid 1 index
          else if isTrail c then .incomplete index else .invalid 2 index)
      | b :: c :: d :: rest =>
        if !isSecond a b then .error (.invalid 1 index)
        else if !isTrail c then .error (.invalid 2 index)
        else if !isTrail d then .error (.invalid 3 index)
        else (decodeFrom (index + 4) rest).map (char4 a b c d :: ·)
    | _ => .error (.invalid 1 index)

/-- The text that bytes write. -/
def decode (bytes : Bytes) : Except Utf8Fault (List Char) := decodeFrom 0 bytes

/-- The bytes of a character. -/
def encodeChar (c : Char) : Bytes :=
  let n := c.toNat
  if n < 0x80 then [UInt8.ofNat n]
  else if n < 0x800 then [UInt8.ofNat (0xC0 + n / 64), UInt8.ofNat (0x80 + n % 64)]
  else if n < 0x10000 then
    [UInt8.ofNat (0xE0 + n / 4096), UInt8.ofNat (0x80 + n / 64 % 64), UInt8.ofNat (0x80 + n % 64)]
  else
    [UInt8.ofNat (0xF0 + n / 262144), UInt8.ofNat (0x80 + n / 4096 % 64),
      UInt8.ofNat (0x80 + n / 64 % 64), UInt8.ofNat (0x80 + n % 64)]

/-- The bytes of a text. -/
def encode (text : List Char) : Bytes := text.flatMap encodeChar

/-- How many bytes a character takes. -/
def charWidth (c : Char) : Nat := (encodeChar c).length

/-- How many bytes a text takes. -/
def textWidth : List Char → Nat
  | [] => 0
  | c :: rest => charWidth c + textWidth rest

end Utf8

/-- The bytes of a text. -/
def bytes (text : String) : Bytes := Utf8.encode text.toList

end ChartLift.Text
