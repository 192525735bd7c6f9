/-!
# Bytes as hexadecimal text

Two digits for each byte, the high one first.  Digits are written in lower case and read in either.

Reading looks at the text as bytes.  A text of odd length is refused before any digit is looked
at; otherwise the first byte that is not a digit is reported, with its position, as the character
of that number.
-/

namespace MessageMachine

namespace Hex

/-- The digit of a number below sixteen. -/
def digit (n : UInt8) : Char :=
  if n < 10 then Char.ofNat (48 + n.toNat) else Char.ofNat (87 + n.toNat)

def encodeByte (b : UInt8) : List Char := [digit (b >>> 4), digit (b &&& 15)]

/-- The text of a list of bytes. -/
def encode (bytes : List UInt8) : String := String.ofList (bytes.flatMap encodeByte)

/-- Why a text is not read. -/
inductive Complaint where
  | oddLength
  | badDigit (byte : UInt8) (position : Nat)
  deriving DecidableEq

/-- The number of a digit, given as the byte of its character. -/
def digitValue? (c : UInt8) : Option UInt8 :=
  if 48 ≤ c ∧ c ≤ 57 then some (c - 48)
  else if 65 ≤ c ∧ c ≤ 70 then some (c - 55)
  else if 97 ≤ c ∧ c ≤ 102 then some (c - 87)
  else none

/-- Reads digits two by two from `position` on. -/
def decodePairs (position : Nat) : List UInt8 → Except Complaint (List UInt8)
  | high :: low :: rest =>
    match digitValue? high, digitValue? low with
    | none, _ => .error (.badDigit high position)
    | some _, none => .error (.badDigit low (position + 1))
    | some h, some l => (decodePairs (position + 2) rest).map ((h <<< 4 ||| l) :: ·)
  | [_] => .error .oddLength
  | [] => .ok []

/-- The bytes that a text stands for. -/
def decode (text : String) : Except Complaint (List UInt8) :=
  let bytes := text.toUTF8.toList
  if bytes.length % 2 = 0 then decodePairs 0 bytes else .error .oddLength

/-- A character in quotes, with escapes for those that would not show. -/
def quoted (c : Char) : String :=
  let inner :=
    match c.toNat with
    | 0 => "\\0"
    | 9 => "\\t"
    | 10 => "\\n"
    | 13 => "\\r"
    | 39 => "\\'"
    | 92 => "\\\\"
    | n =>
      if n < 32 ∨ 127 ≤ n ∧ n ≤ 160 ∨ n = 173 then
        "\\u\x7b" ++ String.ofList (Nat.toDigits 16 n) ++ "\x7d"
      else c.toString
  "'" ++ inner ++ "'"

/-- The wording of a complaint. -/
def Complaint.message : Complaint → String
  | oddLength => "Odd number of digits"
  | badDigit byte position =>
    "Invalid character " ++ quoted (Char.ofNat byte.toNat) ++ " at position " ++ toString position

end Hex

end MessageMachine
