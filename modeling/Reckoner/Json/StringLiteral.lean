import Reckoner.Text.Character

/-!
# The inside of JSON strings

`encode` writes a text between double quotes with the fewest escapes: the quote, the backslash and
the control characters below the space.  `decode` reads every escape of the format; escapes by
code are 16-bit units, of which a high and a low surrogate make one character and a surrogate alone
makes none.
-/

namespace Reckoner
namespace Json
namespace StringLiteral

/-- One character as it is written inside a string. -/
def encodeChar (c : Char) : List Char :=
  if c = '"' then ['\\', '"']
  else if c = '\\' then ['\\', '\\']
  else if c = '\x08' then ['\\', 'b']
  else if c = '\t' then ['\\', 't']
  else if c = '\n' then ['\\', 'n']
  else if c = '\x0c' then ['\\', 'f']
  else if c = '\r' then ['\\', 'r']
  else if c.toNat < 0x20 then '\\' :: 'u' :: Text.hex 4 c.toNat
  else [c]

/-- The inside of a string. -/
def encode (text : List Char) : List Char := text.flatMap encodeChar

/-- A character, or a 16-bit unit written by its code. -/
inductive Piece where
  | char (c : Char)
  | unit (n : Nat)
  deriving DecidableEq

/-- The value of a hexadecimal digit. -/
def hexValue? (c : Char) : Option Nat :=
  if '0' ≤ c ∧ c ≤ '9' then some (c.toNat - '0'.toNat)
  else if 'a' ≤ c ∧ c ≤ 'f' then some (c.toNat - 'a'.toNat + 10)
  else if 'A' ≤ c ∧ c ≤ 'F' then some (c.toNat - 'A'.toNat + 10)
  else none

/-- The value of four hexadecimal digits. -/
def unit? (a b c d : Char) : Option Nat := do
  return (((← hexValue? a) * 16 + (← hexValue? b)) * 16 + (← hexValue? c)) * 16 + (← hexValue? d)

/-- The character that a one-letter escape stands for. -/
def shortEscape? : Char → Option Char
  | '"' => some '"'
  | '\\' => some '\\'
  | '/' => some '/'
  | 'b' => some '\x08'
  | 'f' => some '\x0c'
  | 'n' => some '\n'
  | 'r' => some '\r'
  | 't' => some '\t'
  | _ => none

/-- Reads the escapes of a string. -/
def pieces : List Char → Option (List Piece)
  | [] => some []
  | '\\' :: 'u' :: a :: b :: c :: d :: rest =>
    (unit? a b c d).bind fun n => (pieces rest).map (.unit n :: ·)
  | '\\' :: e :: rest => (shortEscape? e).bind fun c => (pieces rest).map (.char c :: ·)
  | c :: rest =>
    if c.toNat < 0x20 ∨ c = '"' ∨ c = '\\' then none
    else (pieces rest).map (.char c :: ·)

/-- Whether a unit is the first half of a character. -/
def isHighSurrogate (n : Nat) : Bool := decide (0xd800 ≤ n) && decide (n < 0xdc00)

/-- Whether a unit is the second half of a character. -/
def isLowSurrogate (n : Nat) : Bool := decide (0xdc00 ≤ n) && decide (n < 0xe000)

/-- Puts surrogate pairs together. -/
def join : List Piece → Option (List Char)
  | [] => some []
  | .char c :: rest => (join rest).map (c :: ·)
  | .unit m :: .unit n :: rest =>
    if isHighSurrogate m then
      if isLowSurrogate n then
        (join rest).map (Char.ofNat (0x10000 + (m - 0xd800) * 0x400 + (n - 0xdc00)) :: ·)
      else none
    else if isLowSurrogate m then none
    else (join (.unit n :: rest)).map (Char.ofNat m :: ·)
  | .unit m :: rest =>
    if isHighSurrogate m || isLowSurrogate m then none
    else (join rest).map (Char.ofNat m :: ·)

/-- Reads the inside of a string. -/
def decode (text : List Char) : Option (List Char) := (pieces text).bind join

end StringLiteral
end Json
end Reckoner
