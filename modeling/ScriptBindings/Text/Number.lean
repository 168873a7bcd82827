/-!
# Numbers in texts

Digits of any base up to sixteen, and decimal numbers: a non-empty run of ASCII digits after an
optional sign, with nothing around it.
-/

namespace ScriptBindings.Text

/-- A hexadecimal digit. -/
def isHexDigit (c : Char) : Bool :=
  c.isDigit || ('a' ≤ c && c ≤ 'f') || ('A' ≤ c && c ≤ 'F')

/-- The value of a digit of any base up to sixteen. -/
def digitValue (c : Char) : Nat :=
  if c.isDigit then c.toNat - '0'.toNat
  else if c.isUpper then c.toNat - 'A'.toNat + 10
  else c.toNat - 'a'.toNat + 10

/-- The value of a run of digits in a base, most significant first. -/
def digitsValue (base : Nat) (ds : List Char) : Nat :=
  ds.foldl (fun n d => base * n + digitValue d) 0

/-- A non-empty run of digits. -/
def unsigned? (s : List Char) : Option Nat :=
  if s ≠ [] ∧ s.all Char.isDigit then some (digitsValue 10 s) else none

/-- A number without a minus sign that fits 32 bits. -/
def word32? (s : String) : Option Nat :=
  let digits := match s.toList with
    | '+' :: rest => rest
    | rest => rest
  (unsigned? digits).filter (· < 4294967296)

/-- A number with an optional sign that fits 32 bits in two's complement. -/
def int32? (s : String) : Option Int :=
  let value : Option Int := match s.toList with
    | '+' :: rest => (unsigned? rest).map Int.ofNat
    | '-' :: rest => (unsigned? rest).map fun n => -Int.ofNat n
    | rest => (unsigned? rest).map Int.ofNat
  value.filter fun n => -2147483648 ≤ n ∧ n < 2147483648

end ScriptBindings.Text
