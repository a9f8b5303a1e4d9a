/-
  Unsigned decimal numbers as text.

  * `read? bound` reads a number below `bound`: one digit or more, with an
    optional plus sign in front; leading zeros are allowed, blanks are not;
  * `write` gives the shortest digits of a number, `text` the same as a string.
-/

namespace RouteExchange.Decimal

/-- The digits of a text, continuing the number `n`. -/
def readFrom (n : Nat) : List Char → Option Nat
  | [] => some n
  | c :: cs => if c.isDigit then readFrom (10 * n + (c.toNat - '0'.toNat)) cs else none

/-- One digit or more. -/
def readDigits? : List Char → Option Nat
  | [] => none
  | c :: cs => readFrom 0 (c :: cs)

/-- Digits with an optional plus sign. -/
def readUnsigned? : List Char → Option Nat
  | '+' :: cs => readDigits? cs
  | cs => readDigits? cs

/-- A number below `bound`. -/
def read? (bound : Nat) (cs : List Char) : Option Nat :=
  (readUnsigned? cs).filter (· < bound)

/-- The digit of a number below ten. -/
def digit (n : Nat) : Char := Char.ofNat ('0'.toNat + n)

/-- The digits of a number, without leading zeros. -/
def write (n : Nat) : List Char :=
  if n < 10 then [digit n] else write (n / 10) ++ [digit (n % 10)]
termination_by n

/-- The digits of a number as a string. -/
def text (n : Nat) : String := String.ofList (write n)

end RouteExchange.Decimal
