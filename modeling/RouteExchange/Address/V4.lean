/-
  IPv4 addresses and their dotted text.

  `V4.read` reads an address at the front of a text: four numbers of one to
  three digits, at most 255 and without leading zeros, with a dot between.
  `V4.parse?` reads a whole text as one address, and `V4.chars` writes one, so
  that each address has a single text.
-/
import RouteExchange.Octets
import RouteExchange.Text.Decimal

namespace RouteExchange

/-- An IPv4 address. -/
structure V4 where
  a : UInt8
  b : UInt8
  c : UInt8
  d : UInt8
deriving DecidableEq, Repr, Inhabited

namespace V4

/-- A number of one to three digits, at most 255 and without leading zeros, and
    the rest of the text. -/
def readByte (cs : List Char) : Option (UInt8 × List Char) :=
  let ds := cs.takeWhile Char.isDigit
  if ds.length ≤ 3 ∧ (ds.length ≤ 1 ∨ ds.head? ≠ some '0') then
    (Decimal.readDigits? ds).bind fun n =>
      if n < 256 then some (UInt8.ofNat n, cs.dropWhile Char.isDigit) else none
  else none

/-- The rest of a text that starts with a dot. -/
def afterDot : List Char → Option (List Char)
  | '.' :: cs => some cs
  | _ => none

/-- The address at the front of a text, and the rest. -/
def read (cs : List Char) : Option (V4 × List Char) := do
  let (a, cs) ← readByte cs
  let (b, cs) ← readByte (← afterDot cs)
  let (c, cs) ← readByte (← afterDot cs)
  let (d, cs) ← readByte (← afterDot cs)
  return (⟨a, b, c, d⟩, cs)

/-- The address a whole text denotes. -/
def parse? (cs : List Char) : Option V4 :=
  match read cs with
  | some (v, []) => some v
  | _ => none

/-- The dotted text of an address. -/
def chars (v : V4) : List Char :=
  Decimal.write v.a.toNat ++ '.' :: (Decimal.write v.b.toNat ++
    '.' :: (Decimal.write v.c.toNat ++ '.' :: Decimal.write v.d.toNat))

def text (v : V4) : String := String.ofList v.chars

def octets (v : V4) : Octets := [v.a, v.b, v.c, v.d]

def toNat (v : V4) : Nat := (Octets.ofBe32 v.a v.b v.c v.d).toNat

end V4

end RouteExchange
