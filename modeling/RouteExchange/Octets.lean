/-
  Strings of octets and the words written in them.

  * `be16` and `be32` write a word with its most significant octet first,
    `ofBe16` and `ofBe32` read one;
  * `hex` writes each octet as two lower case hexadecimal digits.
-/

namespace RouteExchange

/-- A string of octets. -/
abbrev Octets := List UInt8

namespace Octets

/-- A 16-bit word, most significant octet first. -/
def be16 (n : UInt16) : Octets :=
  [UInt8.ofNat (n.toNat / 256), UInt8.ofNat n.toNat]

/-- A 32-bit word, most significant octet first. -/
def be32 (n : UInt32) : Octets :=
  [UInt8.ofNat (n.toNat / 16777216), UInt8.ofNat (n.toNat / 65536),
    UInt8.ofNat (n.toNat / 256), UInt8.ofNat n.toNat]

/-- The 16-bit word with these octets. -/
def ofBe16 (a b : UInt8) : UInt16 := UInt16.ofNat (a.toNat * 256 + b.toNat)

/-- The 32-bit word with these octets. -/
def ofBe32 (a b c d : UInt8) : UInt32 :=
  UInt32.ofNat (((a.toNat * 256 + b.toNat) * 256 + c.toNat) * 256 + d.toNat)

/-- The lower case hexadecimal digits of an octet. -/
def hexDigits (b : UInt8) : List Char :=
  [Nat.digitChar (b.toNat / 16), Nat.digitChar (b.toNat % 16)]

/-- Two lower case hexadecimal digits for each octet. -/
def hex (bs : Octets) : String := String.ofList (bs.flatMap hexDigits)

end Octets

end RouteExchange
