/-
  Route targets: the marks that say which VPNs a route belongs to.

  A route target is an administrator (an AS number of two or four octets, or an
  IPv4 address) and a number.  Its text is `administrator:number`; its octets
  are an extended community (`RouteTarget.toCommunity`), whose type octet holds
  the form in its low six bits.
-/
import RouteExchange.Address.V4
import RouteExchange.Text.Split

namespace RouteExchange

/-- An extended community: a type octet, a subtype octet and six octets of value. -/
structure Community where
  type : UInt8
  subtype : UInt8
  v0 : UInt8
  v1 : UInt8
  v2 : UInt8
  v3 : UInt8
  v4 : UInt8
  v5 : UInt8
deriving DecidableEq, Repr

namespace Community

/-- The eight octets of a community. -/
def octets (c : Community) : Octets :=
  [c.type, c.subtype, c.v0, c.v1, c.v2, c.v3, c.v4, c.v5]

/-- The communities in a string of octets; fewer than eight at the end are left out. -/
def ofOctets : Octets → List Community
  | t :: s :: a :: b :: c :: d :: e :: f :: rest => ⟨t, s, a, b, c, d, e, f⟩ :: ofOctets rest
  | _ => []

end Community

/-- A route target. -/
inductive RouteTarget where
  /-- An AS number of two octets and a number of four. -/
  | as2 (asn : UInt16) (number : UInt32)
  /-- An IPv4 address and a number of two octets. -/
  | ipv4 (addr : V4) (number : UInt16)
  /-- An AS number of four octets and a number of two. -/
  | as4 (asn : UInt32) (number : UInt16)
deriving DecidableEq, Repr

namespace RouteTarget

/-! ## As an extended community -/

/-- The subtype of the communities that are route targets. -/
def subtype : UInt8 := 2

/-- The extended community of a route target. -/
def toCommunity : RouteTarget → Community
  | as2 asn number =>
    let n := number.toNat
    ⟨0, subtype, UInt8.ofNat (asn.toNat / 256), UInt8.ofNat asn.toNat,
      UInt8.ofNat (n / 16777216), UInt8.ofNat (n / 65536), UInt8.ofNat (n / 256), UInt8.ofNat n⟩
  | ipv4 addr number =>
    ⟨1, subtype, addr.a, addr.b, addr.c, addr.d,
      UInt8.ofNat (number.toNat / 256), UInt8.ofNat number.toNat⟩
  | as4 asn number =>
    let n := asn.toNat
    ⟨2, subtype, UInt8.ofNat (n / 16777216), UInt8.ofNat (n / 65536), UInt8.ofNat (n / 256),
      UInt8.ofNat n, UInt8.ofNat (number.toNat / 256), UInt8.ofNat number.toNat⟩

/-- The form of administrator in a type octet: the two high bits say who
    assigned the type and whether it is transitive, and do not count. -/
def form (type : UInt8) : Nat := type.toNat % 64

/-- The route target that a community is, if it is one. -/
def ofCommunity? (c : Community) : Option RouteTarget :=
  if c.subtype = subtype then
    match form c.type with
    | 0 => some (as2 (Octets.ofBe16 c.v0 c.v1) (Octets.ofBe32 c.v2 c.v3 c.v4 c.v5))
    | 1 => some (ipv4 ⟨c.v0, c.v1, c.v2, c.v3⟩ (Octets.ofBe16 c.v4 c.v5))
    | 2 => some (as4 (Octets.ofBe32 c.v0 c.v1 c.v2 c.v3) (Octets.ofBe16 c.v4 c.v5))
    | _ => none
  else none

/-! ## As text -/

/-- The text of a route target. -/
def chars : RouteTarget → List Char
  | as2 asn number => Decimal.write asn.toNat ++ ':' :: Decimal.write number.toNat
  | ipv4 addr number => addr.chars ++ ':' :: Decimal.write number.toNat
  | as4 asn number => Decimal.write asn.toNat ++ ':' :: Decimal.write number.toNat

/-- The text of a route target as a string. -/
def text (t : RouteTarget) : String := String.ofList t.chars

/-- A text that is no route target. -/
structure Malformed where
  text : String
deriving DecidableEq, Repr

/-- The wording of the error. -/
def Malformed.message (e : Malformed) : String := "invalid route target: " ++ e.text

/-- The route target with these two parts of its text.  An administrator with a
    dot is an address; an AS number that two octets hold takes the first form. -/
def ofParts? (admin number : List Char) : Option RouteTarget :=
  if '.' ∈ admin then do
    let addr ← V4.parse? admin
    let n ← Decimal.read? UInt16.size number
    return ipv4 addr (UInt16.ofNat n)
  else do
    let asn ← Decimal.read? UInt32.size admin
    if asn < UInt16.size then
      let n ← Decimal.read? UInt32.size number
      return as2 (UInt16.ofNat asn) (UInt32.ofNat n)
    else
      let n ← Decimal.read? UInt16.size number
      return as4 (UInt32.ofNat asn) (UInt16.ofNat n)

/-- The route target a text denotes, its administrator ending at the last colon. -/
def parse? (cs : List Char) : Option RouteTarget := do
  let (admin, number) ← Text.splitLast? ':' cs
  ofParts? admin number

/-- The route target a string denotes. -/
def parse (s : String) : Except Malformed RouteTarget :=
  match parse? s.toList with
  | some t => .ok t
  | none => .error ⟨s⟩

/-! ## Order -/

/-- The number of the form of a route target. -/
def formNumber : RouteTarget → Nat
  | as2 _ _ => 0
  | ipv4 _ _ => 1
  | as4 _ _ => 2

/-- The administrator of a route target as a number. -/
def admin : RouteTarget → Nat
  | as2 asn _ => asn.toNat
  | ipv4 addr _ => addr.toNat
  | as4 asn _ => asn.toNat

/-- The number of a route target. -/
def number : RouteTarget → Nat
  | as2 _ n => n.toNat
  | ipv4 _ n => n.toNat
  | as4 _ n => n.toNat

/-- The place of a route target in their order: the form counts first, then the
    administrator, then the number. -/
def rank (t : RouteTarget) : Nat :=
  (t.formNumber * UInt32.size + t.admin) * UInt32.size + t.number

/-- Route targets are ordered by the form, the administrator, the number. -/
def le (s t : RouteTarget) : Bool := decide (s.rank ≤ t.rank)

end RouteTarget

end RouteExchange
