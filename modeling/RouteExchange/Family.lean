/-
  Address families: pairs of an AFI and a SAFI.

  A family has a text: its well-known name, or `afi/safi`.  `Family.parse`
  reads both, in any ASCII case and with blanks around; `Family.text` writes
  the name where there is one.
-/
import RouteExchange.Text.Blank
import RouteExchange.Text.Decimal
import RouteExchange.Text.Split

namespace RouteExchange

/-- A routing family. -/
structure Family where
  afi : UInt16
  safi : UInt8
deriving DecidableEq, Repr, Inhabited

namespace Family

def ipv4MplsVpn : Family := ⟨1, 128⟩

def ipv6MplsVpn : Family := ⟨2, 128⟩

def l2vpnEvpn : Family := ⟨25, 70⟩

/-- Flow specifications of a VPN. -/
def ipv4FlowVpn : Family := ⟨1, 134⟩

/-- Route target constraints: a peer's interest in route targets. -/
def ipv4Rtc : Family := ⟨1, 132⟩

/-- The family is that of route target constraints. -/
def isRtc (f : Family) : Bool := f == ipv4Rtc

/-- The families a session offers unless told otherwise. -/
def defaults : List Family := [ipv4MplsVpn, l2vpnEvpn, ipv4FlowVpn]

def names : List (Family × String) :=
  [(ipv4MplsVpn, "ipv4/mpls-vpn"), (ipv6MplsVpn, "ipv6/mpls-vpn"), (l2vpnEvpn, "l2vpn/evpn"),
    (ipv4FlowVpn, "ipv4/flow-vpn"), (ipv4Rtc, "ipv4/rtc")]

/-- The well-known name of a family. -/
def name? (f : Family) : Option String :=
  (names.find? fun p => p.1 == f).map Prod.snd

/-- The family with this well-known name, in any ASCII case. -/
def ofName? (cs : List Char) : Option Family :=
  (names.find? fun p => Text.sameIgnoringCase p.2.toList cs).map Prod.fst

def numeric (f : Family) : List Char :=
  Decimal.write f.afi.toNat ++ '/' :: Decimal.write f.safi.toNat

def text (f : Family) : String := (name? f).getD (String.ofList f.numeric)

/-- The family with this numeric text. -/
def ofNumeric? (cs : List Char) : Option Family := do
  let (afi, safi) ← Text.splitFirst? '/' cs
  let afi ← Decimal.read? UInt16.size afi
  let safi ← Decimal.read? UInt8.size safi
  return ⟨UInt16.ofNat afi, UInt8.ofNat safi⟩

/-- A text that is no address family, without the blanks around it. -/
structure Unknown where
  trimmed : String
deriving DecidableEq, Repr

def Unknown.message (e : Unknown) : String := "invalid address family: " ++ e.trimmed

/-- The family a text denotes: a well-known name, or an AFI and a SAFI in
    decimal with a slash between. -/
def parse (s : String) : Except Unknown Family :=
  let cs := Text.trim s.toList
  match ofName? cs <|> ofNumeric? cs with
  | some f => .ok f
  | none => .error ⟨String.ofList cs⟩

/-- The place of a family in their order: the AFI counts first, then the SAFI. -/
def rank (f : Family) : Nat := f.afi.toNat * UInt8.size + f.safi.toNat

/-- Families are ordered by the AFI, then the SAFI. -/
def le (f g : Family) : Bool := decide (f.rank ≤ g.rank)

end Family

end RouteExchange
