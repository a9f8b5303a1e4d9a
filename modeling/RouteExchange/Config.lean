/-
  The configuration of the sessions, and its check.

  `Config.validate` accepts a configuration whose AS number is not zero, whose
  hold time is zero or at least three seconds, and whose families are distinct
  and not that of route target constraints, which a switch of its own controls.
  Of several faults the first in this order is reported.
-/
import RouteExchange.Address
import RouteExchange.Clock
import RouteExchange.Family

namespace RouteExchange

/-- The configuration of the sessions. -/
structure Config where
  /-- The local address, also the router id. -/
  localAddress : V4
  peers : List Ip := []
  port : UInt16 := 179
  /-- The local AS, also expected of peers. -/
  localAs : UInt32
  /-- Route target constraints are offered to peers. -/
  rtcEnabled : Bool := false
  /-- The hold time offered, in seconds. -/
  holdTime : UInt16 := 180
  /-- The seconds between a session and the next attempt. -/
  connectRetry : UInt64 := 10
  /-- The families offered, apart from route target constraints. -/
  families : List Family := Family.defaults
deriving DecidableEq, Repr

/-- What is wrong with the values of a configuration. -/
inductive InvalidConfig where
  | zeroAs
  | shortHoldTime (n : UInt16)
  | rtcListed
  | duplicateFamily (f : Family)
deriving DecidableEq, Repr

def InvalidConfig.message : InvalidConfig → String
  | zeroAs => "my_as must not be 0"
  | shortHoldTime n => "hold_time must be 0 or at least 3, got " ++ Decimal.text n.toNat
  | rtcListed => "ipv4/rtc is controlled by enable_rtc, not enabled_families"
  | duplicateFamily f => "duplicate family " ++ f.text

namespace Config

/-- The first family that stands earlier in the list too, where `seen` stood before it. -/
def firstDuplicate? (seen : List Family) : List Family → Option Family
  | [] => none
  | f :: fs => if f ∈ seen then some f else firstDuplicate? (f :: seen) fs

/-- Accepts a configuration, or tells its first fault. -/
def validate (c : Config) : Except InvalidConfig Unit :=
  if c.localAs = 0 then .error .zeroAs
  else if c.holdTime = 1 ∨ c.holdTime = 2 then .error (.shortHoldTime c.holdTime)
  else if c.families.any Family.isRtc then .error .rtcListed
  else
    match firstDuplicate? [] c.families with
    | some f => .error (.duplicateFamily f)
    | none => .ok ()

/-- The families offered to a peer: the listed ones, then route target
    constraints where they are enabled. -/
def offered (c : Config) : List Family :=
  c.families ++ if c.rtcEnabled then [.ipv4Rtc] else []

/-- The delay that stands for one beyond the clock's range: thirty years. -/
def longestDelay : Time := 30 * 365 * 86400 * 1000

/-- The time between a session and the next attempt. -/
def retryDelay (c : Config) : Time :=
  if c.connectRetry.toNat < UInt64.size / 2 then c.connectRetry.toNat * 1000 else longestDelay

end Config

end RouteExchange
