/-
  Routes and workers that serve as samples.

  A sample shows that what a statement assumes can be met.  The workers here are for the peer
  at 192.0.2.7, over a script.
-/
import RouteExchange.Engine.Script
import RouteExchange.Worker

namespace RouteExchange

def Nlri.sample (action : Action) (network : Octets) : Nlri :=
  { family := .ipv4MplsVpn, action, network }

/-- A route to a destination of one octet, with these route targets. -/
def Route.sample (octet : UInt8) (targets : List RouteTarget) : Route :=
  ⟨.sample .announced [octet], Attributes.empty.addTargets targets⟩

/-- A route is published whose destination has this length. -/
def Route.Event.sample (length : Nat) : Route.Event :=
  ⟨.advertise, ⟨.sample .announced (List.replicate length 8), ∅⟩, "p"⟩

def Ip.sample (host : UInt8) : Ip := .v4 ⟨192, 0, 2, host⟩

def Config.sample (rtcEnabled : Bool) : Config :=
  { localAddress := ⟨192, 0, 2, 1⟩, localAs := 65000, rtcEnabled, families := [.ipv4MplsVpn] }

def Worker.sample (config : Config) (engine : Script) : Worker Script :=
  .new config (.sample 7) engine 0

end RouteExchange
