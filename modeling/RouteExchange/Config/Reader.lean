/-
  Reading the configuration from TOML.

  The configuration is the value `bgp` of the document: a table of its fields, or
  an array with their values in order.  Fields that are not known are left out.
  A field of the wrong kind is an error, and the first in the order of the
  document counts; the error of a family that does not parse tells its text.
-/
import RouteExchange.Config
import RouteExchange.Toml.Document

namespace RouteExchange

/-- What is wrong with a configuration. -/
inductive ConfigError where
  /-- The file cannot be read, or is no text. -/
  | unreadable
  /-- The document is malformed, or a field is missing or of the wrong kind. -/
  | malformed
  | unknownFamily (e : Family.Unknown)
  /-- The values are inconsistent. -/
  | invalid (e : InvalidConfig)
deriving DecidableEq, Repr

namespace ConfigError

/-- The wording of the errors that have one; a blank text has nothing to tell. -/
def message? : ConfigError → Option String
  | unreadable | malformed => none
  | unknownFamily e => if e.trimmed.isEmpty then none else some e.message
  | invalid e => some ("invalid configuration: " ++ e.message)

end ConfigError

namespace Config

open Toml

/-- A value of the right kind, or the error that it is not. -/
def expect {α : Type} : Option α → Except ConfigError α
  | some a => .ok a
  | none => .error .malformed

def text? : Node → Option String
  | .text s => some s
  | _ => none

/-- The number of a value, where it is below a bound. -/
def number? (bound : Nat) : Node → Option Nat
  | .integer i => if 0 ≤ i ∧ i.toNat < bound then some i.toNat else none
  | _ => none

def boolean? : Node → Option Bool
  | .boolean b => some b
  | _ => none

def items? : Node → Option (List Node)
  | .array items => some items
  | .tables items => some (items.map (.table .header))
  | _ => none

def v4? (n : Node) : Option V4 := (text? n).bind fun s => V4.parse? s.toList

/-- The address of either version of a value. -/
def ip? (n : Node) : Option Ip := (text? n).bind fun s => Ip.parse? s.toList

def family (n : Node) : Except ConfigError Family := do
  match Family.parse (← expect (text? n)) with
  | .ok f => .ok f
  | .error e => .error (.unknownFamily e)

/-- The families of a value; the first item that is none fails. -/
def familyList (n : Node) : Except ConfigError (List Family) := do
  (← expect (items? n)).mapM family

/-- A configuration while it is read: the fields without a default may be missing. -/
structure Draft where
  localAddress : Option V4 := none
  localAs : Option UInt32 := none
  config : Config := { localAddress := ⟨0, 0, 0, 0⟩, localAs := 0 }

/-- The fields of a configuration. -/
inductive Field where
  | localAddress
  | peers
  | port
  | localAs
  | rtcEnabled
  | holdTime
  | connectRetry
  | families
deriving DecidableEq, Repr

/-- The fields in the order in which an array holds them, with their names. -/
def fields : List (String × Field) :=
  [("local_address", .localAddress), ("peers", .peers), ("bgp_port", .port), ("my_as", .localAs),
    ("enable_rtc", .rtcEnabled), ("hold_time", .holdTime),
    ("connect_retry_secs", .connectRetry), ("enabled_families", .families)]

/-- Reads the value of a field. -/
def Draft.set (d : Draft) (n : Node) : Field → Except ConfigError Draft
  | .localAddress => do return { d with localAddress := some (← expect (v4? n)) }
  | .localAs => do return { d with localAs := some (← expect (number? UInt32.size n)).toUInt32 }
  | .peers => do
    let peers ← expect ((items? n).bind fun ns => ns.mapM ip?)
    return { d with config := { d.config with peers } }
  | .port => do
    let port := (← expect (number? UInt16.size n)).toUInt16
    return { d with config := { d.config with port } }
  | .rtcEnabled => do
    let rtcEnabled ← expect (boolean? n)
    return { d with config := { d.config with rtcEnabled } }
  | .holdTime => do
    let holdTime := (← expect (number? UInt16.size n)).toUInt16
    return { d with config := { d.config with holdTime } }
  | .connectRetry => do
    let connectRetry := (← expect (number? UInt64.size n)).toUInt64
    return { d with config := { d.config with connectRetry } }
  | .families => do
    let families ← familyList n
    return { d with config := { d.config with families } }

/-- Reads the fields of a table, in order. -/
def Draft.ofEntries (d : Draft) : Entries → Except ConfigError Draft
  | [] => .ok d
  | (k, n) :: es =>
    match fields.lookup k with
    | none => d.ofEntries es
    | some f => do (← d.set n f).ofEntries es

/-- Reads the values of an array, in the order of the fields. -/
def Draft.ofItems (d : Draft) : List (String × Field) → List Node → Except ConfigError Draft
  | (_, f) :: fs, n :: ns => do (← d.set n f).ofItems fs ns
  | _, _ => .ok d

/-- The configuration, where no field is missing. -/
def Draft.finish (d : Draft) : Except ConfigError Config := do
  let localAddress ← expect d.localAddress
  let localAs ← expect d.localAs
  return { d.config with localAddress, localAs }

/-- The configuration that a value holds, not yet checked. -/
def ofNode : Node → Except ConfigError Config
  | .table _ es => do (← Draft.ofEntries {} es).finish
  | .array ns => do (← Draft.ofItems {} fields ns).finish
  | .tables ts => do (← Draft.ofItems {} fields (ts.map (.table .header))).finish
  | _ => .error .malformed

/-- The configuration in a document. -/
def parse (text : String) : Except ConfigError Config := do
  let root ← expect (Toml.parse? text)
  let c ← ofNode (← expect (root.lookup "bgp"))
  match c.validate with
  | .ok () => .ok c
  | .error e => .error (.invalid e)

/-- The configuration in a file with these octets; there may be no such file. -/
def ofFile (content : Option Octets) : Except ConfigError Config :=
  match content with
  | none => .error .unreadable
  | some bytes =>
    match String.fromUTF8? ⟨bytes.toArray⟩ with
    | some text => parse text
    | none => .error .unreadable

end Config

end RouteExchange
