/-
  An engine that replays a script.

  A script holds the steps towards an established session and the messages to be
  read, in order, and records what it was asked.  When the steps are used up the
  session is established; when the messages are used up there is nothing to
  read.  The script outlives its connections: each one continues it.
-/
import RouteExchange.Engine

namespace RouteExchange

/-- A script and the record of its use. -/
structure Script where
  steps : List (Except EngineError EstablishStep) := []
  negotiated : Option Negotiated := none
  incoming : List (Except EngineError Message) := []
  /-- What was written, the latest first. -/
  written : List Octets := []
  /-- The connections that were opened, in order. -/
  neighbors : List Neighbor := []
  connected : Bool := false
  closes : Nat := 0
  failWrites : Bool := false
  failEncoding : Bool := false

namespace Script

instance : Inhabited Script := ⟨{}⟩

/-! ## Writing the script -/

/-- Adds a step towards the established session. -/
def addStep (s : Script) (step : EstablishStep) : Script :=
  { s with steps := s.steps ++ [.ok step] }

/-- Adds a failure on the way to the established session. -/
def addFailure (s : Script) (e : EngineError) : Script :=
  { s with steps := s.steps ++ [.error e] }

def addMessage (s : Script) (m : Message) : Script :=
  { s with incoming := s.incoming ++ [.ok m] }

def addReadFailure (s : Script) (e : EngineError) : Script :=
  { s with incoming := s.incoming ++ [.error e] }

/-- The peer of the script agrees to these families and this hold time. -/
def negotiate (s : Script) (families : List Family) (holdTime : UInt16) : Script :=
  { s with
    negotiated := some
      { holdTime
        peerOpen := { asn := 65000, holdTime, routerId := ⟨192, 0, 2, 254⟩, families } } }

def disconnect (s : Script) : Script := { s with connected := false }

def size (s : Script) : Nat := s.steps.length + s.incoming.length

/-! ## Encoding updates -/

def actionCode : Action → UInt8
  | .unset => 0
  | .announced => 1
  | .withdrawn => 2

/-- An NLRI: its family, its action, and its destination behind the length. -/
def encodeNlri (n : Nlri) : Octets :=
  Octets.be16 n.family.afi ++ [n.family.safi, actionCode n.action, UInt8.ofNat n.network.length] ++
    n.network

/-- A destination is too long for a length of one octet. -/
def tooLong (n : Nlri) : Bool := decide (256 ≤ n.network.length)

/-- The octets of an update: its NLRIs behind a header. -/
def encodeUpdate (s : Script) (u : Update) : Except EngineError Octets :=
  if s.failEncoding then .error (.encode "mock encoding failure")
  else if s.negotiated.isNone then .error (.encode "session not negotiated")
  else if u.nlris.any tooLong then .error (.encode "prefix too long")
  else
    let body := u.nlris.flatMap encodeNlri
    match Header.ofBody? .update body.length with
    | some h => .ok (h.octets ++ body)
    | none => .error (.encode Header.tooLongMessage)

/-! ## Answering requests -/

def create (n : Neighbor) (s : Script) : Script :=
  { s with neighbors := s.neighbors ++ [n], connected := true }

/-- The next step of the script. -/
def establishStep (s : Script) : Except EngineError (Option EstablishStep) × Script :=
  match s.steps with
  | [] => (.ok none, s)
  | .ok step :: rest => (.ok (some step), { s with steps := rest })
  | .error e :: rest => (.error e, { s with steps := rest })

/-- A wait lasts until its end where there is nothing to read, and no time otherwise. -/
def waitReadable (timeout : Time) (s : Script) : Time :=
  if s.incoming.isEmpty then timeout else 0

/-- The next message of the script. -/
def read (s : Script) : Except EngineError Message × Script :=
  match s.incoming with
  | [] => (.ok .nop, s)
  | r :: rest => (r, { s with incoming := rest })

/-- Records what is written, unless the connection is gone or writes are to fail. -/
def write (data : Octets) (s : Script) : Except EngineError Unit × Script :=
  if !s.connected || s.failWrites then (.error (.lostConnection "mock write failed"), s)
  else (.ok (), { s with written := data :: s.written })

def close (s : Script) : Script := { s with connected := false, closes := s.closes + 1 }

instance : Engine Script where
  create := create
  establishStep := establishStep
  negotiated := negotiated
  waitReadable := waitReadable
  isConnected := connected
  read := read
  write := write
  encode u s := s.encodeUpdate u
  close := close

end Script

end RouteExchange
