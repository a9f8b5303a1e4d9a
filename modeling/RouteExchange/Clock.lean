/-
  Time, and the signal that asks a worker to stop.

  Times are counted in milliseconds from the start of the clock.  A stop signal
  is the list of the moments from which on a stop is asked for.
-/

namespace RouteExchange

/-- A time or a duration in milliseconds. -/
abbrev Time := Nat

/-- The moments from which on a stop is asked for. -/
structure StopSignal where
  moments : List Time := []
deriving DecidableEq, Repr

namespace StopSignal

instance : Inhabited StopSignal := ⟨{}⟩

def raised (s : StopSignal) (now : Time) : Bool := s.moments.any fun m => m ≤ now

def raiseAt (s : StopSignal) (m : Time) : StopSignal := ⟨m :: s.moments⟩

/-- The signal is lowered, until the next of its moments. -/
def lower (s : StopSignal) (now : Time) : StopSignal := ⟨s.moments.filter fun m => now < m⟩

/-- The end of a pause that a stop cuts short: its planned end, or the first
    moment from `now` on at which a stop is asked for. -/
def cutShort (s : StopSignal) (now planned : Time) : Time :=
  s.moments.foldl (fun t m => min t (max now m)) planned

end StopSignal

end RouteExchange
