/-
  What the effects of a worker are to be counted as.

  `Effect.due?` is the metric for an effect, and `counts` what was counted among some
  effects; they are `Balanced` when each is counted just once.  An interest counts when a
  route target constraint changed it: when no state was entered after the constraint was
  published (`constrained`), since a session begins with a state and interests of its own.
-/
import RouteExchange.Proofs.Metrics.Samples
import RouteExchange.Proofs.Text.Numerals
import RouteExchange.Worker

namespace RouteExchange

/-! ## What is to be counted -/

namespace Effect

def metric? : Effect → Option Metric
  | counted m => some m
  | _ => none

/-- The metric that an effect counts, apart from states. -/
def counts? (e : Effect) : Option Metric := e.metric?.filter fun m => m.tick?.isSome

/-- The label of a message that is written. -/
def wrote? : Effect → Option String
  | wrote data => some (Header.label data)
  | _ => none

/-- A message is not written. -/
def isUnwritten : Effect → Bool
  | refused _ | unsent _ => true
  | _ => false

/-- A route event is encoded to nothing. -/
def isUnencoded : Effect → Bool
  | encoded _ [] => true
  | _ => false

/-- The name of a message that is read. -/
def received? : Effect → Option String
  | read (.ok m) => if m = .nop then none else some m.name
  | _ => none

/-- The route that is published or retracted, with its kind. -/
def published? : Effect → Option (Route.Kind × Route)
  | called (.advertise _ r) => some (.advertise, r)
  | called (.withdraw _ r) => some (.withdraw, r)
  | _ => none

/-- The interest that is taken or given up, with the kind of constraint that does so. -/
def interest? : Effect → Option (Route.Kind × Subscription)
  | called (.subscribe _ _ i) => some (.advertise, i)
  | called (.unsubscribe _ i) => some (.withdraw, i)
  | _ => none

/-- The effect enters a state. -/
def enters : Effect → Bool
  | counted (.state _ _) => true
  | _ => false

/-- What an effect is counted as; interests count where a constraint changes them. -/
def due? (name : String) (constrained : Bool) (e : Effect) : Option Metric :=
  match e with
  | wrote data => some (.sent name (Header.label data))
  | refused _ | unsent _ => some (.failed name "write")
  | encoded _ [] => some (.failed name "encode")
  | read (.ok m) => if m = .nop then none else some (.received name m.name)
  | called (.advertise _ r) => some (.route name r.family.text Route.Kind.advertise.name)
  | called (.withdraw _ r) => some (.route name r.family.text Route.Kind.withdraw.name)
  | called (.subscribe _ _ i) =>
    if constrained then some (.rtc name i.family.text Route.Kind.advertise.name) else none
  | called (.unsubscribe _ i) =>
    if constrained then some (.rtc name i.family.text Route.Kind.withdraw.name) else none
  | _ => none

end Effect

/-- Of the routes that were published and the states that were entered, the latest of all
    is a route target constraint.  Here and below the latest effect is the first. -/
def constrained : List (Time × Effect) → Bool
  | [] => false
  | (_, e) :: es =>
    match e.published? with
    | some (_, r) => r.family.isRtc
    | none => if e.enters then false else constrained es

/-- Some effects, each with whether a constraint came last before it. -/
def caused : List (Time × Effect) → List (Bool × Effect)
  | [] => []
  | (_, e) :: es => (constrained es, e) :: caused es

theorem map_caused (es : List (Time × Effect)) : (caused es).map Prod.snd = es.map Prod.snd := by
  induction es with
  | nil => rfl
  | cons x es ih => exact congrArg (x.2 :: ·) ih

theorem Effect.counts?_of_metric? {e : Effect} (h : e.metric? = none) : e.counts? = none := by
  rw [counts?, h]
  rfl

theorem Effect.counts?_counted {m : Metric} (h : m.tick?.isSome = true) :
    (counted m).counts? = some m := by
  rw [counts?, metric?, Option.filter_some, if_pos h]

/-- What is counted, apart from states. -/
def counts (es : List (Time × Effect)) : List Metric := es.filterMap fun x => x.2.counts?

/-- What is to be counted. -/
def dues (name : String) (es : List (Time × Effect)) : List Metric :=
  (caused es).filterMap fun x => x.2.due? name x.1

def Balanced (name : String) (es : List (Time × Effect)) : Prop := counts es = dues name es

theorem counts_cons (t : Time) (e : Effect) (es : List (Time × Effect)) :
    counts ((t, e) :: es) = e.counts?.toList ++ counts es := by
  rw [counts, List.filterMap_cons]
  cases e.counts? <;> rfl

theorem dues_cons (name : String) (t : Time) (e : Effect) (es : List (Time × Effect)) :
    dues name ((t, e) :: es) = (e.due? name (constrained es)).toList ++ dues name es := by
  rw [dues, caused, List.filterMap_cons]
  cases e.due? name (constrained es) <;> rfl

/-- What is to be counted is no state, and counted in the name of the worker. -/
theorem Effect.due?_spec {name : String} {b : Bool} {e : Effect} {m : Metric}
    (h : e.due? name b = some m) : m.peer = name ∧ m.tick?.isSome = true ∧ e.metric? = none := by
  unfold due? at h
  grind [Metric.peer, Metric.tick?, metric?]

namespace Balanced

variable {name : String} {es : List (Time × Effect)} {e : Effect} {m : Metric}

/-- An effect that neither counts nor is to be counted. -/
theorem quiet (h : Balanced name es) (t : Time) (hm : e.counts? = none)
    (hd : e.due? name (constrained es) = none) : Balanced name ((t, e) :: es) := by
  rw [Balanced, counts_cons, dues_cons, hm, hd, h]

/-- What is to be counted is counted right before. -/
theorem counted_first (h : Balanced name es) (t t' : Time)
    (hd : e.due? name (constrained es) = some m) :
    Balanced name ((t', e) :: (t, .counted m) :: es) := by
  obtain ⟨-, htick, hm⟩ := Effect.due?_spec hd
  have hsame : constrained ((t, .counted m) :: es) = constrained es := by
    cases m with
    | state p s => cases htick
    | _ => rfl
  rw [Balanced, counts_cons, counts_cons, dues_cons, dues_cons, hsame, hd, h,
    Effect.counts?_of_metric? hm, Effect.counts?_counted htick]
  rfl

/-- What is to be counted is counted next, or after a log line. -/
theorem counted_next (h : Balanced name es) (t : Time)
    (hd : e.due? name (constrained es) = some m) (t' t'' : Time) (level : Level) (text : String) :
    Balanced name ((t', .counted m) :: (t, e) :: es) ∧
      Balanced name ((t', .counted m) :: (t'', .logged level text) :: (t, e) :: es) := by
  obtain ⟨-, htick, hm⟩ := Effect.due?_spec hd
  constructor
  · rw [Balanced, counts_cons, counts_cons, dues_cons, dues_cons, hd, h,
      Effect.counts?_of_metric? hm, Effect.counts?_counted htick]
    rfl
  · rw [Balanced, counts_cons, counts_cons, counts_cons, dues_cons, dues_cons, dues_cons, hd, h,
      Effect.counts?_of_metric? hm, Effect.counts?_counted htick]
    rfl

end Balanced

end RouteExchange
