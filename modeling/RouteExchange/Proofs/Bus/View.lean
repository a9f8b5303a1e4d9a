/-
  What a subscriber makes of what it is told.

  A `Bus.View` is the routes that a subscriber takes to be current: an advertisement
  sets its key, and a withdrawal clears it, so that the last event about a key decides
  (`View.after_apply`).  `Bus.view` is what the subscriber should take to be current:
  the stored routes of others that its interests cover.  `view_step` says that what a
  command tells a subscriber moves the one along with the other.
-/
import Mathlib.Data.List.Induction
import Mathlib.Logic.Function.Basic
import RouteExchange.Proofs.Bus.Records
import RouteExchange.Proofs.Bus.Told

namespace RouteExchange.Bus

/-- The routes that a subscriber takes to be current, by their keys. -/
abbrev View := Nlri.Key → Option Stored

/-- What an event leaves under its key. -/
def left (e : Route.Event) : Option Stored :=
  match e.kind with
  | .advertise => some ⟨e.source, e.route⟩
  | .withdraw => none

namespace View

/-- The view after some events, in order. -/
def after (v : View) (es : List Route.Event) : View :=
  es.foldl (fun v e => Function.update v e.route.key (left e)) v

theorem after_append (v : View) (es fs : List Route.Event) :
    v.after (es ++ fs) = (v.after es).after fs := List.foldl_append

/-- The last event about a key decides. -/
theorem after_apply (v : View) (es : List Route.Event) (k : Nlri.Key) :
    v.after es k = ((es.filter fun e => e.route.key = k).getLast?.map left).getD (v k) := by
  induction es using List.reverseRecOn with
  | nil => rfl
  | append_singleton es e ih =>
    rw [after_append, List.filter_append, List.getLast?_append]
    change Function.update (v.after es) e.route.key (left e) k = _
    by_cases hk : e.route.key = k
    · subst hk
      simp
    · rw [Function.update_of_ne (Ne.symm hk), ih]
      simp [hk]

end View

/-- The stored routes of others that a name asks for. -/
def view (b : Bus) (id : String) : View := fun k => b.due id k

/-! ## What is sent to a name -/

/-- The deliveries that are made to a name, in order. -/
def sentTo (id : String) (ds : List Delivery) : List Delivery := ds.filter fun d => d.id = id

/-- The events that reach an inbox of a name, in order. -/
def arrivals (id : String) (inbox : Inbox) (ds : List Delivery) : List Route.Event :=
  ((sentTo id ds).filter fun d => d.inbox = inbox).map Delivery.event

section
variable (id : String) (inbox : Inbox)

theorem sentTo_append (xs ys : List Delivery) : sentTo id (xs ++ ys) = sentTo id xs ++ sentTo id ys :=
  List.filter_append xs ys

theorem arrivals_append (xs ys : List Delivery) :
    arrivals id inbox (xs ++ ys) = arrivals id inbox xs ++ arrivals id inbox ys := by
  simp only [arrivals, sentTo_append, List.filter_append, List.map_append]

theorem sentTo_eq_nil {ds : List Delivery} (h : ∀ d ∈ ds, d.id ≠ id) : sentTo id ds = [] := by
  rw [sentTo, List.filter_eq_nil_iff]
  intro d hd
  simpa using h d hd

/-- Where all that is sent to a name goes to one inbox, the events about a key that
    reach it are what the name is told. -/
theorem filter_arrivals {ds : List Delivery} (h : ∀ d ∈ ds, d.id = id → d.inbox = inbox)
    (k : Nlri.Key) : (arrivals id inbox ds).filter (fun e => e.route.key = k) = told id k ds := by
  simp only [arrivals, sentTo, told, List.filter_filter, List.filter_map]
  congr 1
  refine List.filter_congr fun d hd => ?_
  by_cases hid : d.id = id
  · simp [hid, h d hd hid]
  · simp [hid]

end

/-! ## One command -/

/-- What a change tells leaves under the key what the change makes of it, unless the
    subscriber publishes the key or is forgotten. -/
theorem Change.left_eq {id : String} {k : Nlri.Key} {c : Command} {o o' : Option Stored}
    {es : List Route.Event} (h : Change id k c o o' es) (hown : ∀ r, c ≠ .advertise id r)
    (hstays : c ≠ .cleanup id) : (es.getLast?.map left).getD o = o' := by
  cases h with
  | kept => rfl
  | told r => rfl
  | retracted r => rfl
  | taken r hc => exact absurd hc (hown r)
  | forgotten hc => exact absurd hc hstays

/-- The events of a name go to this inbox, if they go to any. -/
def Listens (b : Bus) (id : String) (inbox : Inbox) : Prop :=
  ∀ s, b.subscriber? id = some s → s.inbox = inbox

/-- A view that is right stays right, by the events that reach the inbox of the
    subscriber. -/
theorem view_step {b : Bus} (hb : b.Keyed) {c : Command} {id : String} {inbox : Inbox}
    (hown : ∀ r, c ≠ .advertise id r) (hstays : c ≠ .cleanup id)
    (hinbox : b.Listens id inbox) (hinbox' : (b.step c).1.Listens id inbox) :
    (b.view id).after (arrivals id inbox (b.step c).2) = (b.step c).1.view id := by
  have hall : ∀ d ∈ (b.step c).2, d.id = id → d.inbox = inbox := by
    rintro d hd rfl
    obtain ⟨⟨s, hs | hs, hsd⟩, -, -⟩ := step_delivery hb hd
    · exact hsd ▸ hinbox s hs
    · exact hsd ▸ hinbox' s hs
  funext k
  rw [View.after_apply, filter_arrivals id inbox hall]
  exact (step_change hb id k c).left_eq hown hstays

end RouteExchange.Bus
