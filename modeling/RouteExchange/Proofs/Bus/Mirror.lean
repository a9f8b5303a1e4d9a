/-
  What a subscriber was told, and what the bus holds.

  `run_told_of_due`: a subscriber misses no route.  Whatever was asked of the bus,
  a route of another that one of its interests covers is the last thing it was
  told about the key.

  The converse needs more than what was told.  The bus tells a subscriber nothing
  of a route that it publishes itself, so it is not told that its own route has
  taken the place of another's either.  Its `Bus.diary` therefore holds what it was
  told and what it published, since its record was made.  `due_iff_diary` says
  that the end of the diary mirrors the table, and `last_advertised_current_iff`
  that a route it was told of last is current unless it has published the key since.
-/
import Mathlib.Data.List.Induction
import RouteExchange.Proofs.Bus.Told
import RouteExchange.Proofs.Sample

namespace RouteExchange.Bus

/-! ## No route is missed -/

theorem due_empty (id : String) (k : Nlri.Key) : Bus.due {} id k = none := rfl

/-- The route a subscriber is to know of is the last thing it was told about the key. -/
theorem run_told_of_due (cs : List Command) (id : String) (k : Nlri.Key) (x : Stored)
    (h : (Bus.run {} cs).1.due id k = some x) :
    (told id k (Bus.run {} cs).2).getLast? = some x.advertised := by
  induction cs using List.reverseRecOn generalizing x with
  | nil => cases h
  | append_singleton cs c ih =>
    have hc := step_change (keyed_empty.run cs) id k c
    rw [run_concat] at h ⊢
    simp only at h ⊢
    rw [told_append]
    rw [h] at hc
    generalize told id k ((Bus.run {} cs).1.step c).2 = es at hc ⊢
    generalize ho : (Bus.run {} cs).1.due id k = o at hc
    cases hc with
    | kept =>
      rw [List.append_nil]
      exact ih x ho
    | told => exact List.getLast?_concat

/-- **No missed route.** After any commands, a registered subscriber that asks for
    the stored route of another was told of it, and of nothing about its key since. -/
theorem covered_route_was_told_last (cs : List Command) (id : String) (s : Subscriber)
    (k : Nlri.Key) (e : Route) (p : String)
    (hs : (Bus.run {} cs).1.subscriber? id = some s)
    (hk : (Bus.run {} cs).1.stored? k = some ⟨p, e⟩) (hp : p ≠ id)
    (hc : s.covers e = true) :
    (told id k (Bus.run {} cs).2).getLast? = some ⟨.advertise, e, p⟩ :=
  run_told_of_due cs id k ⟨p, e⟩ (due_eq_some_iff.2 ⟨hk, hp, s, hs, hc⟩)

/-- Interests overlap, another source takes the key over without the route target
    of the narrower one, and that one is dropped. -/
def Sample.takeover : List Command :=
  [.subscribe "s" (.worker 0 0) ⟨.ipv4MplsVpn, some (.as2 65000 1)⟩,
    .advertise "p" (Route.sample 8 [.as2 65000 1]),
    .subscribe "s" (.worker 0 0) ⟨.ipv4MplsVpn, none⟩,
    .advertise "q" (Route.sample 8 []),
    .unsubscribe "s" ⟨.ipv4MplsVpn, some (.as2 65000 1)⟩]

/-- The subscriber that is left: it asks for the whole family. -/
def Sample.subscriber : Subscriber := ⟨"s", .worker 0 0, [⟨.ipv4MplsVpn, none⟩]⟩

theorem takeover_told_last :
    (told "s" (Route.sample 8 []).key (Bus.run {} Sample.takeover).2).getLast? =
      some ⟨.advertise, Route.sample 8 [], "q"⟩ :=
  covered_route_was_told_last Sample.takeover "s" Sample.subscriber (Route.sample 8 []).key
    (Route.sample 8 []) "q" (by decide) (by decide) (by decide) (by decide)

/-! ## The diary of a subscriber -/

/-- What a subscriber was told, or published itself. -/
inductive Note where
  | told (e : Route.Event)
  | published (r : Route)
deriving DecidableEq, Repr

namespace Note

/-- The key a note is about. -/
def key : Note → Nlri.Key
  | told e => e.route.key
  | published r => r.key

/-- The event a note is of, if the subscriber was told. -/
def event? : Note → Option Route.Event
  | told e => some e
  | published _ => none

end Note

/-- What a command makes a name publish. -/
def publication (id : String) : Command → List Note
  | .advertise source route => if source = id then [.published route] else []
  | _ => []

/-- What one command adds to a diary. -/
def notes (id : String) (c : Command) (ds : List Delivery) : List Note :=
  publication id c ++ (ds.filter fun d => d.id = id).map fun d => .told d.event

/-- A bus and the diary of a name after one more command.  The diary starts anew
    with each record of the subscriber, and there is none without one. -/
def observe (id : String) (o : Bus × List Note) (c : Command) : Bus × List Note :=
  let (b, ds) := o.1.step c
  (b, if (b.subscriber? id).isSome then o.2 ++ notes id c ds else [])

/-- What a subscriber was told and published since its record was made. -/
def diary (id : String) (cs : List Command) : List Note := (cs.foldl (observe id) ({}, [])).2

/-- The notes about a key. -/
def about (k : Nlri.Key) (ns : List Note) : List Note := ns.filter fun n => n.key = k

/-- The last event about a key that a diary tells of. -/
def lastTold (k : Nlri.Key) (ns : List Note) : Option Route.Event :=
  ((about k ns).filterMap Note.event?).getLast?

theorem foldl_observe_fst (id : String) (cs : List Command) :
    (cs.foldl (observe id) ({}, [])).1 = (Bus.run {} cs).1 := by
  induction cs using List.reverseRecOn with
  | nil => rfl
  | append_singleton cs c ih =>
    rw [List.foldl_concat, run_concat]
    simp only [observe, ih]

theorem diary_concat (id : String) (cs : List Command) (c : Command) :
    diary id (cs ++ [c]) =
      if (((Bus.run {} cs).1.step c).1.subscriber? id).isSome then
        diary id cs ++ notes id c ((Bus.run {} cs).1.step c).2
      else [] := by
  unfold diary
  rw [List.foldl_concat]
  simp only [observe, foldl_observe_fst]

theorem about_append (k : Nlri.Key) (xs ys : List Note) :
    about k (xs ++ ys) = about k xs ++ about k ys := List.filter_append xs ys

/-- Of the notes of a command, those about a key are what is told about it, after
    what is published under it. -/
theorem about_notes (id : String) (k : Nlri.Key) (c : Command) (ds : List Delivery) :
    about k (notes id c ds) =
      about k (publication id c) ++ (told id k ds).map Note.told := by
  rw [notes, about_append, told]
  congr 1
  simp only [about, List.filter_map, List.filter_filter, List.map_map]
  congr 1
  refine List.filter_congr fun d _ => ?_
  by_cases hd : d.id = id
  · simp only [hd, decide_true, Bool.and_true, true_and, Function.comp_apply]
    rfl
  · simp [hd]

theorem about_publication_eq_nil {id : String} {k : Nlri.Key} {c : Command}
    (h : ∀ r, c = .advertise id r → r.key ≠ k) : about k (publication id c) = [] := by
  cases c with
  | advertise source route =>
    by_cases hs : source = id
    · have hk : route.key ≠ k := h route (by rw [hs])
      simp [publication, hs, about, Note.key, hk]
    · simp [publication, hs, about]
  | _ => rfl

theorem about_publication_self {id : String} {r : Route} :
    about r.key (publication id (.advertise id r)) = [.published r] := by
  simp [publication, about, Note.key]

/-! ## The mirror -/

theorem subscriber?_of_due {b : Bus} {id : String} {k : Nlri.Key} {x : Stored}
    (h : b.due id k = some x) : (b.subscriber? id).isSome := by
  obtain ⟨-, -, s, hs, -⟩ := due_eq_some_iff.1 h
  rw [hs]
  rfl

/-- **The mirror.** A route is the one a subscriber is to know of under a key just
    when its diary ends, as to the key, with being told of the route. -/
theorem due_iff_diary (cs : List Command) (id : String) (k : Nlri.Key) (x : Stored) :
    (Bus.run {} cs).1.due id k = some x ↔
      (about k (diary id cs)).getLast? = some (.told x.advertised) := by
  induction cs using List.reverseRecOn generalizing x with
  | nil => simp [diary, about, due_empty, Bus.run]
  | append_singleton cs c ih =>
    have hc := step_change (keyed_empty.run cs) id k c
    rw [run_concat, diary_concat]
    simp only
    -- without a record there is neither a diary nor a route to know of
    by_cases hreg : (((Bus.run {} cs).1.step c).1.subscriber? id).isSome = true
    swap
    · rw [if_neg hreg]
      constructor
      · intro h
        exact absurd (subscriber?_of_due h) hreg
      · intro h
        cases h
    rw [if_pos hreg, about_append, about_notes]
    generalize told id k ((Bus.run {} cs).1.step c).2 = es at hc ⊢
    generalize hd' : ((Bus.run {} cs).1.step c).1.due id k = d' at hc ⊢
    generalize hd : (Bus.run {} cs).1.due id k = d at hc ih
    cases hc with
    | kept h =>
      rw [about_publication_eq_nil h]
      simpa using ih x
    | told r h =>
      rw [about_publication_eq_nil h]
      rcases r with ⟨p, e⟩
      rcases x with ⟨q, f⟩
      simp [Stored.advertised, and_comm]
    | retracted r h =>
      rw [about_publication_eq_nil h]
      simp [Stored.advertised, Stored.withdrawn]
    | taken r hr hk =>
      subst hr hk
      rw [about_publication_self]
      simp
    | forgotten hr =>
      subst hr
      simp [Bus.step, subscriber?_cleanup] at hreg

/-- The last event told of ends a diary, unless something was published after it. -/
theorem getLast?_about_of_lastTold {k : Nlri.Key} {ns : List Note} {e : Route.Event}
    (h : lastTold k ns = some e) : (about k ns).getLast? = some (.told e) ∨
      ∃ r, (about k ns).getLast? = some (.published r) := by
  unfold lastTold at h
  rcases List.eq_nil_or_concat' (about k ns) with hn | ⟨l, n, hn⟩
  · rw [hn] at h
    cases h
  · rw [hn] at h ⊢
    rw [List.getLast?_concat]
    cases n with
    | told f =>
      left
      simpa [List.filterMap_append, Note.event?] using h
    | published r => exact Or.inr ⟨r, rfl⟩

/-- **No stale route, but where the subscriber took its place.** The last route a
    registered subscriber was told of under a key, since its record was made, is the
    stored one, of another, and asked for, just when the subscriber has published
    nothing under the key after it was told. -/
theorem last_advertised_current_iff (cs : List Command) (id : String) (s : Subscriber)
    (k : Nlri.Key) (e : Route) (p : String)
    (hs : (Bus.run {} cs).1.subscriber? id = some s)
    (hlast : lastTold k (diary id cs) = some ⟨.advertise, e, p⟩) :
    ((Bus.run {} cs).1.stored? k = some ⟨p, e⟩ ∧ p ≠ id ∧ s.covers e = true) ↔
      ∀ r, (about k (diary id cs)).getLast? ≠ some (.published r) := by
  have hdue : (Bus.run {} cs).1.due id k = some ⟨p, e⟩ ↔
      (Bus.run {} cs).1.stored? k = some ⟨p, e⟩ ∧ p ≠ id ∧ s.covers e = true := by
    rw [due_eq_some_iff, hs]
    simp
  rw [← hdue, due_iff_diary]
  constructor
  · intro h r hr
    rw [h] at hr
    cases hr
  · intro h
    rcases getLast?_about_of_lastTold hlast with ht | ⟨r, hr⟩
    · exact ht
    · exact absurd hr (h r)

/-- After a takeover by a third party the subscriber's view is current. -/
theorem takeover_current :
    (Bus.run {} Sample.takeover).1.stored? (Route.sample 8 []).key = some ⟨"q", Route.sample 8 []⟩ ∧
      "q" ≠ "s" ∧ Sample.subscriber.covers (Route.sample 8 []) = true := by
  refine (last_advertised_current_iff Sample.takeover "s" Sample.subscriber (Route.sample 8 []).key
    (Route.sample 8 []) "q" (by decide) (by decide)).2 fun r hr => ?_
  have hend : (about (Route.sample 8 []).key (diary "s" Sample.takeover)).getLast? =
      some (.told ⟨.advertise, Route.sample 8 [], "q"⟩) := by decide
  rw [hend] at hr
  cases hr

/-- The subscriber publishes the key itself, and then the source it was told of goes away. -/
def Sample.overtaken : List Command :=
  [.subscribe "s" (.worker 0 0) ⟨.ipv4MplsVpn, none⟩,
    .advertise "p" (Route.sample 8 []),
    .advertise "s" (Route.sample 8 [.as2 65000 1]),
    .cleanup "p"]

/-- What a subscriber was told of last need not be current: nothing takes it back
    from a subscriber that publishes the key. -/
theorem last_advertised_not_always_current :
    ¬ ∀ (cs : List Command) (id : String) (s : Subscriber) (k : Nlri.Key) (e : Route)
      (p : String), (Bus.run {} cs).1.subscriber? id = some s →
      lastTold k (diary id cs) = some ⟨.advertise, e, p⟩ →
      (Bus.run {} cs).1.stored? k = some ⟨p, e⟩ ∧ p ≠ id ∧ s.covers e = true := by
  intro h
  have hstored := (h Sample.overtaken "s" Sample.subscriber (Route.sample 8 []).key
    (Route.sample 8 []) "p" (by decide) (by decide)).1
  exact absurd hstored (by decide)

end RouteExchange.Bus
