/-
  Each key and each name stands once on a bus.

  `Bus.Keyed` says that the table holds at most one route for a key and that the
  subscribers have distinct names.  The empty bus is keyed, and every command
  keeps it so.  What a command does is then read off the two lookups `stored?`
  and `subscriber?`, for which there is one lemma for each command.
-/
import Mathlib.Data.List.Nodup
import RouteExchange.Bus

namespace RouteExchange

/-! ## Lists with distinct keys -/

namespace KeyedList

variable {α β κ : Type} [DecidableEq κ] {key : α → κ}

theorem find?_eq_none_of_notMem {l : List α} {k : κ} (h : k ∉ l.map key) :
    (l.find? fun x => key x == k) = none := by
  rw [List.find?_eq_none]
  intro x hx hk
  exact h (List.mem_map.2 ⟨x, hx, eq_of_beq hk⟩)

theorem find?_of_mem {l : List α} (hn : (l.map key).Nodup) {x : α} (hx : x ∈ l) :
    (l.find? fun y => key y == key x) = some x := by
  induction l with
  | nil => cases hx
  | cons y l ih =>
    rw [List.map_cons, List.nodup_cons] at hn
    rcases List.mem_cons.1 hx with rfl | hx
    · simp
    · have hne : key y ≠ key x := fun h => hn.1 (h ▸ List.mem_map_of_mem hx)
      simp [hne, ih hn.2 hx]

/-- The order of a list with distinct keys does not matter to a look-up. -/
theorem find?_perm {l l' : List α} (hn : (l.map key).Nodup) (h : l.Perm l') (k : κ) :
    (l.find? fun x => key x == k) = l'.find? fun x => key x == k := by
  have hn' : (l'.map key).Nodup := (h.map key).nodup_iff.1 hn
  cases hx : l.find? fun x => key x == k with
  | none =>
    symm
    rw [List.find?_eq_none] at hx ⊢
    exact fun x hmem => hx x (h.mem_iff.2 hmem)
  | some x =>
    obtain rfl : key x = k := eq_of_beq (List.find?_some (p := fun x => key x == k) hx)
    exact (find?_of_mem hn' (h.mem_iff.1 (List.mem_of_find?_eq_some hx))).symm

/-- What only the elements with a key contribute to is what the one found contributes. -/
theorem flatMap_eq_find? {l : List α} (hn : (l.map key).Nodup) {k : κ} {g : α → List β}
    (hg : ∀ x, key x ≠ k → g x = []) :
    l.flatMap g = (l.find? fun x => key x == k).toList.flatMap g := by
  induction l with
  | nil => rfl
  | cons x l ih =>
    rw [List.map_cons, List.nodup_cons] at hn
    rw [List.flatMap_cons, ih hn.2]
    by_cases hx : key x = k
    · rw [find?_eq_none_of_notMem (hx ▸ hn.1)]
      simp [hx]
    · simp [hg x hx, hx]

omit [DecidableEq κ] in
theorem map_filter_eq_flatMap (l : List α) (p : α → Bool) (f : α → β) :
    (l.filter p).map f = l.flatMap fun x => if p x then [f x] else [] := by
  induction l with
  | nil => rfl
  | cons x l ih => by_cases hp : p x = true <;> simp [hp, ih]

omit [DecidableEq κ] in
theorem flatMap_filter (l : List α) (p : α → Bool) (g : α → List β) :
    (l.filter p).flatMap g = l.flatMap fun x => if p x then g x else [] := by
  induction l with
  | nil => rfl
  | cons x l ih => by_cases hp : p x = true <;> simp [hp, ih]

/-- A filter keeps what is found, or there is nothing left to be found. -/
theorem find?_filter {l : List α} (hn : (l.map key).Nodup) (k : κ) (p : α → Bool) :
    ((l.filter p).find? fun x => key x == k) = (l.find? fun x => key x == k).filter p := by
  induction l with
  | nil => rfl
  | cons x l ih =>
    rw [List.map_cons, List.nodup_cons] at hn
    by_cases hx : key x = k
    · have hnone := find?_eq_none_of_notMem (hx ▸ hn.1)
      rw [hnone] at ih
      by_cases hp : p x = true
      · simp [hx, hp, Option.filter]
      · simp [hx, hp, ih hn.2, Option.filter]
    · by_cases hp : p x = true <;> simp [hx, hp, ih hn.2]

/-- Removing a key hides it, and nothing else. -/
theorem find?_remove (l : List α) (k k' : κ) :
    ((l.filter fun x => key x != k).find? fun x => key x == k') =
      if k' = k then none else l.find? fun x => key x == k' := by
  rw [List.find?_filter]
  split
  · next h =>
    subst h
    simp [List.find?_eq_none]
  · next h =>
    congr 1
    funext x
    by_cases hx : key x = k' <;> simp_all

omit [DecidableEq κ] in
theorem nodup_filter {l : List α} (hn : (l.map key).Nodup) (p : α → Bool) :
    ((l.filter p).map key).Nodup :=
  hn.sublist (List.filter_sublist.map key)

/-- An element may be put before the rest, once its key is removed from it. -/
theorem nodup_replace {l : List α} (hn : (l.map key).Nodup) (x : α) :
    ((x :: l.filter fun y => key y != key x).map key).Nodup := by
  rw [List.map_cons, List.nodup_cons]
  refine ⟨fun h => ?_, nodup_filter hn _⟩
  obtain ⟨y, hy, hk⟩ := List.mem_map.1 h
  simp [hk] at hy

end KeyedList

/-! ## Keyed buses -/

namespace Bus

/-- Each key has at most one route, and each name one subscriber. -/
structure Keyed (b : Bus) : Prop where
  keys : (b.table.map Stored.key).Nodup
  names : (b.subscribers.map Subscriber.id).Nodup

theorem keyed_empty : Keyed {} := ⟨List.nodup_nil, List.nodup_nil⟩

theorem stored?_key {b : Bus} {k : Nlri.Key} {r : Stored} (h : b.stored? k = some r) : r.key = k :=
  eq_of_beq (List.find?_some (p := fun s : Stored => s.key == k) h)

theorem subscriber?_id {b : Bus} {id : String} {s : Subscriber} (h : b.subscriber? id = some s) :
    s.id = id :=
  eq_of_beq (List.find?_some (p := fun s : Subscriber => s.id == id) h)

/-! ## The table and the subscribers after a command -/

theorem stored?_advertise (b : Bus) (source : String) (route : Route) (k : Nlri.Key) :
    (b.advertise source route).1.stored? k =
      if k = route.key then some ⟨source, route⟩ else b.stored? k := by
  simp only [advertise, stored?, without, List.find?_cons, KeyedList.find?_remove]
  by_cases hk : k = route.key
  · simp [hk, Stored.key]
  · have : (route.key == k) = false := beq_false_of_ne fun h => hk h.symm
    simp [hk, Stored.key, this]

theorem stored?_without (b : Bus) (k k' : Nlri.Key) :
    Bus.stored? { b with table := b.without k } k' = if k' = k then none else b.stored? k' :=
  KeyedList.find?_remove b.table k k'

theorem stored?_withdraw (b : Bus) (source : String) (route : Route) (k : Nlri.Key) :
    (b.withdraw source route).1.stored? k =
      if k = route.key then (b.stored? k).filter fun r => r.source != source else b.stored? k := by
  unfold withdraw
  cases hr : b.stored? route.key with
  | none =>
    by_cases hk : k = route.key
    · simp [hk, hr]
    · rw [if_neg hk]
  | some gone =>
    by_cases hs : gone.source = source
    · simp only [hs, if_true, stored?_without]
      by_cases hk : k = route.key
      · simp [hk, hr, hs, Option.filter]
      · rw [if_neg hk, if_neg hk]
    · simp only [hs, if_false]
      by_cases hk : k = route.key
      · simp [hk, hr, hs, Option.filter]
      · rw [if_neg hk]

theorem stored?_subscribe (b : Bus) (id : String) (inbox : Inbox) (i : Subscription)
    (k : Nlri.Key) : (b.subscribe id inbox i).1.stored? k = b.stored? k := by
  unfold subscribe
  simp only
  split <;> rfl

theorem stored?_unsubscribe (b : Bus) (id : String) (i : Subscription) (k : Nlri.Key) :
    (b.unsubscribe id i).1.stored? k = b.stored? k := by
  unfold unsubscribe
  split
  · rfl
  · split <;> rfl

theorem stored?_cleanup {b : Bus} (hb : b.Keyed) (id : String) (k : Nlri.Key) :
    (b.cleanup id).1.stored? k = (b.stored? k).filter fun r => r.source != id :=
  KeyedList.find?_filter hb.keys k _

theorem subscriber?_others (b : Bus) (id name : String) :
    ((b.others id).find? fun s => s.id == name) = if name = id then none else b.subscriber? name :=
  KeyedList.find?_remove b.subscribers id name

/-- A subscriber that takes the place of the one of its name. -/
theorem subscriber?_cons_others (b : Bus) (s : Subscriber) (name : String) :
    ((s :: b.others s.id).find? fun s => s.id == name) =
      if name = s.id then some s else b.subscriber? name := by
  rw [List.find?_cons, subscriber?_others]
  by_cases h : name = s.id
  · simp [h]
  · have : (s.id == name) = false := beq_false_of_ne fun h' => h h'.symm
    simp [h, this]

/-- The interests of a name; a name that is no subscriber has none. -/
def interestsOf (b : Bus) (id : String) : List Subscription :=
  ((b.subscriber? id).map Subscriber.interests).getD []

theorem subscriber?_subscribe (b : Bus) (id : String) (inbox : Inbox) (i : Subscription)
    (name : String) :
    (b.subscribe id inbox i).1.subscriber? name =
      if name = id then some ⟨id, inbox, (b.interestsOf id).insert i⟩ else b.subscriber? name := by
  unfold subscribe interestsOf
  simp only
  split
  · next hi =>
    rw [List.insert_of_mem hi]
    exact subscriber?_cons_others b ⟨id, _, _⟩ name
  · next hi =>
    rw [List.insert_of_not_mem hi]
    exact subscriber?_cons_others b ⟨id, _, _⟩ name

theorem subscriber?_unsubscribe (b : Bus) (id : String) (i : Subscription) (name : String) :
    (b.unsubscribe id i).1.subscriber? name =
      if name = id then (b.subscriber? id).bind fun s =>
        if i ∈ s.interests then
          let rest := s.interests.filter fun j => j != i
          if rest.isEmpty then none else some { s with interests := rest }
        else some s
      else b.subscriber? name := by
  unfold unsubscribe
  cases hs : b.subscriber? id with
  | none => by_cases h : name = id <;> simp [h, hs]
  | some s =>
    have hid := subscriber?_id hs
    by_cases hi : i ∈ s.interests
    · simp only [hi, if_true, Option.bind_some]
      by_cases he : (s.interests.filter fun j => j != i).isEmpty = true
      · simp only [he, if_true]
        exact subscriber?_others b id name
      · simp only [he]
        exact hid ▸ subscriber?_cons_others b { s with interests := _ } name
    · by_cases h : name = id <;> simp [h, hi, hs]

theorem subscriber?_cleanup (b : Bus) (id name : String) :
    (b.cleanup id).1.subscriber? name = if name = id then none else b.subscriber? name :=
  subscriber?_others b id name

/-- What a subscriber is told of a replacement. -/
theorem onReplace_eq_some_iff {new : Stored} {old : Option Stored} {s : Subscriber}
    {d : Delivery} : onReplace new old s = some d ↔ s.id ≠ new.source ∧
      ((s.covers new.route ∧ d = s.deliver new.advertised) ∨
        (¬ s.covers new.route ∧ ∃ o, old = some o ∧ s.covers o.route ∧
          d = s.deliver o.withdrawn)) := by
  unfold onReplace
  by_cases hs : s.id = new.source
  · simp [hs]
  · by_cases hc : s.covers new.route = true
    · simp [hs, hc, @eq_comm _ d]
    · cases old <;> simp [hs, hc, @eq_comm _ d]

/-! ## The interests of a name -/

/-- The name asks for a route. -/
def wants (b : Bus) (id : String) (r : Route) : Bool := (b.interestsOf id).any fun i => i.covers r

theorem interestsOf_of_some {b : Bus} {id : String} {s : Subscriber}
    (h : b.subscriber? id = some s) : b.interestsOf id = s.interests := by
  rw [interestsOf, h, Option.map_some, Option.getD_some]

theorem interestsOf_of_none {b : Bus} {id : String} (h : b.subscriber? id = none) :
    b.interestsOf id = [] := by
  rw [interestsOf, h, Option.map_none, Option.getD_none]

theorem wants_of_some {b : Bus} {id : String} {s : Subscriber} (h : b.subscriber? id = some s)
    (r : Route) : b.wants id r = s.covers r := by
  rw [wants, interestsOf_of_some h]; rfl

theorem wants_of_none {b : Bus} {id : String} (h : b.subscriber? id = none) (r : Route) :
    b.wants id r = false := by
  rw [wants, interestsOf_of_none h]; rfl

theorem subscriber?_withdraw (b : Bus) (source : String) (route : Route) (id : String) :
    (b.withdraw source route).1.subscriber? id = b.subscriber? id := by
  unfold withdraw
  split
  · rfl
  · split <;> rfl

theorem interestsOf_withdraw (b : Bus) (source : String) (route : Route) (id : String) :
    (b.withdraw source route).1.interestsOf id = b.interestsOf id := by
  simp only [interestsOf, subscriber?_withdraw]

theorem wants_withdraw (b : Bus) (source : String) (route : Route) (id : String) (r : Route) :
    (b.withdraw source route).1.wants id r = b.wants id r := by
  simp only [wants, interestsOf_withdraw]

theorem interestsOf_subscribe (b : Bus) (id : String) (inbox : Inbox) (i : Subscription)
    (name : String) : (b.subscribe id inbox i).1.interestsOf name =
      if name = id then (b.interestsOf id).insert i else b.interestsOf name := by
  have h := subscriber?_subscribe b id inbox i name
  by_cases hn : name = id
  · rw [if_pos hn] at h ⊢
    exact interestsOf_of_some h
  · rw [if_neg hn] at h ⊢
    exact congrArg (fun s => (s.map Subscriber.interests).getD []) h

theorem filter_ne_of_notMem {is : List Subscription} {i : Subscription} (hi : i ∉ is) :
    is.filter (fun j => j != i) = is := by
  rw [List.filter_eq_self]
  intro j hj
  exact bne_iff_ne.2 fun h => hi (h ▸ hj)

theorem interestsOf_unsubscribe (b : Bus) (id : String) (i : Subscription) (name : String) :
    (b.unsubscribe id i).1.interestsOf name =
      if name = id then (b.interestsOf id).filter fun j => j != i else b.interestsOf name := by
  unfold interestsOf
  rw [subscriber?_unsubscribe]
  by_cases hn : name = id
  · simp only [hn, if_true]
    cases b.subscriber? id with
    | none => rfl
    | some s =>
      by_cases hi : i ∈ s.interests
      · simp only [Option.bind_some, hi, if_true]
        split
        · next he => simpa using he
        · rfl
      · simp [hi, filter_ne_of_notMem hi]
  · simp only [hn, if_false]

theorem interestsOf_cleanup (b : Bus) (id name : String) :
    (b.cleanup id).1.interestsOf name = if name = id then [] else b.interestsOf name := by
  unfold interestsOf
  rw [subscriber?_cleanup]
  split <;> rfl

/-- An interest that is dropped, and the others. -/
theorem any_eq_or_filter {is : List Subscription} {i : Subscription} (hi : i ∈ is)
    (p : Subscription → Bool) : is.any p = (p i || (is.filter fun j => j != i).any p) := by
  rw [Bool.eq_iff_iff]
  simp only [List.any_eq_true, Bool.or_eq_true, List.mem_filter, bne_iff_ne]
  constructor
  · rintro ⟨j, hj, hp⟩
    by_cases h : j = i
    · exact Or.inl (h ▸ hp)
    · exact Or.inr ⟨j, ⟨hj, h⟩, hp⟩
  · rintro (hp | ⟨j, ⟨hj, -⟩, hp⟩)
    · exact ⟨i, hi, hp⟩
    · exact ⟨j, hj, hp⟩

theorem wants_subscribe (b : Bus) (name : String) (inbox : Inbox) (i : Subscription) (id : String)
    (r : Route) : (b.subscribe name inbox i).1.wants id r =
      (b.wants id r || (decide (id = name) && i.covers r)) := by
  rw [wants, interestsOf_subscribe]
  by_cases hn : id = name
  · subst hn
    rw [if_pos rfl, wants, Bool.eq_iff_iff]
    simp only [List.any_eq_true, List.mem_insert_iff, Bool.or_eq_true, decide_true, Bool.true_and]
    grind
  · simp [hn, wants]

theorem wants_unsubscribe (b : Bus) (name : String) (i : Subscription) (id : String) (r : Route) :
    (b.unsubscribe name i).1.wants id r =
      if id = name then ((b.interestsOf id).filter fun j => j != i).any fun j => j.covers r
      else b.wants id r := by
  rw [wants, interestsOf_unsubscribe]
  split
  · next hn => rw [hn]
  · rfl

theorem wants_cleanup (b : Bus) (name id : String) (r : Route) :
    (b.cleanup name).1.wants id r = (!decide (id = name) && b.wants id r) := by
  rw [wants, interestsOf_cleanup]
  split
  · next hn => simp [hn]
  · next hn => simp [hn, wants]

/-! ## Commands keep a bus keyed -/

theorem Keyed.step {b : Bus} (hb : b.Keyed) (c : Command) : (b.step c).1.Keyed := by
  have hothers (id : String) : ((b.others id).map Subscriber.id).Nodup :=
    KeyedList.nodup_filter hb.names _
  have hreplace (s : Subscriber) : ((s :: b.others s.id).map Subscriber.id).Nodup :=
    KeyedList.nodup_replace hb.names s
  cases c with
  | advertise source route =>
    exact ⟨KeyedList.nodup_replace hb.keys (⟨source, route⟩ : Stored), hb.names⟩
  | withdraw source route =>
    simp only [Bus.step, withdraw]
    split
    · exact hb
    · split
      · exact ⟨KeyedList.nodup_filter hb.keys _, hb.names⟩
      · exact hb
  | subscribe id inbox i =>
    simp only [Bus.step, subscribe]
    split
    · exact ⟨hb.keys, hreplace ⟨id, _, _⟩⟩
    · exact ⟨hb.keys, hreplace ⟨id, _, _⟩⟩
  | unsubscribe id i =>
    simp only [Bus.step, unsubscribe]
    split
    · exact hb
    · next s hs =>
      have hid := subscriber?_id hs
      split
      · refine ⟨hb.keys, ?_⟩
        simp only
        split
        · exact hothers id
        · exact hid ▸ hreplace { s with interests := s.interests.filter fun j => j != i }
      · exact hb
  | cleanup id => exact ⟨KeyedList.nodup_filter hb.keys _, hothers id⟩

/-! ## Runs -/

theorem run_append (b : Bus) (cs ds : List Command) :
    b.run (cs ++ ds) = (((b.run cs).1.run ds).1, (b.run cs).2 ++ ((b.run cs).1.run ds).2) := by
  induction cs generalizing b with
  | nil => rfl
  | cons c cs ih => simp only [List.cons_append, run, ih, List.append_assoc]

theorem run_concat (b : Bus) (cs : List Command) (c : Command) :
    b.run (cs ++ [c]) =
      (((b.run cs).1.step c).1, (b.run cs).2 ++ ((b.run cs).1.step c).2) := by
  rw [run_append]
  simp only [run, List.append_nil]

theorem Keyed.run {b : Bus} (hb : b.Keyed) (cs : List Command) : (b.run cs).1.Keyed := by
  induction cs generalizing b with
  | nil => exact hb
  | cons c cs ih => exact ih (hb.step c)

end Bus

end RouteExchange
