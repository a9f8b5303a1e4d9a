/-
  What one command tells a subscriber about a key.

  `Bus.due` is the stored route under a key that a subscriber is to know of, and
  `Bus.told` are the events about the key among some deliveries.  `Bus.Change`
  lists what a command can do to the two together; `Bus.step_change` says that
  every command does one of these.
-/
import RouteExchange.Proofs.Bus.Keyed

namespace RouteExchange.Bus

/-- The events about a key that are delivered to a name, in order. -/
def told (id : String) (k : Nlri.Key) (ds : List Delivery) : List Route.Event :=
  (ds.filter fun d => d.id = id ∧ d.event.route.key = k).map Delivery.event

/-- The stored route under a key that a subscriber is to know of: that of another,
    if an interest covers it. -/
def due (b : Bus) (id : String) (k : Nlri.Key) : Option Stored :=
  (b.subscriber? id).bind fun s =>
    (b.stored? k).filter fun r => r.source != id && s.covers r.route

theorem due_eq_some_iff {b : Bus} {id : String} {k : Nlri.Key} {r : Stored} :
    b.due id k = some r ↔ b.stored? k = some r ∧ r.source ≠ id ∧
      ∃ s, b.subscriber? id = some s ∧ s.covers r.route := by
  unfold due
  cases b.subscriber? id with
  | none => simp
  | some s => simp [Option.filter_eq_some_iff]

/-- Only the stored route and the interests count. -/
theorem due_eq (b : Bus) (id : String) (k : Nlri.Key) :
    b.due id k = (b.stored? k).filter fun r => r.source != id && b.wants id r.route := by
  unfold due
  cases h : b.subscriber? id with
  | none => cases b.stored? k <;> simp [wants_of_none h, Option.filter]
  | some s => simp [wants_of_some h]

/-! ## The events of single deliveries -/

section
variable (id : String) (k : Nlri.Key)

@[simp] theorem told_nil : told id k [] = [] := rfl

theorem told_append (xs ys : List Delivery) :
    told id k (xs ++ ys) = told id k xs ++ told id k ys := by
  simp only [told, List.filter_append, List.map_append]

theorem told_flatMap {α : Type} (xs : List α) (g : α → List Delivery) :
    told id k (xs.flatMap g) = xs.flatMap fun x => told id k (g x) := by
  simp only [told, List.filter_flatMap, List.map_flatMap]

theorem told_singleton (d : Delivery) :
    told id k [d] = if d.id = id ∧ d.event.route.key = k then [d.event] else [] := by
  unfold told
  split <;> simp_all

theorem told_eq_nil_of_name {ds : List Delivery} (h : ∀ d ∈ ds, d.id ≠ id) : told id k ds = [] := by
  rw [told, List.filter_eq_nil_iff.2 fun d hd hk => h d hd (of_decide_eq_true hk).1]
  rfl

theorem told_eq_nil_of_key {ds : List Delivery} (h : ∀ d ∈ ds, d.event.route.key ≠ k) :
    told id k ds = [] := by
  rw [told, List.filter_eq_nil_iff.2 fun d hd hk => h d hd (of_decide_eq_true hk).2]
  rfl

end

/-! ## The events of a command -/

section
variable {b : Bus} (hb : b.Keyed) (id : String) (k : Nlri.Key)
include hb

/-- Of what is sent to subscribers one by one, a name is told what the subscriber
    of that name is sent. -/
theorem told_subscribers {g : Subscriber → List Delivery} (hg : ∀ s, ∀ d ∈ g s, d.id = s.id) :
    told id k (b.subscribers.flatMap g) =
      (b.subscriber? id).toList.flatMap fun s => told id k (g s) := by
  rw [told_flatMap]
  exact KeyedList.flatMap_eq_find? hb.names fun s hs =>
    told_eq_nil_of_name id k fun d hd => hg s d hd ▸ hs

/-- Of what is sent about stored routes one by one, what is told about a key is
    about the route stored under it. -/
theorem told_table {g : Stored → List Delivery} (hg : ∀ r, ∀ d ∈ g r, d.event.route.key = r.key) :
    told id k (b.table.flatMap g) = (b.stored? k).toList.flatMap fun r => told id k (g r) := by
  rw [told_flatMap]
  exact KeyedList.flatMap_eq_find? hb.keys fun r hr =>
    told_eq_nil_of_key id k fun d hd => hg r d hd ▸ hr

theorem told_advertise (source : String) (route : Route) :
    told id k (b.advertise source route).2 =
      if route.key = k ∧ source ≠ id then
        if b.wants id route then [⟨.advertise, route, source⟩]
        else ((b.stored? k).filter fun o => b.wants id o.route).toList.map Stored.withdrawn
      else [] := by
  have hsent : told id k (b.advertise source route).2 = (b.subscriber? id).toList.flatMap fun s =>
      told id k (onReplace ⟨source, route⟩ (b.stored? route.key) s).toList := by
    simp only [advertise, List.filterMap_eq_flatMap_toList]
    refine told_subscribers hb id k fun s d hd => ?_
    obtain ⟨-, ⟨-, rfl⟩ | ⟨-, o, -, -, rfl⟩⟩ := onReplace_eq_some_iff.1 (Option.mem_toList.1 hd)
    · rfl
    · rfl
  rw [hsent]
  cases hs : b.subscriber? id with
  | none => cases b.stored? k <;> simp [wants_of_none hs, Option.filter]
  | some s =>
    obtain rfl := subscriber?_id hs
    simp only [Option.toList_some, List.flatMap_singleton, wants_of_some hs]
    by_cases hk : route.key = k ∧ source ≠ s.id
    · obtain ⟨rfl, ho⟩ := hk
      have ho' : s.id ≠ source := ho.symm
      by_cases hc : s.covers route = true
      · simp [onReplace, ho, ho', hc, told_singleton, Subscriber.deliver, Stored.advertised]
      · cases hr : b.stored? route.key with
        | none => simp [onReplace, hc]
        | some o =>
          have hok : o.route.key = route.key := stored?_key hr
          by_cases hco : s.covers o.route = true
          · simp [onReplace, ho, ho', hc, hco, told_singleton, Subscriber.deliver, hok,
              Stored.withdrawn, Option.filter]
          · simp [onReplace, ho, hc, hco, Option.filter]
    · rw [if_neg hk]
      refine told_eq_nil_of_key s.id k fun d hd he => hk ?_
      obtain ⟨ho, ⟨-, rfl⟩ | ⟨-, o, hr, -, rfl⟩⟩ :=
        onReplace_eq_some_iff.1 (Option.mem_toList.1 hd)
      · exact ⟨he, ho.symm⟩
      · have hok : o.route.key = route.key := stored?_key hr
        exact ⟨hok.symm.trans he, ho.symm⟩

theorem told_onRemove (gone : Stored) :
    told id k (onRemove b.subscribers gone) =
      if gone.key = k ∧ gone.source ≠ id ∧ b.wants id gone.route then [gone.withdrawn] else [] := by
  have hsent : told id k (onRemove b.subscribers gone) =
      (b.subscriber? id).toList.flatMap fun s => told id k
        (if s.id != gone.source && s.covers gone.route then [s.deliver gone.withdrawn]
          else []) := by
    rw [onRemove, KeyedList.map_filter_eq_flatMap]
    refine told_subscribers hb id k fun s d hd => ?_
    split at hd
    · rw [List.mem_singleton.1 hd]; rfl
    · simp at hd
  rw [hsent]
  cases hs : b.subscriber? id with
  | none => simp [wants_of_none hs]
  | some s =>
    obtain rfl := subscriber?_id hs
    rw [Option.toList_some, List.flatMap_singleton, wants_of_some hs]
    by_cases hc : s.id ≠ gone.source ∧ s.covers gone.route
    · simp [hc, hc.1.symm, told_singleton, Subscriber.deliver, Stored.withdrawn, Stored.key]
    · rw [if_neg (by simpa using hc), if_neg fun h => hc ⟨h.2.1.symm, h.2.2⟩]
      rfl

theorem told_added (s : Subscriber) (i : Subscription) {event : Stored → Route.Event}
    (he : ∀ r, (event r).route = r.route) :
    told id k ((b.added s i).map fun r => s.deliver (event r)) =
      if s.id = id then ((b.stored? k).filter fun r =>
        r.source != s.id && !s.covers r.route && i.covers r.route).toList.map event
      else [] := by
  have hsent : told id k ((b.added s i).map fun r => s.deliver (event r)) =
      (b.stored? k).toList.flatMap fun r => told id k
        (if r.source != s.id && !s.covers r.route && i.covers r.route then
          [s.deliver (event r)] else []) := by
    rw [added, KeyedList.map_filter_eq_flatMap]
    refine told_table hb id k fun r d hd => ?_
    split at hd
    · rw [List.mem_singleton.1 hd]
      exact congrArg Route.key (he r)
    · simp at hd
  rw [hsent]
  cases hr : b.stored? k with
  | none => simp
  | some r =>
    have hk : (event r).route.key = k := (congrArg Route.key (he r)).trans (stored?_key hr)
    rw [Option.toList_some, List.flatMap_singleton, Option.filter_some]
    by_cases hn : s.id = id
    · rw [if_pos hn]
      split
      · simp [told_singleton, Subscriber.deliver, hn, hk]
      · rfl
    · rw [if_neg hn]
      split
      · simp [told_singleton, Subscriber.deliver, hn]
      · rfl

theorem told_withdraw (source : String) (route : Route) :
    told id k (b.withdraw source route).2 =
      if route.key = k then ((b.stored? k).filter fun r =>
        r.source == source && r.source != id && b.wants id r.route).toList.map Stored.withdrawn
      else [] := by
  unfold withdraw
  cases hr : b.stored? route.key with
  | none =>
    by_cases hk : route.key = k
    · simp [← hk, hr]
    · simp [hk]
  | some gone =>
    have hgk : gone.key = route.key := stored?_key hr
    by_cases hs : gone.source = source
    · simp only [hs, if_true]
      rw [told_onRemove hb, hgk]
      by_cases hk : route.key = k
      · subst hk
        by_cases hc : gone.source ≠ id ∧ b.wants id gone.route
        · simp [hr, hc, hs, hs ▸ hc.1, Option.filter]
        · rw [if_neg fun h => hc h.2, if_pos rfl, hr,
            Option.filter_some_neg (by simpa [hs] using hc)]
          rfl
      · rw [if_neg hk, if_neg fun h => hk h.1]
    · by_cases hk : route.key = k
      · simp [← hk, hr, hs, Option.filter]
      · simp [hs, hk]

theorem told_subscribe (name : String) (inbox : Inbox) (i : Subscription) :
    told id k (b.subscribe name inbox i).2 =
      if name = id then ((b.stored? k).filter fun r =>
        r.source != id && !b.wants id r.route && i.covers r.route).toList.map Stored.advertised
      else [] := by
  unfold subscribe
  simp only
  split
  · next hi =>
    have hold (r : Stored) (h : i.covers r.route = true) : b.wants name r.route = true :=
      List.any_eq_true.2 ⟨i, hi, h⟩
    by_cases hn : name = id
    · subst hn
      rw [if_pos rfl, Option.filter_eq_none_iff.2 fun r _ => by have := hold r; grind]
      rfl
    · rw [if_neg hn, told_nil]
  · rw [told_added hb _ _ _ _ fun _ => rfl]
    by_cases hn : name = id
    · subst hn
      rw [if_pos rfl, if_pos rfl]
      rfl
    · rw [if_neg hn, if_neg hn]

theorem told_unsubscribe (name : String) (i : Subscription) :
    told id k (b.unsubscribe name i).2 =
      if name = id then ((b.stored? k).filter fun r =>
        r.source != id && b.wants id r.route &&
          !(b.unsubscribe name i).1.wants id r.route).toList.map Stored.withdrawn
      else [] := by
  simp only [wants_unsubscribe]
  unfold unsubscribe wants
  cases hs : b.subscriber? name with
  | none =>
    by_cases hn : name = id
    · cases b.stored? k <;> simp [← hn, interestsOf_of_none hs, Option.filter]
    · simp [hn]
  | some s =>
    obtain rfl := subscriber?_id hs
    by_cases hi : i ∈ s.interests
    · simp only [hi, if_true]
      rw [told_added hb _ _ _ _ fun _ => rfl]
      by_cases hn : s.id = id
      · subst hn
        rw [if_pos rfl, if_pos rfl, interestsOf_of_some hs]
        congr 3
        funext r
        rw [any_eq_or_filter hi fun j => j.covers r.route, if_pos rfl, Subscriber.covers]
        cases i.covers r.route <;> simp
      · rw [if_neg hn, if_neg hn]
    · simp only [hi, if_false]
      by_cases hn : s.id = id
      · subst hn
        simp only [if_true, interestsOf_of_some hs, filter_ne_of_notMem hi]
        rw [Option.filter_eq_none_iff.2 (by grind)]
        rfl
      · rw [if_neg hn, told_nil]

theorem told_cleanup (name : String) :
    told id k (b.cleanup name).2 =
      if name = id then [] else ((b.stored? k).filter fun r =>
        r.source == name && b.wants id r.route).toList.map Stored.withdrawn := by
  have hsent : told id k (b.cleanup name).2 = (b.stored? k).toList.flatMap fun r =>
      told id k (if r.source == name then onRemove (b.others name) r else []) := by
    simp only [cleanup, KeyedList.flatMap_filter]
    refine told_table hb id k fun r d hd => ?_
    split at hd
    · obtain ⟨s, -, rfl⟩ := List.mem_map.1 hd
      rfl
    · simp at hd
  rw [hsent]
  cases hr : b.stored? k with
  | none => simp
  | some r =>
    rw [Option.toList_some, List.flatMap_singleton, Option.filter_some]
    by_cases hs : r.source = name
    · rw [if_pos (beq_iff_eq.2 hs)]
      -- the removal tells the subscribers that are left
      have := told_onRemove (hb.step (.cleanup name)) id k r
      simp only [Bus.step, wants_cleanup, stored?_key hr, hs] at this
      refine this.trans ?_
      by_cases hn : name = id
      · simp [hn]
      · have hn' : id ≠ name := fun h => hn h.symm
        by_cases hc : b.wants id r.route = true
        · simp [hn, hn', hs, hc]
        · simp [hn, hs, hc]
    · simp [hs]

end

/-! ## What a command changes -/

/-- What a command can do to the route under a key that a subscriber is to know
    of, from the one before to the one after, and what it tells about the key. -/
inductive Change (id : String) (k : Nlri.Key) (c : Command) :
    Option Stored → Option Stored → List Route.Event → Prop
  | kept (o : Option Stored) (h : ∀ r, c = .advertise id r → r.key ≠ k) : Change id k c o o []
  | told (o : Option Stored) (r : Stored) (h : ∀ r, c = .advertise id r → r.key ≠ k) :
    Change id k c o (some r) [r.advertised]
  | retracted (o : Option Stored) (r : Stored) (h : ∀ r, c = .advertise id r → r.key ≠ k) :
    Change id k c o none [r.withdrawn]
  /-- The subscriber publishes the key itself. -/
  | taken (o : Option Stored) (r : Route) (hc : c = .advertise id r) (hk : r.key = k) :
    Change id k c o none []
  /-- The subscriber is forgotten. -/
  | forgotten (o : Option Stored) (hc : c = .cleanup id) : Change id k c o none []

section
variable {id : String} {k : Nlri.Key} {c : Command} (h : ∀ r, c = .advertise id r → r.key ≠ k)
  {p q : Stored → Bool}
include h

/-- More routes are asked for: what this adds is told. -/
theorem Change.gain (o : Option Stored) (hpq : ∀ r, p r = true → q r = true) :
    Change id k c (o.filter p) (o.filter q)
      ((o.filter fun r => q r && !p r).toList.map Stored.advertised) := by
  cases o with
  | none => exact .kept none h
  | some r =>
    simp only [Option.filter_some]
    by_cases hp : p r = true
    · simpa [hp, hpq r hp] using Change.kept (some r) h
    · by_cases hq : q r = true
      · simpa [hp, hq] using Change.told none r h
      · simpa [hp, hq] using Change.kept none h

/-- Fewer routes are asked for, or there: what this drops is taken back. -/
theorem Change.lose (o : Option Stored) (hqp : ∀ r, q r = true → p r = true) :
    Change id k c (o.filter p) (o.filter q)
      ((o.filter fun r => p r && !q r).toList.map Stored.withdrawn) := by
  cases o with
  | none => exact .kept none h
  | some r =>
    simp only [Option.filter_some]
    by_cases hq : q r = true
    · simpa [hq, hqp r hq] using Change.kept (some r) h
    · by_cases hp : p r = true
      · simpa [hp, hq] using Change.retracted (some r) r h
      · simpa [hp, hq] using Change.kept none h

end

section
variable {b : Bus} (hb : b.Keyed) (id : String) (k : Nlri.Key)
include hb

theorem change_advertise (source : String) (route : Route) :
    Change id k (.advertise source route) (b.due id k) ((b.advertise source route).1.due id k)
      (told id k (b.advertise source route).2) := by
  have hw : (b.advertise source route).1.wants id = b.wants id := rfl
  rw [told_advertise hb, due_eq, due_eq, stored?_advertise, hw]
  by_cases hk : route.key = k
  · subst hk
    by_cases ho : source = id
    · subst ho
      simpa [Option.filter] using Change.taken _ route rfl rfl
    · have hown : ∀ r, Command.advertise source route = .advertise id r → r.key ≠ route.key :=
        fun r hr => by cases hr; exact absurd rfl ho
      rw [if_pos rfl, if_pos ⟨rfl, ho⟩]
      by_cases hc : b.wants id route = true
      · rw [if_pos hc, Option.filter_some_pos (by simp [ho, hc])]
        exact .told _ ⟨source, route⟩ hown
      · rw [if_neg hc, Option.filter_some_neg (by simp [hc])]
        cases b.stored? route.key with
        | none => exact .kept none hown
        | some o =>
          by_cases hco : b.wants id o.route = true
          · simpa [hco, Option.filter] using Change.retracted _ o hown
          · simpa [hco, Option.filter] using Change.kept none hown
  · rw [if_neg fun h => hk h.symm, if_neg fun h => hk h.1]
    exact .kept _ fun r hr => by cases hr; exact hk

theorem change_withdraw (source : String) (route : Route) :
    Change id k (.withdraw source route) (b.due id k) ((b.withdraw source route).1.due id k)
      (told id k (b.withdraw source route).2) := by
  have hown : ∀ r, Command.withdraw source route = .advertise id r → r.key ≠ k := by
    rintro r ⟨⟩
  rw [told_withdraw hb, due_eq, due_eq, stored?_withdraw]
  simp only [wants_withdraw]
  by_cases hk : route.key = k
  · rw [if_pos hk, if_pos hk.symm, Option.filter_filter]
    convert Change.lose hown (b.stored? k) ?_ using 3
    · grind
    · grind
  · rw [if_neg hk, if_neg fun h => hk h.symm]
    exact .kept _ hown

theorem change_subscribe (name : String) (inbox : Inbox) (i : Subscription) :
    Change id k (.subscribe name inbox i) (b.due id k) ((b.subscribe name inbox i).1.due id k)
      (told id k (b.subscribe name inbox i).2) := by
  have hown : ∀ r, Command.subscribe name inbox i = .advertise id r → r.key ≠ k := by
    rintro r ⟨⟩
  rw [told_subscribe hb, due_eq, due_eq, stored?_subscribe]
  simp only [wants_subscribe]
  by_cases hn : name = id
  · subst hn
    rw [if_pos rfl]
    convert Change.gain hown (b.stored? k) ?_ using 3
    · grind
    · grind
  · have hn' : id ≠ name := fun h => hn h.symm
    simpa [hn, hn'] using Change.kept _ hown

theorem change_unsubscribe (name : String) (i : Subscription) :
    Change id k (.unsubscribe name i) (b.due id k) ((b.unsubscribe name i).1.due id k)
      (told id k (b.unsubscribe name i).2) := by
  have hown : ∀ r, Command.unsubscribe name i = .advertise id r → r.key ≠ k := by
    rintro r ⟨⟩
  have hless (r : Route) (hr : (b.unsubscribe name i).1.wants id r = true) :
      b.wants id r = true := by
    rw [wants_unsubscribe] at hr
    split at hr
    · obtain ⟨j, hj, hc⟩ := List.any_eq_true.1 hr
      exact List.any_eq_true.2 ⟨j, (List.mem_filter.1 hj).1, hc⟩
    · exact hr
  rw [told_unsubscribe hb, due_eq, due_eq, stored?_unsubscribe]
  by_cases hn : name = id
  · rw [if_pos hn]
    convert Change.lose hown (b.stored? k) ?_ using 3
    · grind
    · grind
  · rw [if_neg hn]
    have hsame (r : Route) : (b.unsubscribe name i).1.wants id r = b.wants id r := by
      rw [wants_unsubscribe, if_neg fun h => hn h.symm]
    simp only [hsame]
    exact .kept _ hown

theorem change_cleanup (name : String) :
    Change id k (.cleanup name) (b.due id k) ((b.cleanup name).1.due id k)
      (told id k (b.cleanup name).2) := by
  have hown : ∀ r, Command.cleanup name = .advertise id r → r.key ≠ k := by
    rintro r ⟨⟩
  rw [told_cleanup hb, due_eq, due_eq, stored?_cleanup hb]
  simp only [wants_cleanup]
  by_cases hn : name = id
  · subst hn
    simpa using Change.forgotten _ rfl
  · have hn' : id ≠ name := fun h => hn h.symm
    rw [if_neg hn, Option.filter_filter]
    convert Change.lose hown (b.stored? k) ?_ using 3
    · grind
    · grind

/-- Every command does one of these to each subscriber and key. -/
theorem step_change (c : Command) :
    Change id k c (b.due id k) ((b.step c).1.due id k) (told id k (b.step c).2) := by
  cases c with
  | advertise source route => exact change_advertise hb id k source route
  | withdraw source route => exact change_withdraw hb id k source route
  | subscribe name inbox i => exact change_subscribe hb id k name inbox i
  | unsubscribe name i => exact change_unsubscribe hb id k name i
  | cleanup name => exact change_cleanup hb id k name

end

end RouteExchange.Bus
