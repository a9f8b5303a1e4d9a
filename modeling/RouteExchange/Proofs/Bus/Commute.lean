/-
  A publication that races a change of interests.

  What a command makes of the table depends on the table alone (`table_step_congr`),
  and what it makes of the records on the records alone (`subscribers_step_congr`).
  So a command that changes the interests of one name and a command by which another
  publishes, retracts or goes away leave the same bus in either order (`step_comm`).
  What is told differs with the order, but `interest_commutes_with_publication` says
  that it comes to the same.
-/
import RouteExchange.Proofs.Bus.History
import RouteExchange.Proofs.Bus.Mirror
import RouteExchange.Proofs.Bus.View

namespace RouteExchange.Bus

namespace Command

/-- Changes the interests of a name, whose events are to go to an inbox. -/
def Steers (id : String) (inbox : Inbox) : Command → Prop
  | subscribe name box _ => name = id ∧ box = inbox
  | unsubscribe name _ => name = id
  | advertise _ _ | withdraw _ _ | cleanup _ => False

/-- Publishes or retracts routes. -/
def Publishes : Command → Prop
  | advertise _ _ | withdraw _ _ | cleanup _ => True
  | subscribe _ _ _ | unsubscribe _ _ => False

end Command

/-! ## The table and the records apart -/

theorem stored?_congr {b b' : Bus} (h : b.table = b'.table) (k : Nlri.Key) :
    b.stored? k = b'.stored? k := by
  rw [stored?, stored?, h]

theorem subscriber?_congr {b b' : Bus} (h : b.subscribers = b'.subscribers) (id : String) :
    b.subscriber? id = b'.subscriber? id := by
  rw [subscriber?, subscriber?, h]

theorem table_withdraw (b : Bus) (source : String) (route : Route) :
    (b.withdraw source route).1.table =
      if (b.stored? route.key).any fun r => r.source = source then b.without route.key
      else b.table := by
  unfold withdraw
  cases b.stored? route.key with
  | none => rfl
  | some gone => by_cases hs : gone.source = source <;> simp [hs]

theorem subscribers_withdraw (b : Bus) (source : String) (route : Route) :
    (b.withdraw source route).1.subscribers = b.subscribers := by
  unfold withdraw
  split
  · rfl
  · split <;> rfl

theorem subscribers_subscribe (b : Bus) (id : String) (inbox : Inbox) (i : Subscription) :
    (b.subscribe id inbox i).1.subscribers =
      ⟨id, inbox, (b.interestsOf id).insert i⟩ :: b.others id := by
  unfold subscribe interestsOf
  simp only
  split
  · next hi => rw [List.insert_of_mem hi]
  · next hi => rw [List.insert_of_not_mem hi]

theorem subscribers_unsubscribe (b : Bus) (id : String) (i : Subscription) :
    (b.unsubscribe id i).1.subscribers = (b.subscriber? id).elim b.subscribers fun s =>
      if i ∈ s.interests then
        let rest := s.interests.filter fun j => j != i
        if rest.isEmpty then b.others id else { s with interests := rest } :: b.others id
      else b.subscribers := by
  unfold unsubscribe
  cases b.subscriber? id with
  | none => rfl
  | some s => by_cases hi : i ∈ s.interests <;> simp [hi]

/-- Of the bus only the table counts for the table. -/
theorem table_step_congr {b b' : Bus} (h : b.table = b'.table) (c : Command) :
    (b.step c).1.table = (b'.step c).1.table := by
  cases c with
  | advertise source route => simp only [Bus.step, advertise, without, h]
  | withdraw source route => simp only [Bus.step, table_withdraw, without, stored?_congr h, h]
  | subscribe id inbox i => simp only [Bus.step, table_subscribe, h]
  | unsubscribe id i => simp only [Bus.step, table_unsubscribe, h]
  | cleanup id => simp only [Bus.step, cleanup, h]

/-- Of the bus only the records count for the records. -/
theorem subscribers_step_congr {b b' : Bus} (h : b.subscribers = b'.subscribers) (c : Command) :
    (b.step c).1.subscribers = (b'.step c).1.subscribers := by
  cases c with
  | advertise source route => exact h
  | withdraw source route => simp only [Bus.step, subscribers_withdraw, h]
  | subscribe id inbox i =>
    simp only [Bus.step, subscribers_subscribe, interestsOf, subscriber?_congr h, others, h]
  | unsubscribe id i =>
    simp only [Bus.step, subscribers_unsubscribe, subscriber?_congr h, others, h]
  | cleanup id => simp only [Bus.step, cleanup, others, h]

/-! ## Two commands, in either order -/

section
variable {b : Bus} {c d : Command} {id : String} {inbox : Inbox}

theorem table_step_of_steers (hc : c.Steers id inbox) : (b.step c).1.table = b.table := by
  cases c with
  | subscribe name box i => exact table_subscribe b name box i
  | unsubscribe name i => exact table_unsubscribe b name i
  | advertise source route => cases hc
  | withdraw source route => cases hc
  | cleanup name => cases hc

theorem others_comm (b : Bus) (id name : String) :
    (b.others id).filter (fun s => s.id != name) = (b.others name).filter fun s => s.id != id := by
  rw [others, others, List.filter_comm]

/-- The clean-up of another may come before a change of interests. -/
theorem others_step_of_steers (hc : c.Steers id inbox) {name : String} (hne : name ≠ id) :
    (b.step c).1.others name = ((b.cleanup name).1.step c).1.subscribers := by
  have hkept (box : Inbox) (is : List Subscription) :
      ((⟨id, box, is⟩ : Subscriber) :: b.others id).filter (fun s => s.id != name) =
        ⟨id, box, is⟩ :: (b.cleanup name).1.others id := by
    rw [List.filter_cons_of_pos (by simpa using hne.symm), others_comm]
    rfl
  cases c with
  | subscribe name' box i =>
    obtain ⟨rfl, rfl⟩ := hc
    have hsame : (b.cleanup name).1.interestsOf name' = b.interestsOf name' := by
      rw [interestsOf_cleanup, if_neg hne.symm]
    simp only [Bus.step, others, subscribers_subscribe, hsame]
    exact hkept box _
  | unsubscribe name' i =>
    obtain rfl := hc
    simp only [Bus.step, others, subscribers_unsubscribe, subscriber?_cleanup, if_neg hne.symm]
    cases hs : b.subscriber? name' with
    | none => rfl
    | some s =>
      obtain rfl := subscriber?_id hs
      simp only [Option.elim_some]
      split
      · split
        · exact others_comm b _ _
        · exact hkept _ _
      · rfl
  | advertise source route => cases hc
  | withdraw source route => cases hc
  | cleanup name => cases hc

/-- The change of the interests of one and the publication of another commute. -/
theorem step_comm (hc : c.Steers id inbox) (hd : d.Publishes) (hname : d.name ≠ id) :
    ((b.step c).1.step d).1 = ((b.step d).1.step c).1 := by
  have htable : ((b.step c).1.step d).1.table = ((b.step d).1.step c).1.table := by
    rw [table_step_congr (table_step_of_steers hc) d, table_step_of_steers hc]
  have hrecords : ((b.step c).1.step d).1.subscribers = ((b.step d).1.step c).1.subscribers := by
    cases d with
    | advertise source route =>
      exact (subscribers_step_congr (rfl : (b.step _).1.subscribers = b.subscribers) c).symm
    | withdraw source route =>
      exact (subscribers_withdraw _ source route).trans
        (subscribers_step_congr (subscribers_withdraw b source route) c).symm
    | cleanup name => exact others_step_of_steers hc hname
    | subscribe name box i => cases hd
    | unsubscribe name i => cases hd
  generalize ((b.step c).1.step d).1 = x at *
  generalize ((b.step d).1.step c).1 = y at *
  cases x
  cases y
  cases htable
  cases hrecords
  rfl

end

/-! ## What others are told -/

/-- The records of a name. -/
def named (b : Bus) (id : String) : List Subscriber := b.subscribers.filter fun s => s.id = id

theorem filter_others {b : Bus} {id name : String} (hne : name ≠ id) :
    (b.others id).filter (fun s => s.id = name) = b.named name := by
  rw [others, List.filter_filter, named]
  refine List.filter_congr fun s _ => ?_
  by_cases hs : s.id = name
  · simp [hs, hne]
  · simp [hs]

/-- Of what is made for subscribers one by one, a name is sent what is made for its records. -/
theorem sentTo_filterMap {f : Subscriber → Option Delivery}
    (hf : ∀ s d, f s = some d → d.id = s.id) (name : String) (ss : List Subscriber) :
    sentTo name (ss.filterMap f) = (ss.filter fun s => s.id = name).filterMap f := by
  rw [sentTo, List.filter_filterMap, List.filterMap_filter]
  refine List.filterMap_congr fun s _ => ?_
  cases hs : f s with
  | none => simp
  | some d => simp [Option.filter_some, hf s d hs]

theorem sentTo_onRemove (name : String) (ss : List Subscriber) (gone : Stored) :
    sentTo name (onRemove ss gone) = onRemove (ss.filter fun s => s.id = name) gone := by
  simp only [sentTo, onRemove, List.filter_map, List.filter_filter]
  congr 1
  refine List.filter_congr fun s _ => ?_
  simp only [Function.comp_apply, Subscriber.deliver]
  exact Bool.and_comm _ _

/-- What a name is sent of a publication depends on the table and the records of the name. -/
theorem sentTo_step_congr {b b' : Bus} (ht : b.table = b'.table) {name : String}
    (hn : b.named name = b'.named name) {d : Command} (hd : d.Publishes) :
    sentTo name (b.step d).2 = sentTo name (b'.step d).2 := by
  have hremove (gone : Stored) :
      sentTo name (onRemove b.subscribers gone) = sentTo name (onRemove b'.subscribers gone) := by
    rw [sentTo_onRemove, sentTo_onRemove]
    exact congrArg (onRemove · gone) hn
  cases d with
  | advertise source route =>
    have hreplace (old : Option Stored) (s : Subscriber) (d : Delivery)
        (h : onReplace ⟨source, route⟩ old s = some d) : d.id = s.id := by
      obtain ⟨-, ⟨-, rfl⟩ | ⟨-, o, -, -, rfl⟩⟩ := onReplace_eq_some_iff.1 h
      · rfl
      · rfl
    simp only [Bus.step, advertise, sentTo_filterMap (hreplace _), stored?_congr ht]
    exact congrArg (List.filterMap _) hn
  | withdraw source route =>
    simp only [Bus.step, withdraw, stored?_congr ht]
    cases b'.stored? route.key with
    | none => rfl
    | some gone => by_cases hs : gone.source = source <;> simp [hs, hremove]
  | cleanup id =>
    have hrest (gone : Stored) :
        sentTo name (onRemove (b.others id) gone) = sentTo name (onRemove (b'.others id) gone) := by
      rw [sentTo_onRemove, sentTo_onRemove, others, others, List.filter_comm,
        List.filter_comm _ _ b'.subscribers]
      exact congrArg (fun ss : List Subscriber => onRemove (ss.filter fun s => s.id != id) gone) hn
    simp only [Bus.step, cleanup, ht, sentTo, List.filter_flatMap]
    exact List.flatMap_congr fun gone _ => hrest gone
  | subscribe id box i => cases hd
  | unsubscribe id i => cases hd

section
variable {b : Bus} {c : Command} {id : String} {inbox : Inbox} (hc : c.Steers id inbox)
  {name : String} (hne : name ≠ id)
include hc hne

theorem named_step_of_steers : (b.step c).1.named name = b.named name := by
  have hkept (s : Subscriber) (hs : s.id = id) :
      (s :: b.others id).filter (fun s => s.id = name) = b.named name := by
    rw [List.filter_cons_of_neg (by simpa [hs] using hne.symm), filter_others hne]
  cases c with
  | subscribe name' box i =>
    obtain ⟨rfl, rfl⟩ := hc
    simp only [Bus.step, named, subscribers_subscribe]
    exact hkept _ rfl
  | unsubscribe name' i =>
    obtain rfl := hc
    simp only [Bus.step, named, subscribers_unsubscribe]
    cases hs : b.subscriber? name' with
    | none => rfl
    | some s =>
      obtain rfl := subscriber?_id hs
      simp only [Option.elim_some]
      split
      · split
        · exact filter_others hne
        · exact hkept _ rfl
      · rfl
  | advertise source route => cases hc
  | withdraw source route => cases hc
  | cleanup name => cases hc

/-- A change of interests is told to nobody else. -/
theorem sentTo_step_of_steers : sentTo name (b.step c).2 = [] := by
  refine sentTo_eq_nil name fun d hd => ?_
  suffices hid : d.id = id from fun h => hne (h.symm.trans hid)
  cases c with
  | subscribe name' box i =>
    obtain ⟨rfl, -⟩ := hc
    simp only [Bus.step, subscribe] at hd
    split at hd
    · cases hd
    · obtain ⟨r, -, rfl⟩ := List.mem_map.1 hd
      rfl
  | unsubscribe name' i =>
    obtain rfl := hc
    simp only [Bus.step, unsubscribe] at hd
    split at hd
    · cases hd
    · next s hs =>
      split at hd
      · obtain ⟨r, -, rfl⟩ := List.mem_map.1 hd
        exact subscriber?_id hs
      · cases hd
  | advertise source route => cases hc
  | withdraw source route => cases hc
  | cleanup name => cases hc

end

/-! ## The race -/

section
variable {b : Bus} {c : Command} {id : String} {inbox : Inbox}

/-- A change of interests leads events to its inbox. -/
theorem Listens.steers (h : b.Listens id inbox) (hc : c.Steers id inbox) :
    (b.step c).1.Listens id inbox := by
  intro s hs
  rcases inbox_of_step b c id hs with hdirects | ⟨⟨s₀, hs₀, hsame⟩, -⟩
  · cases c with
    | subscribe name box i => exact hdirects.2.symm.trans hc.2
    | unsubscribe name i => cases hdirects
    | advertise source route => cases hc
    | withdraw source route => cases hc
    | cleanup name => cases hc
  · exact hsame.symm.trans (h s₀ hs₀)

theorem Listens.of_ne (h : b.Listens id inbox) (hname : c.name ≠ id) :
    (b.step c).1.Listens id inbox := by
  intro s hs
  rw [subscriber?_step_of_ne b hname] at hs
  exact h s hs

/-- A change of its interests moves the view of a name along. -/
theorem view_steers (hb : b.Keyed) (h : b.Listens id inbox) (hc : c.Steers id inbox) :
    (b.view id).after (arrivals id inbox (b.step c).2) = (b.step c).1.view id := by
  refine view_step hb ?_ ?_ h (h.steers hc)
  · rintro r rfl
    cases hc
  · rintro rfl
    cases hc

/-- A command in another name moves the view of a name along. -/
theorem view_of_ne (hb : b.Keyed) (h : b.Listens id inbox) (hname : c.name ≠ id) :
    (b.view id).after (arrivals id inbox (b.step c).2) = (b.step c).1.view id := by
  refine view_step hb ?_ ?_ h (h.of_ne hname)
  · rintro r rfl
    exact hname rfl
  · rintro rfl
    exact hname rfl

end

theorem run_pair (b : Bus) (c d : Command) : b.run [c, d] =
    (((b.step c).1.step d).1, (b.step c).2 ++ ((b.step c).1.step d).2) := by
  simp only [Bus.run, List.append_nil]

/-- **A publication that races a change of interests.** On a bus that carried out any
    commands, take a change of the interests of one name, with the inbox that its
    events go to, and a publication, withdrawal or clean-up of another.  In either
    order they leave the same bus; by the events that reach its inbox the view of the
    name, if it was right before, is right after them, and so the same; and what is
    sent to anybody else is the same. -/
theorem interest_commutes_with_publication (cs : List Command) (id : String) (inbox : Inbox)
    (hinbox : (Bus.run {} cs).1.Listens id inbox) (c d : Command) (hc : c.Steers id inbox)
    (hd : d.Publishes) (hname : d.name ≠ id) :
    ((Bus.run {} cs).1.run [c, d]).1 = ((Bus.run {} cs).1.run [d, c]).1 ∧
    (∀ v : View, v = (Bus.run {} cs).1.view id →
      v.after (arrivals id inbox ((Bus.run {} cs).1.run [c, d]).2) =
        ((Bus.run {} cs).1.run [c, d]).1.view id ∧
      v.after (arrivals id inbox ((Bus.run {} cs).1.run [d, c]).2) =
        ((Bus.run {} cs).1.run [c, d]).1.view id) ∧
    ∀ other, other ≠ id → sentTo other ((Bus.run {} cs).1.run [c, d]).2 =
      sentTo other ((Bus.run {} cs).1.run [d, c]).2 := by
  have hb := keyed_empty.run cs
  generalize (Bus.run {} cs).1 = b at hb hinbox
  have hcomm : ((b.step c).1.step d).1 = ((b.step d).1.step c).1 := step_comm hc hd hname
  simp only [run_pair]
  refine ⟨hcomm, ?_, fun other hother => ?_⟩
  · rintro v rfl
    simp only [arrivals_append, View.after_append]
    constructor
    · rw [view_steers hb hinbox hc, view_of_ne (hb.step c) (hinbox.steers hc) hname]
    · rw [view_of_ne hb hinbox hname, view_steers (hb.step d) (hinbox.of_ne hname) hc, hcomm]
  · rw [sentTo_append, sentTo_append, sentTo_step_of_steers hc hother,
      sentTo_step_of_steers hc hother, List.nil_append, List.append_nil]
    exact sentTo_step_congr (table_step_of_steers hc) (named_step_of_steers hc hother) hd

/-- A subscriber asks for the route target of a stored route, and another subscriber for
    the whole family. -/
def Sample.contested : List Command :=
  [.subscribe "s" (.worker 0 0) ⟨.ipv4MplsVpn, some (.as2 65000 1)⟩,
    .subscribe "t" (.worker 1 0) ⟨.ipv4MplsVpn, none⟩,
    .advertise "p" (Route.sample 8 [.as2 65000 1])]

/-- It asks for the whole family too, while a third party takes the key over without the
    route target: the new interest covers the old route already, or the old route is
    taken back before the new one is told. -/
theorem takeover_commutes_with_interest :
    (arrivals "s" (.worker 0 0) ((Bus.run {} Sample.contested).1.run
      [.subscribe "s" (.worker 0 0) ⟨.ipv4MplsVpn, none⟩,
        .advertise "q" (Route.sample 8 [])]).2).map Route.Event.kind = [.advertise] ∧
    (arrivals "s" (.worker 0 0) ((Bus.run {} Sample.contested).1.run
      [.advertise "q" (Route.sample 8 []),
        .subscribe "s" (.worker 0 0) ⟨.ipv4MplsVpn, none⟩]).2).map Route.Event.kind = [.withdraw, .advertise] ∧
    ((Bus.run {} Sample.contested).1.view "s").after (arrivals "s" (.worker 0 0)
      ((Bus.run {} Sample.contested).1.run [.subscribe "s" (.worker 0 0) ⟨.ipv4MplsVpn, none⟩,
        .advertise "q" (Route.sample 8 [])]).2) =
    ((Bus.run {} Sample.contested).1.view "s").after (arrivals "s" (.worker 0 0)
      ((Bus.run {} Sample.contested).1.run [.advertise "q" (Route.sample 8 []),
        .subscribe "s" (.worker 0 0) ⟨.ipv4MplsVpn, none⟩]).2) := by
  have hinbox : (Bus.run {} Sample.contested).1.Listens "s" (.worker 0 0) := by
    intro s hs
    have hrecord : (Bus.run {} Sample.contested).1.subscriber? "s" =
        some ⟨"s", .worker 0 0, [⟨.ipv4MplsVpn, some (.as2 65000 1)⟩]⟩ := by decide
    rw [hrecord] at hs
    cases hs
    rfl
  obtain ⟨-, hview, -⟩ := interest_commutes_with_publication Sample.contested "s" (.worker 0 0)
    hinbox (.subscribe "s" (.worker 0 0) ⟨.ipv4MplsVpn, none⟩) (.advertise "q" (Route.sample 8 []))
    ⟨rfl, rfl⟩ trivial (by decide)
  obtain ⟨hleft, hright⟩ := hview _ rfl
  exact ⟨by decide, by decide, hleft.trans hright.symm⟩

end RouteExchange.Bus
