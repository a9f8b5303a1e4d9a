/-
  The interests that a session holds.

  A worker holds what its commands, replayed on an empty bus, leave it with
  (`Worker.held`).  `held_after_updates` says what that is once a session is
  established and any UPDATEs were handled: the interests follow, route target by
  route target, the last constraint that the peer sent.  The origin AS of a
  constraint does not count, and neither does it count whether constraints were
  negotiated; without them an interest in all routes is there to begin with.
-/
import RouteExchange.Proofs.Bus.Keyed
import RouteExchange.Proofs.Sample
import RouteExchange.Proofs.Worker.Gives
import RouteExchange.Proofs.Worker.Notes

namespace RouteExchange

/-! ## What constraints ask for -/

/-- The last constraint on a route target among some NLRIs, or on all routes. -/
def lastConstraint? (ns : List Nlri) (target : Option RouteTarget) : Option Nlri :=
  (ns.filter fun n => n.family.isRtc && n.target == target).getLast?

/-- The last constraint on a route target announces it; without one, it is asked
    for as `before`. -/
def Asked (ns : List Nlri) (target : Option RouteTarget) (before : Prop) : Prop :=
  match lastConstraint? ns target with
  | some n => n.action = .announced
  | none => before

theorem asked_nil (target : Option RouteTarget) (before : Prop) : Asked [] target before ↔ before :=
  Iff.rfl

theorem asked_append (ms ns : List Nlri) (target : Option RouteTarget) (before : Prop) :
    Asked (ms ++ ns) target before ↔ Asked ns target (Asked ms target before) := by
  unfold Asked lastConstraint?
  rw [List.filter_append, List.getLast?_append]
  cases (ns.filter fun n => n.family.isRtc && n.target == target).getLast? with
  | none => rw [Option.none_or]
  | some n => rw [Option.some_or]

theorem asked_singleton (n : Nlri) (target : Option RouteTarget) (before : Prop) :
    Asked [n] target before ↔
      if n.family.isRtc ∧ n.target = target then n.action = .announced else before := by
  unfold Asked lastConstraint?
  by_cases hn : n.family.isRtc = true ∧ n.target = target
  · simp [hn]
  · rw [if_neg hn, List.filter_cons_of_neg (by simpa using hn)]
    rfl

/-- Every NLRI is announced or withdrawn. -/
def Update.Valid (u : Update) : Prop := ∀ n ∈ u.nlris, n.action ≠ .unset

/-- The event that a valid NLRI makes. -/
def Nlri.kind (n : Nlri) : Route.Kind := if n.action = .announced then .advertise else .withdraw

/-- There is an UPDATE to be read. -/
structure Surroundings.Brings {σ : Type} [Engine σ] (s : Surroundings σ) (u : Update) : Prop where
  connected : Engine.isConnected s.engine = true
  read : (Engine.read s.engine).1 = .ok (.update u)

theorem Nlri.kind_eq_advertise_iff (n : Nlri) : n.kind = .advertise ↔ n.action = .announced := by
  unfold Nlri.kind
  split
  · next h => simp [h]
  · next h => simp [h]

theorem kinds?_eq_some {ns : List Nlri} (h : ∀ n ∈ ns, n.action ≠ .unset) :
    Worker.kinds? ns = some (ns.map fun n => (n.kind, n)) := by
  induction ns with
  | nil => rfl
  | cons n ns ih =>
    have hn : Route.Kind.ofAction? n.action = some n.kind := by
      have := h n List.mem_cons_self
      unfold Nlri.kind
      cases ha : n.action with
      | unset => exact absurd ha this
      | announced => rfl
      | withdrawn => rfl
    simp only [Worker.kinds?, hn, ih fun m hm => h m (List.mem_cons_of_mem n hm), List.map_cons]

/-! ## What commands make of the interests -/

namespace Worker

variable {σ : Type}

/-- The interests that the commands given so far leave a worker with. -/
def held (w : Worker σ) : List Subscription := (Bus.run {} w.calls).1.interestsOf w.id

theorem mem_steered (w : Worker σ) (f : Family) :
    f ∈ w.steered ↔ f ∈ w.activeFamilies ∧ f ≠ .ipv4Rtc := by
  rw [steered, List.mem_filter]
  simp [Family.isRtc]

section
variable (w : Worker σ) (b : Bus) (i : Subscription)

/-- An interest in a route target is added or dropped family by family. -/
theorem mem_interestsOf_constraintCalls (kind : Route.Kind) (target : Option RouteTarget)
    (fs : List Family) :
    i ∈ (b.run (fs.map (w.constraintCall kind target))).1.interestsOf w.id ↔
      if i.family ∈ fs ∧ i.target = target then kind = .advertise else i ∈ b.interestsOf w.id := by
  induction fs generalizing b with
  | nil => simp [Bus.run]
  | cons f fs ih =>
    rcases i with ⟨g, t⟩
    rw [List.map_cons, Bus.run, ih]
    cases kind with
    | advertise =>
      simp only [Bus.step, constraintCall, Bus.interestsOf_subscribe, if_true, List.mem_insert_iff,
        List.mem_cons, Subscription.mk.injEq]
      grind
    | withdraw =>
      simp only [Bus.step, constraintCall, Bus.interestsOf_unsubscribe, if_true, List.mem_filter,
        List.mem_cons, bne_iff_ne, ne_eq, Subscription.mk.injEq]
      grind

/-- A route changes the interests only if it is a constraint. -/
theorem mem_interestsOf_routeCalls (kind : Route.Kind) (route : Route) :
    i ∈ (b.run (w.routeCalls kind route)).1.interestsOf w.id ↔
      if i.family ∈ w.steered ∧ route.family.isRtc ∧ route.nlri.target = i.target then
        kind = .advertise
      else i ∈ b.interestsOf w.id := by
  -- publishing the route itself changes none
  have hrest (b' : Bus) (hb : b'.interestsOf w.id = b.interestsOf w.id) :
      i ∈ (b'.run (if route.family.isRtc then w.constraintCalls kind route.nlri.target else [])
        ).1.interestsOf w.id ↔
        if i.family ∈ w.steered ∧ route.family.isRtc ∧ route.nlri.target = i.target then
          kind = .advertise
        else i ∈ b.interestsOf w.id := by
    split
    · next hr =>
      rw [constraintCalls, mem_interestsOf_constraintCalls, hb]
      simp only [hr, true_and, @eq_comm _ i.target]
    · next hr => simp [hr, Bus.run, hb]
  cases kind with
  | advertise => exact hrest _ rfl
  | withdraw => exact hrest _ (Bus.interestsOf_withdraw b w.id route w.id)

/-- After an UPDATE the interests in the steered families are what it asks for. -/
theorem mem_interestsOf_updateCalls {u : Update} (hu : u.Valid) :
    i ∈ (b.run (w.updateCalls u)).1.interestsOf w.id ↔
      if i.family ∈ w.steered then Asked u.nlris i.target (i ∈ b.interestsOf w.id)
      else i ∈ b.interestsOf w.id := by
  rcases u with ⟨ns, as⟩
  rw [updateCalls, kinds?_eq_some hu, Option.getD_some]
  simp only at hu ⊢
  clear hu
  induction ns generalizing b with
  | nil => simp [Bus.run, asked_nil]
  | cons n ns ih =>
    rw [List.map_cons, List.flatMap_cons, Bus.run_append]
    simp only
    rw [ih, mem_interestsOf_routeCalls, ← List.singleton_append, asked_append, asked_singleton]
    by_cases hf : i.family ∈ w.steered
    · simp only [hf, if_true, true_and, n.kind_eq_advertise_iff]
      rfl
    · simp only [hf, if_false, false_and]

end

/-- The interests after more commands. -/
theorem Gives.held {w u : Worker σ} {cs : List Bus.Command} (h : Gives w cs u) :
    u.held = ((Bus.run {} w.calls).1.run cs).1.interestsOf w.id := by
  rw [Worker.held, h.calls, h.id, Bus.run_append]

theorem held_new (config : Config) (peer : Ip) (engine : σ) (index : Nat) :
    (Worker.new config peer engine index).held = [] := rfl

/-- A session begins with an interest in all routes of the active families, or of
    that of constraints alone. -/
theorem mem_held_toEstablished (w : Worker σ) (i : Subscription) :
    i ∈ w.toEstablished.held ↔
      (i.family ∈ if w.rtcActive then [.ipv4Rtc] else w.activeFamilies) ∧ i.target = none ∨
        i ∈ w.held := by
  rw [w.gives_toEstablished.held, firstCalls, mem_interestsOf_constraintCalls]
  by_cases h : (i.family ∈ if w.rtcActive then [.ipv4Rtc] else w.activeFamilies) ∧ i.target = none
  · rw [if_pos h]
    exact iff_of_true rfl (Or.inl h)
  · rw [if_neg h, or_iff_right h]
    rfl

theorem state_toEstablished (w : Worker σ) : w.toEstablished.state = .established := by
  obtain ⟨_, _, h⟩ := w.toEstablished_eq
  rw [h]

/-- A valid UPDATE is published in an established session, which goes on. -/
theorem handle_update {w : Worker σ} {u : Update} (hw : w.state = .established) (hu : u.Valid) :
    ∃ w', w.handle (.update u) = (.ok .again, w') ∧ w'.state = .established ∧
      Gives w (w.updateCalls u) w' := by
  have hcount := w.gives_count (.received w.id (Message.update u).name)
  have hstate : (w.count (.received w.id (Message.update u).name)).state = .established := hw
  unfold handle
  rw [if_neg (by simp : Message.update u ≠ .nop)]
  generalize w.count (.received w.id (Message.update u).name) = v at hcount hstate ⊢
  have hok : (v.publishUpdate u).1 = .ok () := by
    rw [publishUpdate, kinds?_eq_some hu]
  have hgives := hcount.trans (gives_publishUpdate v u)
  have hpublished := (v.notes_publishUpdate u).state.trans hstate
  rw [hcount.updateCalls] at hgives
  simp only [hstate, if_true]
  rcases hp : v.publishUpdate u with ⟨r, v'⟩
  rw [hp] at hok hgives hpublished
  cases hok
  exact ⟨_, rfl, hpublished, hgives.quiet (gives_enqueue v' rfl)⟩

/-! ## The family of constraints -/

theorem ipv4Rtc_notMem_offered {c : Config} (h : c.validate = .ok ()) (hr : c.rtcEnabled = false) :
    .ipv4Rtc ∉ c.offered := by
  have hlisted : c.families.any Family.isRtc = false := by
    unfold Config.validate at h
    grind
  intro hmem
  rw [Config.offered, hr] at hmem
  rw [List.any_eq_false] at hlisted
  exact hlisted .ipv4Rtc (by simpa using hmem) rfl

/-- Where constraints were not negotiated, their family is not active. -/
theorem ipv4Rtc_notMem_activeFamilies {w w₁ : Worker σ} {fs : List Family}
    (hvalid : w.config.validate = .ok ()) (hagree : Gives (w.agree fs) [] w₁)
    (hrtc : w₁.rtcActive = false) : .ipv4Rtc ∉ w₁.activeFamilies := by
  intro hmem
  rw [hagree.active] at hmem
  have hinactive := hagree.rtc.symm.trans hrtc
  simp only [agree, Bool.and_eq_false_iff] at hinactive hmem
  rcases hinactive with he | hc
  · exact ipv4Rtc_notMem_offered hvalid he (List.mem_filter.1 hmem).1
  · rw [List.contains_iff_mem.2 hmem] at hc
    cases hc

/-! ## A session, from the attempt on -/

section
variable [Engine σ]

/-- The next session begins clean. -/
theorem held_stopAndClean (w : Worker σ) : w.stopAndClean.held = [] := by
  obtain ⟨u, hu, hw⟩ := w.stopAndClean_cases
  have : w.stopAndClean.held = u.held := by rw [hw]; rfl
  rw [this, hu.held]
  exact (Bus.interestsOf_cleanup _ _ _).trans (if_pos rfl)

/-- The moves of an attempt, each in its surroundings. -/
def attempt (w : Worker σ) (a : Attempt) : List (Surroundings σ) → Worker σ × Attempt
  | [] => (w, a)
  | s :: ss => ((w.within s).attemptStep a).1.attempt ((w.within s).attemptStep a).2 ss

/-- Reads a message in each of some surroundings; there is no result where one
    of them ends the session. -/
def receiveAll (w : Worker σ) : List (Surroundings σ) → Option (Worker σ)
  | [] => some w
  | s :: ss =>
    match (w.within s).receiveOnce with
    | (.ok .again, w) => w.receiveAll ss
    | _ => none

/-- An attempt that is over stays as it is. -/
theorem attempt_ended (w : Worker σ) (r : Except WorkerError Unit) (ss : List (Surroundings σ)) :
    (w.attempt (.ended r) ss).2 = .ended r ∧ Gives w [] (w.attempt (.ended r) ss).1 := by
  induction ss generalizing w with
  | nil => exact ⟨rfl, .refl w⟩
  | cons s ss ih =>
    obtain ⟨hr, hw⟩ := ih (w.within s)
    exact ⟨hr, (w.gives_within s).quiet hw⟩

/-- An attempt that succeeds agrees on the families, and does nothing else. -/
theorem attempt_established {w : Worker σ} {a : Attempt} {ss : List (Surroundings σ)}
    (ha : ∀ r, a ≠ .ended r) (h : (w.attempt a ss).2 = .ended (.ok ())) :
    ∃ fs, Gives (w.agree fs) [] (w.attempt a ss).1 := by
  induction ss generalizing w a with
  | nil => exact absurd h (ha _)
  | cons s ss ih =>
    have hs := w.gives_within s
    rw [attempt] at h ⊢
    rcases (w.within s).attemptStep_cases ha with ⟨n, hr, -, hw⟩ | ⟨hr, hw⟩
    · rw [hr]
      exact ⟨_, ((hs.agree _).quiet hw).quiet (attempt_ended _ _ _).2⟩
    · generalize ((w.within s).attemptStep a).2 = a' at h hr ⊢
      by_cases hend : ∃ r, a' = .ended r
      · obtain ⟨r, rfl⟩ := hend
        exact absurd ((attempt_ended _ _ _).1.symm.trans h) hr
      · obtain ⟨fs, hfs⟩ := ih (fun r hr' => hend ⟨r, hr'⟩) h
        exact ⟨fs, ((hs.quiet hw).agree fs).quiet hfs⟩

/-- A valid UPDATE is handled, and the session goes on. -/
theorem receiveOnce_of_brings {w : Worker σ} {s : Surroundings σ} {u : Update}
    (hw : w.state = .established) (hc : w.connection.isSome) (hs : s.Brings u) (hu : u.Valid) :
    ∃ w', (w.within s).receiveOnce = (.ok .again, w') ∧ w'.state = .established ∧
      Gives w (w.updateCalls u) w' := by
  obtain ⟨n, hn⟩ := Option.isSome_iff_exists.1 hc
  rcases hr : Engine.read s.engine with ⟨r, engine⟩
  obtain rfl : r = .ok (.update u) := by
    have := hs.read
    rwa [hr] at this
  have hread : Gives w [] (({ w.within s with
      now := s.now + Engine.waitReadable pollTimeout s.engine, engine } : Worker σ).emit
        (.read (.ok (.update u)))) :=
    (w.gives_surroundings _ _ _ _ _).quiet (gives_emit _ rfl rfl)
  obtain ⟨w', hw', hstate, hgives⟩ := handle_update (w := ({ w.within s with
      now := s.now + Engine.waitReadable pollTimeout s.engine, engine } : Worker σ).emit
        (.read (.ok (.update u)))) hw hu
  rw [hread.updateCalls] at hgives
  refine ⟨w', ?_, hstate, hread.trans hgives⟩
  have hwait : (w.within s).waitEnd? =
      some (s.now + Engine.waitReadable pollTimeout s.engine) := by
    rw [waitEnd?, show (w.within s).connection = some n from hn]
    rfl
  rw [receiveOnce, hwait]
  simp only [readMessage, within, hs.connected, if_true, hr]
  exact hw'

/-- Handling UPDATEs makes the interests in the steered families what they ask for. -/
theorem mem_held_receiveAll {w : Worker σ} (xs : List (Surroundings σ × Update))
    (hw : w.state = .established) (hc : w.connection.isSome)
    (hxs : ∀ x ∈ xs, x.1.Brings x.2 ∧ x.2.Valid) :
    ∃ w', w.receiveAll (xs.map Prod.fst) = some w' ∧ ∀ i, i ∈ w'.held ↔
      if i.family ∈ w.steered then Asked (xs.flatMap fun x => x.2.nlris) i.target (i ∈ w.held)
      else i ∈ w.held := by
  induction xs generalizing w with
  | nil => exact ⟨w, rfl, fun i => by simp [asked_nil]⟩
  | cons x xs ih =>
    obtain ⟨hbrings, hvalid⟩ := hxs x List.mem_cons_self
    obtain ⟨v, hv, hstate, hgives⟩ := receiveOnce_of_brings hw hc hbrings hvalid
    obtain ⟨w', hw', hheld⟩ := ih hstate (hgives.connection ▸ hc)
      fun y hy => hxs y (List.mem_cons_of_mem x hy)
    refine ⟨w', ?_, fun i => ?_⟩
    · rw [List.map_cons, receiveAll, hv]
      exact hw'
    · have hsteered : v.steered = w.steered := by rw [steered, steered, hgives.active]
      have hone := mem_interestsOf_updateCalls w (Bus.run {} w.calls).1 i hvalid
      rw [← hgives.held] at hone
      rw [hheld, hsteered, hone, List.flatMap_cons]
      by_cases hf : i.family ∈ w.steered
      · simp only [hf, if_true, asked_append]
        rfl
      · simp only [hf, if_false]
        rfl

/-- An attempt begins with a connection, and leaves the interests alone. -/
theorem beginAttempt_held (w : Worker σ) :
    w.beginAttempt.held = w.held ∧ w.beginAttempt.config = w.config ∧
      w.beginAttempt.connection.isSome := by
  obtain ⟨u, hu, hw⟩ := w.beginAttempt_cases
  rw [hw]
  refine ⟨?_, hu.config, rfl⟩
  rw [held, hu.opened.calls, hu.opened.id]
  rfl

/-- A worker with a valid configuration that holds no interests opens a session,
    and has become `w₁` where its attempt succeeds. -/
structure Opens (w w₁ : Worker σ) : Prop where
  valid : w.config.validate = .ok ()
  clean : w.held = []
  attempt : ∃ ss, w.beginAttempt.attempt .asking ss = (w₁, .ended (.ok ()))

/-- **The interests of a session.** A worker with a valid configuration that holds
    none opens a session and handles valid UPDATEs.  Then it holds an interest in a
    route target, for an active family other than that of constraints, just when the
    last constraint on it was announced, and besides, where constraints were
    negotiated, that in all constraints.  Where they were not, the interests in all
    routes of the families count as announced from the start. -/
theorem held_after_updates (w w₁ : Worker σ) (hw : w.Opens w₁)
    (xs : List (Surroundings σ × Update)) (hxs : ∀ x ∈ xs, x.1.Brings x.2 ∧ x.2.Valid) :
    ∃ w₂, w₁.toEstablished.receiveAll (xs.map Prod.fst) = some w₂ ∧
      (w₁.rtcActive = true → ∀ i, i ∈ w₂.held ↔ i = ⟨.ipv4Rtc, none⟩ ∨
        (i.family ∈ w₁.activeFamilies ∧ i.family ≠ .ipv4Rtc ∧
          Asked (xs.flatMap fun x => x.2.nlris) i.target False)) ∧
      (w₁.rtcActive = false → ∀ i, i ∈ w₂.held ↔ i.family ∈ w₁.activeFamilies ∧
        Asked (xs.flatMap fun x => x.2.nlris) i.target (i.target = none)) := by
  obtain ⟨hvalid, hclean, ss, hopen⟩ := hw
  obtain ⟨hheld, hconfig, hconnection⟩ := w.beginAttempt_held
  have hend : (w.beginAttempt.attempt .asking ss).2 = .ended (.ok ()) := by rw [hopen]
  have hasking : ∀ r, Attempt.asking ≠ .ended r := by simp
  obtain ⟨fs, hagree⟩ := attempt_established hasking hend
  rw [hopen] at hagree
  have hw₁ : w₁.held = [] := hagree.held.trans (hheld.trans hclean)
  have hfirst := w₁.gives_toEstablished
  have hconn : w₁.toEstablished.connection.isSome := by
    rw [hfirst.connection, hagree.connection]
    exact hconnection
  obtain ⟨w₂, hw₂, hall⟩ := mem_held_receiveAll xs w₁.state_toEstablished hconn hxs
  have hsteered : w₁.toEstablished.steered = w₁.steered := by rw [steered, steered, hfirst.active]
  refine ⟨w₂, hw₂, fun hrtc i => ?_, fun hrtc i => ?_⟩
  · -- the interest in constraints is the only one outside of the steered families
    rw [hall, hsteered, mem_held_toEstablished, hw₁, hrtc]
    rcases i with ⟨f, t⟩
    by_cases hf : f = .ipv4Rtc
    · simp [mem_steered, hf]
    · simp [mem_steered, hf]
  · -- all active families are steered
    have hnone := ipv4Rtc_notMem_activeFamilies (hconfig ▸ hvalid) hagree hrtc
    have hsub (hf : i.family ∈ w₁.activeFamilies) : i.family ≠ .ipv4Rtc := fun h => hnone (h ▸ hf)
    rw [hall, hsteered, mem_held_toEstablished, hw₁, hrtc]
    by_cases hf : i.family ∈ w₁.activeFamilies
    · simp [mem_steered, hf, hsub hf]
    · simp [mem_steered, hf]

end

/-! ## A session in which constraints have two origins -/

/-- A route target that two origins ask for. -/
def Sample.target : Option RouteTarget := some (.as2 65000 1)

/-- A worker for a peer that offers VPN routes and constraints. -/
def Sample.worker (rtcEnabled : Bool) : Worker Script :=
  .sample (.sample rtcEnabled) (Script.negotiate {} [.ipv4MplsVpn, .ipv4Rtc] 180)

/-- The session is established at once. -/
def Sample.established (rtcEnabled : Bool) : Worker Script :=
  ((Sample.worker rtcEnabled).beginAttempt.attempt .asking
    [⟨Script.negotiate {} [.ipv4MplsVpn, .ipv4Rtc] 180, 0, {}⟩]).1

/-- The peer sends an UPDATE. -/
def Sample.sends (ns : List Nlri) : Surroundings Script × Update :=
  (⟨{ connected := true, incoming := [.ok (.update ⟨ns, ∅⟩)] }, 0, {}⟩, ⟨ns, ∅⟩)

/-- Two origins ask for a route target, and one of them withdraws. -/
def Sample.constraints : List (Surroundings Script × Update) :=
  [Sample.sends [.rtc .announced 65000 Sample.target, .rtc .announced 65001 Sample.target],
    Sample.sends [.rtc .withdrawn 65000 Sample.target]]

theorem opens_sample (rtcEnabled : Bool) :
    (Sample.worker rtcEnabled).Opens (Sample.established rtcEnabled) := by
  refine ⟨?_, held_new _ _ _ _, [⟨Script.negotiate {} [.ipv4MplsVpn, .ipv4Rtc] 180, 0, {}⟩], rfl⟩
  cases rtcEnabled <;> decide

theorem brings_sample (ns : List Nlri) (h : ∀ n ∈ ns, n.action ≠ .unset) :
    (Sample.sends ns).1.Brings (Sample.sends ns).2 ∧ (Sample.sends ns).2.Valid :=
  ⟨⟨rfl, rfl⟩, h⟩

theorem brings_constraints : ∀ x ∈ Sample.constraints, x.1.Brings x.2 ∧ x.2.Valid := by
  intro x hx
  rcases List.mem_pair.1 hx with rfl | rfl
  · exact brings_sample _ (by decide)
  · exact brings_sample _ (by decide)

/-- The constraint that one origin withdraws is gone, whoever else announced it. -/
theorem held_after_constraints :
    ∃ w₂, (Sample.established true).toEstablished.receiveAll
        (Sample.constraints.map Prod.fst) = some w₂ ∧
      ∀ i, i ∈ w₂.held ↔ i = ⟨.ipv4Rtc, none⟩ ∨
        (i.family ∈ (Sample.established true).activeFamilies ∧ i.family ≠ .ipv4Rtc ∧
          Asked (Sample.constraints.flatMap fun x => x.2.nlris) i.target False) := by
  obtain ⟨w₂, hw₂, hrtc, -⟩ := held_after_updates (Sample.worker true) (Sample.established true)
    (opens_sample true) Sample.constraints brings_constraints
  exact ⟨w₂, hw₂, hrtc (by decide)⟩

/-- A constraint on the target is announced, where the origin AS tells constraints apart. -/
def AskedByOrigin (ns : List Nlri) (target : Option RouteTarget) : Prop :=
  ∃ n ∈ ns, n.family.isRtc = true ∧ n.target = target ∧
    (ns.filter fun m => m.key = n.key).getLast?.map Nlri.action = some .announced

/-- The origin of a constraint does not count, and neither does it count whether
    constraints were negotiated. -/
theorem held_not_by_origin_nor_only_if_negotiated :
    (¬ ∀ (w w₁ : Worker Script) (xs : List (Surroundings Script × Update)), w.Opens w₁ →
      (∀ x ∈ xs, x.1.Brings x.2 ∧ x.2.Valid) →
      ∃ w₂, w₁.toEstablished.receiveAll (xs.map Prod.fst) = some w₂ ∧
        (w₁.rtcActive = true → ∀ i, i ∈ w₂.held ↔ i = ⟨.ipv4Rtc, none⟩ ∨
          (i.family ∈ w₁.activeFamilies ∧ i.family ≠ .ipv4Rtc ∧
            AskedByOrigin (xs.flatMap fun x => x.2.nlris) i.target))) ∧
    (¬ ∀ (w w₁ : Worker Script) (xs : List (Surroundings Script × Update)), w.Opens w₁ →
      (∀ x ∈ xs, x.1.Brings x.2 ∧ x.2.Valid) →
      ∃ w₂, w₁.toEstablished.receiveAll (xs.map Prod.fst) = some w₂ ∧
        (w₁.rtcActive = false → ∀ i, i ∈ w₂.held ↔ i.family ∈ w₁.activeFamilies ∧
          i.target = none)) := by
  constructor
  · intro h
    obtain ⟨w₂, hw₂, hrtc⟩ := h (Sample.worker true) (Sample.established true)
      Sample.constraints (opens_sample true) brings_constraints
    have hheld : ((Sample.established true).toEstablished.receiveAll
        (Sample.constraints.map Prod.fst)).map held = some [⟨.ipv4Rtc, none⟩] := by
      decide +kernel
    rw [hw₂] at hheld
    have hask : AskedByOrigin (Sample.constraints.flatMap fun x => x.2.nlris) Sample.target :=
      ⟨.rtc .announced 65001 Sample.target, by decide, rfl, rfl, by decide⟩
    have hmem := (hrtc (by decide) ⟨.ipv4MplsVpn, Sample.target⟩).2
      (Or.inr ⟨by decide, by decide, hask⟩)
    rw [Option.some.inj hheld] at hmem
    exact absurd hmem (by decide)
  · intro h
    have hxs : ∀ x ∈ [Sample.sends [.rtc .announced 65000 Sample.target]],
        x.1.Brings x.2 ∧ x.2.Valid := by
      intro x hx
      rw [List.mem_singleton.1 hx]
      exact brings_sample _ (by decide)
    obtain ⟨w₂, hw₂, hnone⟩ := h (Sample.worker false) (Sample.established false) _
      (opens_sample false) hxs
    have hheld : ((Sample.established false).toEstablished.receiveAll
        ([Sample.sends [.rtc .announced 65000 Sample.target]].map Prod.fst)).map held =
        some [⟨.ipv4MplsVpn, Sample.target⟩, ⟨.ipv4MplsVpn, none⟩] := by
      decide +kernel
    rw [hw₂] at hheld
    have hmem : ⟨.ipv4MplsVpn, Sample.target⟩ ∈ w₂.held := by
      rw [Option.some.inj hheld]
      decide
    exact absurd ((hnone (by decide) _).1 hmem).2 (by decide)

end Worker

end RouteExchange
