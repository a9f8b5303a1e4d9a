/-
  The hold timer of a session.

  The peer is heard when a KEEPALIVE is read from it, or an UPDATE that is published.
  The timer does not see that itself, but an event in the inbox, which is handled after the
  reading, at the same time and before the timers are looked at.  `Runner.Attends` is the
  invariant of a session that ties the timer, the inbox and what was read together; from it
  follows that the timer runs out just when the peer was not heard for the hold time.
-/
import RouteExchange.Proofs.Worker.Keepalives
import RouteExchange.Proofs.Worker.Past
import RouteExchange.Proofs.Worker.Receiving

namespace RouteExchange

/-! ## What is heard of the peer -/

namespace Effect

/-- A message is read, or reading fails. -/
def isRead : Effect → Bool
  | read _ => true
  | _ => false

/-- The peer gives a sign of life: a KEEPALIVE, or an UPDATE that is published. -/
def isSign : Effect → Bool
  | read (.ok .keepalive) => true
  | read (.ok (.update u)) => !(Message.update u).invalid
  | _ => false

theorem isRead_of_isSign {e : Effect} (h : e.isSign = true) : e.isRead = true := by
  cases e with
  | read r => rfl
  | _ => cases h

theorem isRead_of_sent? {e : Effect} {data : Octets} (h : e.sent? = some data) :
    e.isRead = false := by
  cases e with
  | read r => cases h
  | _ => rfl

end Effect

/-- When messages were read, or reading failed, among some effects. -/
def readings (es : List (Time × Effect)) : List Time := (es.filter fun x => x.2.isRead).map Prod.fst

/-- When the peer gave signs of life, among some effects. -/
def signs (es : List (Time × Effect)) : List Time := (es.filter fun x => x.2.isSign).map Prod.fst

theorem readings_append (es fs : List (Time × Effect)) :
    readings (es ++ fs) = readings es ++ readings fs := by
  simp [readings]

theorem signs_append (es fs : List (Time × Effect)) : signs (es ++ fs) = signs es ++ signs fs := by
  simp [signs]

theorem signs_of_readings {es : List (Time × Effect)} (h : readings es = []) : signs es = [] := by
  rw [readings, List.map_eq_nil_iff, List.filter_eq_nil_iff] at h
  rw [signs, List.map_eq_nil_iff, List.filter_eq_nil_iff]
  exact fun x hx hsign => h x hx (Effect.isRead_of_isSign hsign)

theorem readings_at (t : Time) {es : List Effect} (h : ∀ e ∈ es, e.isRead = false) :
    readings (es.map fun e => (t, e)) = [] := by
  rw [readings, List.map_eq_nil_iff, List.filter_eq_nil_iff]
  intro x hx
  obtain ⟨e, he, rfl⟩ := List.mem_map.1 hx
  simp [h e he]

namespace Worker

variable {σ : Type}

/-- An event that tells of a sign of life waits in the inbox. -/
def HoldsSign (w : Worker σ) : Prop := ∃ e ∈ w.inbox, e.route? = none

instance (w : Worker σ) : Decidable w.HoldsSign :=
  inferInstanceAs (Decidable (∃ e ∈ w.inbox, e.route? = none))

/-- When the peer was heard in a session that began with `w`, and in which `es` passed on
    the wire.  Its beginning counts, and so does an event that waited in the inbox before:
    it is handled after the first reading. -/
def heard (w : Worker σ) (es : List (Time × Effect)) : List Time :=
  w.now :: ((if w.HoldsSign then (readings es).head?.toList else []) ++ signs es)

section
variable {w : Worker σ} {es fs : List (Time × Effect)}

theorem mem_heard_iff {v : Time} : v ∈ w.heard es ↔
    v = w.now ∨ (w.HoldsSign ∧ (readings es).head? = some v) ∨ v ∈ signs es := by
  rw [heard, List.mem_cons, List.mem_append]
  by_cases hw : w.HoldsSign
  · simp [hw]
  · simp [hw]

theorem mem_heard_append {v : Time} (h : v ∈ w.heard es) : v ∈ w.heard (es ++ fs) := by
  rw [mem_heard_iff] at h ⊢
  rw [readings_append, signs_append, List.mem_append]
  rcases h with rfl | ⟨hw, hv⟩ | hv
  · exact .inl rfl
  · obtain ⟨ts, hes⟩ := List.head?_eq_some_iff.1 hv
    exact .inr (.inl ⟨hw, by rw [hes]; rfl⟩)
  · exact .inr (.inr (.inl hv))

/-- Nothing is heard of the peer but by a sign of life or the first reading. -/
theorem heard_append (hsigns : signs fs = [])
    (hfirst : w.HoldsSign → readings es = [] → readings fs = []) :
    w.heard (es ++ fs) = w.heard es := by
  rw [heard, heard, signs_append, hsigns, List.append_nil, readings_append]
  by_cases hw : w.HoldsSign
  · rw [if_pos hw, if_pos hw]
    cases hes : readings es with
    | nil => rw [hfirst hw hes, List.append_nil]
    | cons t ts => rfl
  · rw [if_neg hw, if_neg hw]

variable {m : Except EngineError Message} {t : Time}

theorem mem_or_eq_of_mem_heard_read {v : Time} (h : v ∈ w.heard (es ++ [(t, .read m)])) :
    v ∈ w.heard es ∨ v = t := by
  rw [mem_heard_iff] at h ⊢
  rw [readings_append, signs_append, List.mem_append, List.head?_append] at h
  rcases h with rfl | ⟨hw, hv⟩ | hv | hv
  · exact .inl (.inl rfl)
  · cases hes : (readings es).head? with
    | none =>
      rw [hes] at hv
      exact .inr (Option.some.inj hv).symm
    | some t' =>
      rw [hes] at hv
      exact .inl (.inr (.inl ⟨hw, hv⟩))
  · exact .inl (.inr (.inr hv))
  · obtain ⟨x, hx, rfl⟩ := List.mem_map.1 hv
    rw [List.mem_singleton.1 (List.mem_filter.1 hx).1]
    exact .inr rfl

theorem mem_heard_read
    (h : (Effect.read m).isSign = true ∨ (w.HoldsSign ∧ readings es = [])) :
    t ∈ w.heard (es ++ [(t, .read m)]) := by
  rw [mem_heard_iff, readings_append, signs_append, List.mem_append]
  rcases h with hsign | ⟨hw, hes⟩
  · exact .inr (.inr (.inr (by simp [signs, hsign])))
  · exact .inr (.inl ⟨hw, by rw [hes]; rfl⟩)

theorem heard_read (hsign : ¬ (Effect.read m).isSign = true)
    (hfirst : ¬ (w.HoldsSign ∧ readings es = [])) :
    w.heard (es ++ [(t, .read m)]) = w.heard es :=
  heard_append (by simp [signs, hsign]) fun hw hes => absurd ⟨hw, hes⟩ hfirst

end

/-- In an established session it is the signs of life that an event is queued for. -/
theorem isSome_queued? {w : Worker σ} (hw : w.state = .established)
    (r : Except EngineError Message) : (w.queued? r).isSome = (Effect.read r).isSign := by
  rcases r with e | m
  · rfl
  · cases m with
    | update u =>
      simp only [queued?, Effect.isSign, hw, true_and, ← isSome_kinds?]
      cases (kinds? u.nlris).isSome <;> rfl
    | _ => rfl

theorem holdsSign_append (w : Worker σ) (events : List WorkerEvent) :
    ({ w with inbox := w.inbox ++ events } : Worker σ).HoldsSign ↔
      w.HoldsSign ∨ ∃ e ∈ events, e.route? = none := by
  simp only [HoldsSign, List.mem_append, or_and_right, exists_or]

theorem route?_of_queued? {w : Worker σ} {r : Except EngineError Message} {e : WorkerEvent}
    (h : w.queued? r = some e) : e.route? = none := by
  unfold queued? at h
  split at h
  · cases h
    rfl
  · split at h
    · cases h
      rfl
    · cases h
  · cases h

variable [Engine σ]

theorem passes_read {w : Worker σ} (hw : Engine.isConnected w.engine = true) :
    Passes w [.read (Engine.read w.engine).1] w.readMessage.2 := by
  obtain ⟨v, hv, -, -, hok, herror⟩ := exists_readMessage hw
  rcases hr : (Engine.read w.engine).1 with e | m
  · rw [herror e hr]
    exact hr ▸ hv.quiet (v.passes_handleFailure e)
  · rw [hok m hr]
    exact hr ▸ hv.quiet (v.passes_handle m)

end Worker

/-! ## The invariant -/

/-- The worker has not read yet since it last looked at its timers. -/
def Phase.listens : Phase → Bool
  | .polling _ | .waiting _ _ => true
  | _ => false

/-- The worker looks at its timers next. -/
def Phase.checks : Phase → Bool
  | .checking _ => true
  | _ => false

/-- When the next move of a session is due; only a wait takes time. -/
def Phase.dueAt : Phase → Time → Time
  | .waiting u _, now => max now u
  | _, now => now

theorem Phase.dueAt_dueAt (p : Phase) (now : Time) : p.dueAt (p.dueAt now) = p.dueAt now := by
  cases p with
  | waiting u t => exact Nat.max_eq_left (Nat.le_max_right now u)
  | _ => rfl

theorem Phase.dueAt_of_not_listens {p : Phase} (h : p.listens = false) (now : Time) :
    p.dueAt now = now := by
  cases p with
  | waiting u t => cases h
  | _ => rfl

namespace Runner

variable {σ : Type}

/-- A session that began with `w`, and in which `es` passed on the wire, has the timer set
    to when the peer was last heard; or an event that tells of it waits in the inbox, and is
    handled before time passes. -/
structure Attends (w : Worker σ) (es : List (Time × Effect)) (r : Runner σ) (t : Timers) :
    Prop where
  wire : r.worker.wire = w.wire ++ es
  state : r.worker.state = .established
  hold : t.hold = w.holdTime.toNat
  heard : t.heard ∈ w.heard es
  past : ∀ v ∈ w.heard es, v ≤ r.worker.now
  latest : ¬ r.worker.HoldsSign → ∀ v ∈ w.heard es, v ≤ t.heard
  /-- An event that waited in the inbox before is left there up to the first reading. -/
  unread : r.phase.listens = true → (r.worker.HoldsSign ↔ w.HoldsSign ∧ readings es = [])
  /-- After a reading no time passes until the inbox is empty. -/
  read : r.phase.listens = false → readings es ≠ [] ∧
    (r.worker.HoldsSign → r.phase.checks = false ∧ r.worker.now ∈ w.heard es)
  /-- The timer was looked at before the last wait. -/
  due : 0 < t.hold → ∀ v, r.wake? = some v → v < t.heard + 1000 * t.hold + r.phase.late

section
variable {w : Worker σ} {es : List (Time × Effect)} {r : Runner σ} {t : Timers}

theorem wake?_eq_dueAt (ht : r.phase.timers? = some t) :
    r.wake? = some (r.phase.dueAt r.worker.now) := by
  rcases r with ⟨v, p⟩
  cases p with
  | polling t => rfl
  | waiting u t => rfl
  | draining t => rfl
  | checking t => rfl
  | between => cases ht
  | connecting a => cases ht
  | pausing u => cases ht
  | finished result => cases ht

theorem wake?_amid {s : Surroundings σ} {events : List WorkerEvent}
    (ht : r.phase.timers? = some t) (h : r.wake? = some s.now) :
    (r.amid s events).wake? = some s.now := by
  have hdue : r.phase.dueAt r.worker.now = s.now :=
    Option.some.inj ((wake?_eq_dueAt ht).symm.trans h)
  have hamid : (r.amid s events).wake? = some (r.phase.dueAt s.now) := wake?_eq_dueAt ht
  rw [hamid, ← hdue, Phase.dueAt_dueAt]

/-- Time passes until the next move is due, and routes come to the inbox. -/
theorem Attends.amid (h : Attends w es r t) (ht : r.phase.timers? = some t) {s : Surroundings σ}
    (hs : r.wake? = some s.now) {events : List WorkerEvent}
    (hevents : ∀ e ∈ events, e.route?.isSome) : Attends w es (r.amid s events) t := by
  have hle : r.worker.now ≤ s.now := now_le_wake ht hs
  have hsign : (r.amid s events).worker.HoldsSign ↔ r.worker.HoldsSign := by
    refine (Worker.holdsSign_append (r.worker.within s) events).trans (or_iff_left ?_)
    rintro ⟨e, he, hnone⟩
    have hsome := hevents e he
    rw [hnone] at hsome
    cases hsome
  refine ⟨h.wire, h.state, h.hold, h.heard, fun v hv => (h.past v hv).trans hle, ?_, ?_, ?_, ?_⟩
  · rw [hsign]
    exact h.latest
  · rw [hsign]
    exact h.unread
  · intro hp
    obtain ⟨hread, hnow⟩ := h.read hp
    refine ⟨hread, fun hw => ?_⟩
    obtain ⟨hcheck, hmem⟩ := hnow (hsign.1 hw)
    refine ⟨hcheck, ?_⟩
    -- no time passes between a reading and the look at the timers
    have hsame : s.now = r.worker.now := by
      have hnot : r.phase.listens = false := hp
      rw [wake?_eq_dueAt ht, Phase.dueAt_of_not_listens hnot] at hs
      exact (Option.some.inj hs).symm
    change s.now ∈ w.heard es
    rwa [hsame]
  · rw [wake?_amid ht hs, ← hs]
    exact h.due

variable [Engine σ]

theorem attends_start (w : Worker σ) :
    Attends w [] (afterAttempt w (.ended (.ok ()))) (.start w.holdTime w.now) := by
  have hpass := (w.passes_toEstablished).quiet (Worker.passes_log _ .info "Session established")
  have hwire := hpass.wire
  have hnow := hpass.now
  have hheard : w.heard [] = [w.now] := by simp [Worker.heard, readings, signs]
  obtain ⟨outbox, history, heq⟩ := w.toEstablished_eq
  have hsign : (w.toEstablished.log .info "Session established").HoldsSign ↔ w.HoldsSign := by
    rw [heq]
    exact Iff.rfl
  refine ⟨hwire, w.state_toEstablished, rfl, ?_, ?_, ?_, ?_, ?_, ?_⟩
  · rw [hheard]
    exact List.mem_singleton_self _
  · rw [hheard]
    intro v hv
    exact List.mem_singleton.1 hv ▸ hnow.ge
  · rw [hheard]
    intro _ v hv
    exact (List.mem_singleton.1 hv).le
  · intro _
    exact hsign.trans (and_iff_left rfl).symm
  · intro hp
    cases hp
  · intro hpos v hv
    have hv' : v = w.now := (Option.some.inj hv).symm.trans hnow
    have hhold : 0 < w.holdTime.toNat := hpos
    simp only [Timers.start, Time] at *
    omega

/-! ## The moves of a session -/

theorem Attends.waits {v : Worker σ}
    (hwait : ∀ s : σ, Engine.waitReadable Worker.pollTimeout s ≤ Worker.pollTimeout)
    (h : Attends w es ⟨v, .polling t⟩ t) {u : Time} (hend : v.waitEnd? = some u) :
    Attends w es ⟨v, .waiting u t⟩ t := by
  refine ⟨h.wire, h.state, h.hold, h.heard, h.past, h.latest, h.unread, ?_, fun hpos u' hu' => ?_⟩
  · intro hp
    cases hp
  · have hle := Worker.waitEnd?_le hwait hend
    have hlt := h.due hpos v.now rfl
    have hmax : max v.now u = u' := Option.some.inj hu'
    simp only [Phase.late, Worker.pollTimeout, Time] at *
    omega

/-- After a reading an event waits in the inbox if the peer was heard. -/
theorem Attends.reads {v : Worker σ} {u : Time} (h : Attends w es ⟨v, .waiting u t⟩ t)
    (hdue : wake? ⟨v, .waiting u t⟩ = some v.now) (hc : Engine.isConnected v.engine = true) :
    Attends w (es ++ [(v.now, .read (Engine.read v.engine).1)])
      ⟨v.readMessage.2, .draining t⟩ t := by
  have hpass := Worker.passes_read hc
  obtain ⟨outbox, history, hsnd⟩ := Worker.readMessage_snd hc
  have hstate : v.readMessage.2.state = .established := v.state_readMessage.trans h.state
  have hsign : v.readMessage.2.HoldsSign ↔
      v.HoldsSign ∨ (Effect.read (Engine.read v.engine).1).isSign = true := by
    have hqueued := Worker.isSome_queued? h.state (Engine.read v.engine).1
    rw [hsnd, ← hqueued]
    refine (Worker.holdsSign_append v _).trans (or_congr_right ?_)
    cases hq : v.queued? (Engine.read v.engine).1 with
    | none => simp
    | some e => simp [Worker.route?_of_queued? hq]
  have hunread : v.HoldsSign ↔ w.HoldsSign ∧ readings es = [] := h.unread rfl
  generalize (Engine.read v.engine).1 = m at hpass hsign ⊢
  refine ⟨?_, hstate, h.hold, Worker.mem_heard_append h.heard, fun x hx => ?_, fun hw => ?_,
    fun hp => ?_, fun _ => ⟨?_, fun hw => ⟨rfl, ?_⟩⟩, fun hpos x hx => ?_⟩
  · exact hpass.wire.trans ((congrArg (· ++ _) h.wire).trans (List.append_assoc _ _ _))
  · refine le_of_le_of_eq ?_ hpass.now.symm
    rcases Worker.mem_or_eq_of_mem_heard_read hx with hx | rfl
    · exact h.past x hx
    · exact Nat.le_refl _
  · obtain ⟨hbefore, hm⟩ := not_or.1 (mt hsign.2 hw)
    rw [Worker.heard_read hm (mt hunread.2 hbefore)]
    exact h.latest hbefore
  · cases hp
  · rw [readings_append]
    exact List.append_ne_nil_of_right_ne_nil _ (List.cons_ne_nil v.now [])
  · have hread := (hsign.1 hw).symm.imp_right hunread.1
    exact hpass.now.symm ▸ Worker.mem_heard_read hread
  · have hx' : x = v.now := (Option.some.inj hx).symm.trans hpass.now
    exact hx' ▸ h.due hpos v.now hdue

omit [Engine σ] in
/-- What passes on the wire but readings does not concern the timer. -/
theorem Attends.passes {v u : Worker σ} {p : Phase} {fs : List Effect}
    (h : Attends w es ⟨v, p⟩ t) (ht : p.timers? = some t) (hpass : v.Passes fs u)
    (hfs : ∀ e ∈ fs, e.isRead = false) (hstate : u.state = v.state)
    (hsign : u.HoldsSign ↔ v.HoldsSign) :
    Attends w (es ++ fs.map fun e => (v.now, e)) ⟨u, p⟩ t := by
  have hread := readings_at v.now hfs
  have hheard : w.heard (es ++ fs.map fun e => (v.now, e)) = w.heard es :=
    Worker.heard_append (signs_of_readings hread) fun _ _ => hread
  have hreadings : readings (es ++ fs.map fun e => (v.now, e)) = readings es := by
    rw [readings_append, hread, List.append_nil]
  have hwake : wake? ⟨u, p⟩ = wake? ⟨v, p⟩ := by
    refine (wake?_eq_dueAt ht).trans (.trans ?_ (wake?_eq_dueAt ht).symm)
    exact congrArg (fun now => some (p.dueAt now)) hpass.now
  refine ⟨?_, hstate.trans h.state, h.hold, hheard.symm ▸ h.heard, fun x hx => ?_, ?_, ?_, ?_, ?_⟩
  · exact hpass.wire.trans ((congrArg (· ++ _) h.wire).trans (List.append_assoc _ _ _))
  · rw [hheard] at hx
    exact (h.past x hx).trans hpass.now.ge
  · rw [hsign, hheard]
    exact h.latest
  · rw [hsign, hreadings]
    exact h.unread
  · rw [hsign, hreadings, hheard]
    exact fun hp => ⟨(h.read hp).1, fun hw => hpass.now.symm ▸ (h.read hp).2 hw⟩
  · rw [hwake]
    exact h.due

/-- The events of the inbox are handled one by one. -/
theorem Attends.drains {v : Worker σ} (h : Attends w es ⟨v, .draining t⟩ t) :
    ∃ es' t', (drain t v).phase.timers? = some t' ∧ Attends w es' (drain t v) t' := by
  obtain ⟨hread, hnow⟩ := h.read rfl
  have hdue (hpos : 0 < t.hold) : v.now < t.heard + 1000 * t.hold + Worker.pollTimeout :=
    h.due hpos v.now rfl
  unfold drain Worker.nextEvent
  cases hin : v.inbox with
  | nil =>
    have hnone : ¬ v.HoldsSign := by simp [Worker.HoldsSign, hin]
    refine ⟨es, t, rfl, h.wire, h.state, h.hold, h.heard, h.past, h.latest, fun hp => ?_,
      fun _ => ⟨hread, fun hw => absurd hw hnone⟩, fun hpos x hx => ?_⟩
    · cases hp
    · exact Option.some.inj hx ▸ hdue hpos
  | cons e rest =>
    cases he : e.route? with
    | none =>
      have hmem : v.now ∈ w.heard es := (hnow ⟨e, by simp [hin], he⟩).2
      have hheard : Attends w es ⟨{ v with inbox := rest }, .draining { t with heard := v.now }⟩
          { t with heard := v.now } := by
        refine ⟨h.wire, h.state, h.hold, hmem, h.past, fun _ => h.past, fun hp => ?_,
          fun _ => ⟨hread, fun _ => ⟨rfl, hmem⟩⟩, fun hpos x hx => ?_⟩
        · cases hp
        · have hx' : x = v.now := (Option.some.inj hx).symm
          simp only [Phase.late, Worker.pollTimeout, Time] at *
          omega
      cases e with
      | keepalive => exact ⟨es, _, rfl, hheard⟩
      | update => exact ⟨es, _, rfl, hheard⟩
      | route e => cases he
    | some e' =>
      cases e with
      | keepalive => cases he
      | update => cases he
      | route e =>
        have hrest : v.Passes [] { v with inbox := rest } := .of_history rfl rfl rfl rfl
        obtain ⟨data, fs, hpass, hfs, -⟩ := Worker.passes_forward { v with inbox := rest } e
        obtain ⟨engine, history, halike⟩ := Worker.alike_forward { v with inbox := rest } e
        have hsign : (({ v with inbox := rest } : Worker σ).forward e).HoldsSign ↔
            v.HoldsSign := by
          rw [halike]
          simp [Worker.HoldsSign, hin, WorkerEvent.route?]
        refine ⟨_, t, rfl, h.passes rfl (hrest.after hpass) (fun f hf => ?_) ?_ hsign⟩
        · rcases List.mem_cons.1 hf with rfl | hf
          · rfl
          · have hsent : f.sent? ∈ fs.map Effect.sent? := List.mem_map_of_mem hf
            rw [hfs] at hsent
            split at hsent
            · cases hsent
            · exact Effect.isRead_of_sent? (List.mem_singleton.1 hsent)
        · exact (Worker.alike_forward _ e).state

omit [Engine σ] in
/-- A timer that has not run out leads to the next wait. -/
theorem Attends.checked {v : Worker σ} {t' : Timers} (h : Attends w es ⟨v, .checking t⟩ t)
    (hold : t'.hold = t.hold) (hheard : t'.heard = t.heard) (hnow : t.expired v.now = false) :
    Attends w es ⟨v, .polling t'⟩ t' := by
  obtain ⟨hread, hsign⟩ := h.read rfl
  have hnone : ¬ v.HoldsSign := fun hw => Bool.noConfusion (hsign hw).1
  refine ⟨h.wire, h.state, hold.trans h.hold, hheard.symm ▸ h.heard, h.past, ?_, ?_, fun hp => ?_,
    fun hpos x hx => ?_⟩
  · rw [hheard]
    exact h.latest
  · exact fun _ => iff_of_false hnone fun hw => hread hw.2
  · cases hp
  · have hx' : x = v.now := (Option.some.inj hx).symm
    rw [Timers.expired, decide_eq_false_iff_not, not_and, Nat.not_le, ← hold, ← hheard] at hnow
    exact hx' ▸ hnow hpos

/-- While the timer has not run out, the session goes on. -/
theorem Attends.checks {v : Worker σ} (h : Attends w es ⟨v, .checking t⟩ t)
    (hnow : t.expired v.now = false) :
    ∃ es' t', (check t v).phase.timers? = some t' ∧ Attends w es' (check t v) t' := by
  unfold check
  rw [hnow]
  simp only [Bool.false_eq_true, if_false]
  split
  · obtain ⟨e, he, -, hpass⟩ := v.passes_send Header.keepalive
    obtain ⟨engine, history, halike⟩ := v.alike_send Header.keepalive
    have hsign : (v.send Header.keepalive).HoldsSign ↔ v.HoldsSign := by
      rw [halike]
      exact Iff.rfl
    have hsent := h.passes rfl hpass (by simpa using Effect.isRead_of_sent? he)
      (v.alike_send _).state hsign
    have hexpired : t.expired (v.send Header.keepalive).now = false := by
      rw [hpass.now]
      exact hnow
    have hnext : Attends w _ ⟨v.send Header.keepalive, .polling { t with kept := v.now }⟩
        { t with kept := v.now } := hsent.checked rfl rfl hexpired
    exact ⟨_, _, rfl, hnext⟩
  · exact ⟨es, t, rfl, h.checked rfl rfl hnow⟩

theorem timers?_conclude (v : Worker σ) (result : Except WorkerError SessionEnd) :
    (conclude v result).phase.timers? = none := by
  have hnone := (conclude v result).phase.isSome_timers?
  rwa [(cleansUp_conclude v result).phase, Option.isSome_eq_false_iff,
    Option.isNone_iff_eq_none] at hnone

/-- Whatever the next move is, a session that goes on keeps its timer right. -/
theorem Attends.step {q : Runner σ}
    (hwait : ∀ s : σ, Engine.waitReadable Worker.pollTimeout s ≤ Worker.pollTimeout)
    (h : Attends w es q t) (ht : q.phase.timers? = some t) (hdue : q.wake? = some q.worker.now)
    {t' : Timers} (ht' : q.step.phase.timers? = some t') : ∃ es', Attends w es' q.step t' := by
  rcases q with ⟨v, p⟩
  cases p with
  | polling t =>
    cases ht
    simp only [Runner.step] at ht' ⊢
    cases hstop : v.stopping with
    | true => simp [hstop, timers?_conclude] at ht'
    | false =>
      cases hend : v.waitEnd? with
      | none => simp [hstop, hend, timers?_conclude] at ht'
      | some u =>
        rw [hstop, hend] at ht'
        cases ht'
        exact ⟨es, h.waits hwait hend⟩
  | waiting u t =>
    cases ht
    simp only [Runner.step] at ht' ⊢
    cases hc : Engine.isConnected v.engine with
    | false => simp [Worker.readMessage_of_disconnected hc, afterRead, timers?_conclude] at ht'
    | true =>
      have hread := h.reads hdue hc
      generalize v.readMessage.1 = x at ht' ⊢
      rcases x with e | o
      · simp [afterRead, timers?_conclude] at ht'
      · cases o with
        | again =>
          cases ht'
          exact ⟨_, hread⟩
        | reconnect => simp [afterRead, timers?_conclude] at ht'
  | draining t =>
    cases ht
    obtain ⟨es', t'', ht'', h'⟩ := h.drains
    cases ht''.symm.trans ht'
    exact ⟨es', h'⟩
  | checking t =>
    cases ht
    cases hnow : t.expired v.now with
    | true => simp [Runner.step, check, hnow, timers?_conclude] at ht'
    | false =>
      obtain ⟨es', t'', ht'', h'⟩ := h.checks hnow
      cases ht''.symm.trans ht'
      exact ⟨es', h'⟩
  | between => cases ht
  | connecting a => cases ht
  | pausing u => cases ht
  | finished result => cases ht

end

/-! ## When the timer runs out -/

/-- What passed on the wire since the session began with `w`. -/
def since (w : Worker σ) (r : Runner σ) : List (Time × Effect) :=
  r.worker.wire.drop w.wire.length

/-- The peer was not heard for the hold time. -/
def Silent (w : Worker σ) (r : Runner σ) : Prop :=
  ∀ v ∈ w.heard (since w r), v + 1000 * w.holdTime.toNat ≤ r.worker.now

theorem since_eq {w : Worker σ} {es : List (Time × Effect)} {r : Runner σ}
    (h : r.worker.wire = w.wire ++ es) : since w r = es := by
  rw [since, h, List.drop_left]

/-- The timer is right, as long as there is one. -/
def Heeds (w : Worker σ) (r : Runner σ) : Prop :=
  ∀ t, r.phase.timers? = some t → ∃ es, Attends w es r t

section
variable [Engine σ]

/-- The session that begins with a worker. -/
def begun (w : Worker σ) : Runner σ := afterAttempt w (.ended (.ok ()))

/-- The worker looks at its timers, and that ends the session. -/
def Expires (r : Runner σ) : Prop := r.phase.checks = true ∧ r.step.phase.inSession = false

/-- The worker as it makes each of some moves. -/
def turns (r : Runner σ) : List (Surroundings σ × List WorkerEvent) → List (Runner σ)
  | [] => []
  | x :: xs => r.amid x.1 x.2 :: (r.amid x.1 x.2).step.turns xs

/-- The session goes on up to the last of some moves; each is made when it is due, and
    nothing comes to the inbox but routes. -/
def Lasts (r : Runner σ) : List (Surroundings σ × List WorkerEvent) → Prop
  | [] => True
  | x :: xs => Punctual r x.1 ∧ (∀ e ∈ x.2, e.route?.isSome) ∧ (r.amid x.1 x.2).step.Lasts xs

variable {w : Worker σ} {es : List (Time × Effect)} {r q : Runner σ} {t : Timers}

theorem heeds_begun (w : Worker σ) : Heeds w (begun w) := by
  intro t ht
  have hstart : Timers.start w.toEstablished.holdTime w.toEstablished.now =
      .start w.holdTime w.now := by
    rw [w.holdTime_toEstablished, w.passes_toEstablished.now]
  have htimers : t = .start w.holdTime w.now := (Option.some.inj ht).symm.trans hstart
  exact ⟨[], htimers ▸ attends_start w⟩

omit [Engine σ] in
/-- What is known of a session as it makes its next move. -/
theorem Heeds.attends (h : Heeds w r) {s : Surroundings σ} (hp : Punctual r s)
    {events : List WorkerEvent} (hevents : ∀ e ∈ events, e.route?.isSome) :
    ∃ es t, (r.amid s events).phase.timers? = some t ∧ Attends w es (r.amid s events) t ∧
      (r.amid s events).wake? = some s.now := by
  obtain ⟨t, ht⟩ := Option.isSome_iff_exists.1 ((r.phase.isSome_timers?).trans hp.1)
  obtain ⟨es, h⟩ := h t ht
  exact ⟨es, t, ht, h.amid ht hp.2 hevents, wake?_amid ht hp.2⟩

theorem Heeds.step
    (hwait : ∀ s : σ, Engine.waitReadable Worker.pollTimeout s ≤ Worker.pollTimeout)
    (h : Heeds w r) {s : Surroundings σ} (hp : Punctual r s) {events : List WorkerEvent}
    (hevents : ∀ e ∈ events, e.route?.isSome) : Heeds w (r.amid s events).step := by
  obtain ⟨es, t, ht, hq, hdue⟩ := h.attends hp hevents
  exact fun t' ht' => hq.step hwait ht hdue ht'

omit [Engine σ] in
/-- The last time the peer was heard is what counts. -/
theorem Attends.silent_iff {v : Worker σ} (h : Attends w es ⟨v, .checking t⟩ t) :
    Silent w ⟨v, .checking t⟩ ↔ t.heard + 1000 * t.hold ≤ v.now := by
  have hnone : ¬ v.HoldsSign := fun hw => Bool.noConfusion ((h.read rfl).2 hw).1
  rw [Silent, since_eq h.wire, ← h.hold]
  constructor
  · exact fun hs => hs _ h.heard
  · exact fun hlast x hx => (Nat.add_le_add_right (h.latest hnone x hx) _).trans hlast

theorem Attends.expires_iff (h : Attends w es q t) (ht : q.phase.timers? = some t) :
    Expires q ↔ 0 < w.holdTime.toNat ∧ q.phase.checks = true ∧ Silent w q := by
  rcases q with ⟨v, p⟩
  cases p with
  | checking t =>
    cases ht
    rw [h.silent_iff, ← h.hold]
    have hend : (check t v).phase.inSession = !t.expired v.now := by
      unfold check
      cases t.expired v.now with
      | true => rfl
      | false =>
        simp only [Bool.false_eq_true, if_false]
        split <;> rfl
    have hexpires : Expires ⟨v, .checking t⟩ ↔ t.expired v.now = true := by
      refine (and_iff_right rfl).trans ?_
      change (check t v).phase.inSession = false ↔ _
      rw [hend, Bool.not_eq_false']
    rw [hexpires, Timers.expired, decide_eq_true_eq]
    exact and_congr_right fun _ => (and_iff_right rfl).symm
  | _ => exact iff_of_false (fun hq => Bool.noConfusion hq.1) fun hq => Bool.noConfusion hq.2.1

theorem step_of_expires (h : Expires q) :
    q.step = retry (q.worker.log .warn "Hold timer expired") := by
  rcases q with ⟨v, p⟩
  cases p with
  | checking t =>
    have hend : (check t v).phase.inSession = false := h.2
    change check t v = _
    unfold check at hend ⊢
    split
    · rfl
    · next hnow =>
      rw [if_neg hnow] at hend
      split at hend <;> cases hend
  | _ => cases h.1

/-- Up to its last move the session did not find the peer silent. -/
theorem Lasts.not_silent
    (hwait : ∀ s : σ, Engine.waitReadable Worker.pollTimeout s ≤ Worker.pollTimeout)
    (h : Heeds w r) {xs : List (Surroundings σ × List WorkerEvent)}
    {x : Surroundings σ × List WorkerEvent} (hlasts : Lasts r (xs ++ [x])) :
    Heeds w (r.after xs) ∧ Punctual (r.after xs) x.1 ∧ (∀ e ∈ x.2, e.route?.isSome) ∧
      ∀ q ∈ r.turns xs, 0 < w.holdTime.toNat → q.phase.checks = true → ¬ Silent w q := by
  induction xs generalizing r with
  | nil => exact ⟨h, hlasts.1, hlasts.2.1, List.forall_mem_nil _⟩
  | cons y ys ih =>
    obtain ⟨hp, hevents, hrest⟩ := hlasts
    obtain ⟨hend, hpunctual, hlast, hturns⟩ := ih (h.step hwait hp hevents) hrest
    refine ⟨hend, hpunctual, hlast, fun q hq => ?_⟩
    rcases List.mem_cons.1 hq with rfl | hq
    swap
    · exact hturns q hq
    -- the session goes on after the move
    have hin : (r.amid y.1 y.2).step.phase.inSession = true := by
      cases ys with
      | nil => exact hrest.1.1
      | cons z zs => exact hrest.1.1
    obtain ⟨es, t, ht, hq, -⟩ := h.attends hp hevents
    intro hpos hchecks hsilent
    obtain ⟨-, hout⟩ := (hq.expires_iff ht).2 ⟨hpos, hchecks, hsilent⟩
    rw [hin] at hout
    cases hout

/-- **The hold timer runs out just in time.** Take a session in which time passes only in
    waits for a message, each of `Worker.pollTimeout` at most, whatever its engine does and
    whatever routes come to its inbox, and the worker as it makes one of its moves.  With a
    hold time, the timer ends the session just where the worker looks at its timers, the
    peer was not heard for the hold time, and this is so for the first time; then the
    worker cleans up and pauses.  So the timer never ends a session in which the peer was
    heard within the hold time, and no session goes on for the hold time and two seconds
    more without.  With a hold time of 0 the timer never ends a session. -/
theorem hold_timer_exact
    (hwait : ∀ s : σ, Engine.waitReadable Worker.pollTimeout s ≤ Worker.pollTimeout)
    (w : Worker σ) (xs : List (Surroundings σ × List WorkerEvent))
    (x : Surroundings σ × List WorkerEvent) (hlasts : Lasts (begun w) (xs ++ [x]))
    (q : Runner σ) (hq : ((begun w).after xs).amid x.1 x.2 = q) :
    (0 < w.holdTime.toNat → (Expires q ↔ q.phase.checks = true ∧ Silent w q ∧
      ∀ q' ∈ (begun w).turns xs, q'.phase.checks = true → ¬ Silent w q')) ∧
    (Expires q → q.step = retry (q.worker.log .warn "Hold timer expired")) ∧
    ((∃ v ∈ w.heard (since w q), q.worker.now < v + 1000 * w.holdTime.toNat) → ¬ Expires q) ∧
    (0 < w.holdTime.toNat →
      ∃ v ∈ w.heard (since w q), q.worker.now < v + 1000 * w.holdTime.toNat + 2000) ∧
    (w.holdTime = 0 → ¬ Expires q) := by
  obtain ⟨hheeds, hpunctual, hevents, hfirst⟩ := hlasts.not_silent hwait (heeds_begun w)
  obtain ⟨es, t, ht, h, hdue⟩ := hheeds.attends hpunctual hevents
  have hnow : (((begun w).after xs).amid x.1 x.2).worker.now = x.1.now := rfl
  rw [← hnow] at hdue
  rw [hq] at ht h hdue
  have hexpires := h.expires_iff ht
  refine ⟨fun hpos => ?_, step_of_expires, ?_, fun hpos => ?_, fun hzero hends => ?_⟩
  · rw [hexpires]
    exact ⟨fun ⟨_, hchecks, hsilent⟩ => ⟨hchecks, hsilent, fun q' hq' => hfirst q' hq' hpos⟩,
      fun ⟨hchecks, hsilent, _⟩ => ⟨hpos, hchecks, hsilent⟩⟩
  · rintro ⟨v, hv, hlt⟩ hends
    exact absurd ((hexpires.1 hends).2.2 v hv) (Nat.not_le.2 hlt)
  · rw [since_eq h.wire, ← h.hold]
    have hlt := h.due (h.hold ▸ hpos) q.worker.now hdue
    exact ⟨t.heard, h.heard, hlt.trans_le (Nat.add_le_add_left (Phase.late_le _) _)⟩
  · have hpos := (hexpires.1 hends).1
    rw [hzero] at hpos
    cases hpos

/-! ## Sessions in which nothing is read -/

instance (r : Runner σ) : Decidable (Expires r) :=
  inferInstanceAs (Decidable (r.phase.checks = true ∧ r.step.phase.inSession = false))

instance decidableLasts (r : Runner σ) :
    (xs : List (Surroundings σ × List WorkerEvent)) → Decidable (Lasts r xs)
  | [] => .isTrue trivial
  | x :: xs =>
    have := decidableLasts (r.amid x.1 x.2).step xs
    inferInstanceAs (Decidable ((r.phase.inSession = true ∧ r.wake? = some x.1.now) ∧
      (∀ e ∈ x.2, e.route?.isSome) ∧ Lasts (r.amid x.1 x.2).step xs))

end

instance (w : Worker σ) (r : Runner σ) : Decidable (Silent w r) :=
  inferInstanceAs (Decidable
    (∀ v ∈ w.heard (since w r), v + 1000 * w.holdTime.toNat ≤ r.worker.now))

/-- The worker that begins a session with a hold time and these events in its inbox. -/
def Sample.expectant (hold : UInt16) (inbox : List WorkerEvent) : Worker Script :=
  { Sample.silent hold with inbox }

/-- There is nothing to be read as a move is made. -/
def Sample.hush (now : Time) : Surroundings Script × List WorkerEvent :=
  (⟨{ connected := true }, now, {}⟩, [])

/-- The worker is about to look at its timers after 4 s, for the second time. -/
def Sample.looking (hold : UInt16) : Runner Script :=
  ((begun (Sample.expectant hold [])).after
    ([0, 2000, 2000, 2000, 2000, 4000, 4000].map Sample.hush)).amid (Sample.hush 4000).1 []

/-- With a hold time of 3 s that ends the session, and without one it does not. -/
theorem sample_hold_timer_exact :
    Expires (Sample.looking 3) ∧ (Sample.looking 3).worker.now = 4000 ∧
    (Sample.looking 3).step.worker.Clean ∧ ¬ Expires (Sample.looking 0) := by
  obtain ⟨hexact, hends, -⟩ := hold_timer_exact (Script.waitReadable_le _)
    (Sample.expectant 3 []) ([0, 2000, 2000, 2000, 2000, 4000, 4000].map Sample.hush)
    (Sample.hush 4000) (by decide +kernel) (Sample.looking 3) rfl
  obtain ⟨-, -, -, -, hnever⟩ := hold_timer_exact (Script.waitReadable_le _)
    (Sample.expectant 0 []) ([0, 2000, 2000, 2000, 2000, 4000, 4000].map Sample.hush)
    (Sample.hush 4000) (by decide +kernel) (Sample.looking 0) rfl
  have hexpires : Expires (Sample.looking 3) :=
    (hexact (by decide +kernel)).2 (by decide +kernel)
  refine ⟨hexpires, rfl, ?_, hnever (by decide +kernel)⟩
  rw [hends hexpires]
  exact (Worker.stopAndClean_spec _).1

/-- A KEEPALIVE event that waited in the inbox when the session began puts the end off,
    although no KEEPALIVE was read. -/
theorem waiting_sign_delays_expiry :
    ¬ ∀ (w : Worker Script) (xs : List (Surroundings Script × List WorkerEvent))
      (x : Surroundings Script × List WorkerEvent) (q : Runner Script),
      Lasts (begun w) (xs ++ [x]) → ((begun w).after xs).amid x.1 x.2 = q →
      0 < w.holdTime.toNat → (Expires q ↔ q.phase.checks = true ∧
        (∀ v ∈ w.now :: signs (since w q), v + 1000 * w.holdTime.toNat ≤ q.worker.now) ∧
        ∀ q' ∈ (begun w).turns xs, q'.phase.checks = true →
          ¬ ∀ v ∈ w.now :: signs (since w q'),
            v + 1000 * w.holdTime.toNat ≤ q'.worker.now) := by
  intro h
  have hiff := h (Sample.expectant 3 [.keepalive])
    ([0, 2000, 2000, 2000, 2000, 2000, 4000, 4000].map Sample.hush) (Sample.hush 4000) _
    (by decide +kernel) rfl (by decide +kernel)
  exact absurd (hiff.2 (by decide +kernel)) (by decide +kernel)

end Runner

end RouteExchange
