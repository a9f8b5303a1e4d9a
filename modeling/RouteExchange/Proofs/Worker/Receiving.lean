/-
  An UPDATE is handled as a whole or not at all.

  The receipt of a message takes at most one message from the engine and adds at most one
  event to the inbox (`receiveOnce_snd`).  `update_handled_whole` says of an UPDATE what
  is asked of the bus for it besides, and that nothing is where it is refused.
-/
import RouteExchange.Proofs.Worker.Acceptance

namespace RouteExchange.Worker

variable {σ : Type}

theorem isSome_kinds? (u : Update) : (kinds? u.nlris).isSome = !(Message.update u).invalid := by
  have hnone := kinds?_eq_none_iff u.nlris
  cases hk : kinds? u.nlris with
  | none => simpa [Message.invalid] using hnone.1 hk
  | some ks => simpa [Message.invalid, hk] using hnone

variable [Engine σ]

/-- The receipt of one message, in whatever it ends: at most one message is taken from the
    engine, and at most one event is queued. -/
theorem receiveOnce_snd (w : Worker σ) : ∃ now engine events outbox history,
    w.receiveOnce.2 = { w with now, engine, inbox := w.inbox ++ events, outbox, history } ∧
    events.length ≤ 1 ∧ (engine = w.engine ∨ engine = (Engine.read w.engine).2) := by
  unfold receiveOnce
  cases w.waitEnd? with
  | none => exact ⟨w.now, w.engine, [], w.outbox, w.history, by simp, by simp, .inl rfl⟩
  | some t =>
    cases hc : Engine.isConnected w.engine with
    | true =>
      obtain ⟨outbox, history, h⟩ := readMessage_snd (w := { w with now := t }) hc
      refine ⟨t, _, _, outbox, history, h, ?_, .inr rfl⟩
      cases Worker.queued? { w with now := t } (Engine.read w.engine).1 <;> simp
    | false =>
      refine ⟨t, w.engine, [], w.outbox, w.history, ?_, by simp, .inl rfl⟩
      simp [readMessage_of_disconnected (w := { w with now := t }) hc]

/-- An UPDATE that is refused leaves no trace on the bus and in the inbox, and one that is
    published is told of once. -/
theorem receiveOnce_update {w : Worker σ} {u : Update} (hw : w.connection.isSome)
    (hc : Engine.isConnected w.engine = true) (hr : (Engine.read w.engine).1 = .ok (.update u)) :
    ∃ v : Worker σ, Gives w [] v ∧ v.state = w.state ∧
      w.receiveOnce.1 = (v.handle (.update u)).1 ∧
      w.receiveOnce.2.calls = (v.handle (.update u)).2.calls ∧
      w.receiveOnce.2.inbox = w.inbox ++ (w.queued? (.ok (.update u))).toList := by
  obtain ⟨n, hn⟩ := Option.isSome_iff_exists.1 hw
  have hwait : w.waitEnd? = some (w.now + Engine.waitReadable pollTimeout w.engine) := by
    rw [waitEnd?, hn]
    rfl
  unfold receiveOnce
  simp only [hwait]
  obtain ⟨v, -, hv, hstate, hok, -⟩ := exists_readMessage
    (w := { w with now := w.now + Engine.waitReadable pollTimeout w.engine }) hc
  obtain ⟨_, _, hsnd⟩ := readMessage_snd
    (w := { w with now := w.now + Engine.waitReadable pollTimeout w.engine }) hc
  refine ⟨v, (w.gives_surroundings _ _ _ _ _).quiet hv, hstate, ?_, ?_, ?_⟩
  · rw [hok _ hr]
  · rw [hok _ hr]
  · rw [hsnd]
    exact congrArg (fun r => w.inbox ++ (w.queued? r).toList) hr

/-- **An UPDATE is handled as a whole or not at all.** Take any worker with a connection,
    and any UPDATE that it reads.  Where it is in another state than the established one,
    or an NLRI of the UPDATE is neither announced nor withdrawn, that is an error, with
    nothing asked of the bus and no event queued.  Otherwise the bus is asked, NLRI by
    NLRI and in order, to advertise or withdraw it, and for a constraint to add or drop
    an interest for each active family but that of constraints; and one event is queued.
    Whatever a worker receives, it takes at most one message from the engine and queues at
    most one event, and its state, its hold time, its families and its connection stay as
    they are. -/
theorem update_handled_whole (w : Worker σ) :
    (∀ u, w.connection.isSome → Engine.isConnected w.engine = true →
      (Engine.read w.engine).1 = .ok (.update u) →
      (w.state ≠ .established →
        w.receiveOnce.1 = .error (.earlyUpdate w.state) ∧
        w.receiveOnce.2.calls = w.calls ∧ w.receiveOnce.2.inbox = w.inbox) ∧
      (w.state = .established → (∃ n ∈ u.nlris, n.action = .unset) →
        w.receiveOnce.1 = .error (.invalidAction .unset) ∧
        w.receiveOnce.2.calls = w.calls ∧ w.receiveOnce.2.inbox = w.inbox) ∧
      (w.state = .established → (∀ n ∈ u.nlris, n.action ≠ .unset) →
        w.receiveOnce.1 = .ok .again ∧
        w.receiveOnce.2.calls =
          w.calls ++ u.nlris.flatMap (fun n => w.routeCalls n.kind ⟨n, u.attributes⟩) ∧
        w.receiveOnce.2.inbox = w.inbox ++ [.update])) ∧
    (w.receiveOnce.2.engine = w.engine ∨
      w.receiveOnce.2.engine = (Engine.read w.engine).2) ∧
    (∃ events, w.receiveOnce.2.inbox = w.inbox ++ events ∧ events.length ≤ 1) ∧
    w.receiveOnce.2.state = w.state ∧ w.receiveOnce.2.holdTime = w.holdTime ∧
    w.receiveOnce.2.activeFamilies = w.activeFamilies ∧
    w.receiveOnce.2.rtcActive = w.rtcActive ∧ w.receiveOnce.2.connection = w.connection := by
  refine ⟨fun u hw hc hr => ?_, ?_⟩
  · obtain ⟨v, hgives, hstate, hfst, hcalls, hinbox⟩ := receiveOnce_update hw hc hr
    have hrefused {e : WorkerError} (he : (v.handle (.update u)).1 = .error e) :
        (v.handle (.update u)).2.calls = w.calls := by
      rcases v.handle_cases (.update u) with h | ⟨_, -, hagain, -⟩
      · exact h.calls_eq.trans hgives.calls_eq
      · rw [he] at hagain
        cases hagain
    rw [hfst, hcalls, hinbox]
    refine ⟨fun hs => ?_, fun hs hunset => ?_, fun hs hvalid => ?_⟩
    · have he := handle_early (hstate ▸ hs) u
      refine ⟨hstate ▸ he, hrefused he, ?_⟩
      simp [Worker.queued?, hs]
    · have hu : (Message.update u).invalid = true := by simpa [Message.invalid] using hunset
      have he := handle_fst (hstate.trans hs) (.update u)
      rw [if_pos hu] at he
      refine ⟨he, hrefused he, ?_⟩
      simp [Worker.queued?, isSome_kinds?, hu]
    · have hu : (Message.update u).invalid = false := by simpa [Message.invalid] using hvalid
      obtain ⟨v', hv', -, hpublished⟩ := handle_update (hstate.trans hs) hvalid
      have hcommands : v.updateCalls u =
          u.nlris.flatMap fun n => w.routeCalls n.kind ⟨n, u.attributes⟩ := by
        rw [hgives.updateCalls, updateCalls, kinds?_eq_some hvalid, Option.getD_some,
          List.flatMap_map]
      rw [hv']
      refine ⟨rfl, ?_, ?_⟩
      · rw [hpublished.calls, hgives.calls_eq, hcommands]
      · simp [Worker.queued?, isSome_kinds?, hs, hu]
  · obtain ⟨now, engine, events, outbox, history, h, hone, hengine⟩ := w.receiveOnce_snd
    rw [h]
    exact ⟨hengine, ⟨events, rfl, hone⟩, rfl, rfl, rfl, rfl, rfl⟩

/-! ## An UPDATE with a route and a constraint -/

/-- The peer sends these NLRIs, to a worker with two active families whose session has
    begun or has not. -/
def Sample.told (begun : Bool) (ns : List Nlri) : Worker Script :=
  (if begun then (Sample.established true).toEstablished else Sample.established true).within
    (Sample.sends ns).1

theorem sample_update_handled_whole :
    (Sample.told false [.sample .announced [8]]).receiveOnce.1 = .error (.earlyUpdate .idle) ∧
    (Sample.told true [.sample .announced [8], .sample .unset [8]]).receiveOnce.1 =
      .error (.invalidAction .unset) ∧
    (Sample.told true [.sample .announced [8], .sample .unset [8]]).receiveOnce.2.inbox = [] ∧
    (Sample.told true
      [.rtc .announced 65000 Sample.target, .sample .announced [8]]).receiveOnce.2.calls =
      [.subscribe "peer-192.0.2.7" (.worker 0 0) ⟨.ipv4Rtc, none⟩,
        .advertise "peer-192.0.2.7" ⟨.rtc .announced 65000 Sample.target, ∅⟩,
        .subscribe "peer-192.0.2.7" (.worker 0 0) ⟨.ipv4MplsVpn, Sample.target⟩,
        .advertise "peer-192.0.2.7" ⟨.sample .announced [8], ∅⟩] := by
  obtain ⟨hearly, -⟩ := update_handled_whole (Sample.told false [.sample .announced [8]])
  obtain ⟨hunset, -⟩ := update_handled_whole
    (Sample.told true [.sample .announced [8], .sample .unset [8]])
  obtain ⟨hvalid, -⟩ := update_handled_whole
    (Sample.told true [.rtc .announced 65000 Sample.target, .sample .announced [8]])
  obtain ⟨hrefused, -⟩ := (hearly _ rfl rfl rfl).1 (by decide)
  obtain ⟨herror, -, hinbox⟩ := (hunset _ rfl rfl rfl).2.1 rfl ⟨_, List.mem_cons_of_mem _
    (List.mem_singleton_self _), rfl⟩
  obtain ⟨-, hcalls, -⟩ := (hvalid _ rfl rfl rfl).2.2 rfl (by decide)
  refine ⟨hrefused, herror, hinbox, hcalls.trans ?_⟩
  decide +kernel

end RouteExchange.Worker
