/-
  What passes between a worker and its peer.

  `Worker.wire` is the part of a worker's history that concerns its connection, in
  order.  `Passes w es w'` says that from `w` to `w'` just the effects `es` are added
  to it, at one moment and over the connection that is held; there is one such lemma
  for each of the things a worker does in a session.  Connections are opened and
  closed in two places only, for which the lemmas say what is added.
-/
import RouteExchange.Proofs.Worker.Gives

namespace RouteExchange

namespace Effect

/-- The effect concerns the connection to the peer. -/
def onWire : Effect → Bool
  | opened _ | closed _ | read _ | encoded _ _ | wrote _ | refused _ | unsent _ => true
  | called _ | logged _ _ | counted _ => false

def opened? : Effect → Option Nat
  | opened n => some n
  | _ => none

def closed? : Effect → Option Nat
  | closed n => some n
  | _ => none

/-- The message that is to be written, whether or not that succeeds. -/
def sent? : Effect → Option Octets
  | wrote data | refused data | unsent data => some data
  | _ => none

/-- The effect neither opens nor closes a connection. -/
def Within (e : Effect) : Prop := e.opened? = none ∧ e.closed? = none

end Effect

namespace Worker

variable {σ : Type}

/-- What passed between the worker and its peer so far, in order. -/
def wire (w : Worker σ) : List (Time × Effect) := w.history.reverse.filter fun x => x.2.onWire

/-- The effects `es` pass on the wire, at one moment and over one connection. -/
structure Passes (w : Worker σ) (es : List Effect) (w' : Worker σ) : Prop where
  now : w'.now = w.now
  connection : w'.connection = w.connection
  connections : w'.connections = w.connections
  wire : w'.wire = w.wire ++ es.map fun e => (w.now, e)
  within : ∀ e ∈ es, e.Within

namespace Passes

variable {w u v : Worker σ} {es fs : List Effect}

/-- Nothing passes where there is no effect. -/
theorem of_history (hn : u.now = w.now) (hc : u.connection = w.connection)
    (hk : u.connections = w.connections) (hh : u.history = w.history) : Passes w [] u := by
  refine ⟨hn, hc, hk, ?_, List.forall_mem_nil _⟩
  rw [Worker.wire, hh, List.map_nil, List.append_nil, Worker.wire]

theorem refl (w : Worker σ) : Passes w [] w := of_history rfl rfl rfl rfl

theorem trans (h : Passes w es u) (h' : Passes u fs v) : Passes w (es ++ fs) v := by
  refine ⟨h'.now.trans h.now, h'.connection.trans h.connection,
    h'.connections.trans h.connections, ?_, fun e he => ?_⟩
  · rw [h'.wire, h.wire, h.now, List.map_append, List.append_assoc]
  · rcases List.mem_append.1 he with he | he
    · exact h.within e he
    · exact h'.within e he

/-- Nothing more passes. -/
theorem quiet (h : Passes w es u) (h' : Passes u [] v) : Passes w es v := by
  simpa using h.trans h'

/-- Nothing has passed before. -/
theorem after (h : Passes w [] u) (h' : Passes u es v) : Passes w es v := h.trans h'

theorem foldl {α : Type} {f : Worker σ → α → Worker σ} (h : ∀ u x, Passes u [] (f u x))
    (xs : List α) (w : Worker σ) : Passes w [] (xs.foldl f w) := by
  induction xs generalizing w with
  | nil => exact refl w
  | cons x xs ih => exact (h w x).quiet (ih (f w x))

end Passes

/-! ## Single effects -/

section
variable (w : Worker σ)

theorem wire_emit_of_off {e : Effect} (he : e.onWire = false) : (w.emit e).wire = w.wire := by
  simp [wire, emit, he]

theorem wire_emit {e : Effect} (he : e.onWire = true) :
    (w.emit e).wire = w.wire ++ [(w.now, e)] := by
  simp [wire, emit, he]

theorem passes_off {e : Effect} (he : e.onWire = false) : Passes w [] (w.emit e) :=
  ⟨rfl, rfl, rfl, (w.wire_emit_of_off he).trans (List.append_nil _).symm, List.forall_mem_nil _⟩

theorem passes_emit {e : Effect} (he : e.onWire = true) (hw : e.Within) : Passes w [e] (w.emit e) :=
  ⟨rfl, rfl, rfl, w.wire_emit he, fun _ h => List.mem_singleton.1 h ▸ hw⟩

theorem passes_log (level : Level) (text : String) : Passes w [] (w.log level text) :=
  w.passes_off rfl

theorem passes_count (m : Metric) : Passes w [] (w.count m) := w.passes_off rfl

theorem passes_call (c : Bus.Command) : Passes w [] (w.call c) :=
  (Passes.of_history rfl rfl rfl rfl : Passes w [] { w with outbox := w.outbox ++ [c] }).quiet
    (passes_off _ rfl)

theorem passes_enter (s : SessionState) : Passes w [] (w.enter s) :=
  (Passes.of_history rfl rfl rfl rfl : Passes w [] { w with state := s }).quiet (passes_count _ _)

theorem passes_engine (engine : σ) : Passes w [] { w with engine } := .of_history rfl rfl rfl rfl

theorem passes_enqueue (e : WorkerEvent) : Passes w [] (w.enqueue e) := .of_history rfl rfl rfl rfl

end

/-! ## The attempt -/

section
variable (w : Worker σ)

theorem passes_negotiateFamilies (fs : List Family) : Passes w [] (w.negotiateFamilies fs) := by
  have hset (v : Worker σ) (rtcActive : Bool) (activeFamilies : List Family) :
      Passes v [] { v with rtcActive, activeFamilies } := .of_history rfl rfl rfl rfl
  have hwarn := Passes.foldl
    (fun (u : Worker σ) f => u.passes_log .warn ("Peer does not support family " ++ Family.text f))
    (w.config.offered.filter fun f => !fs.contains f) w
  unfold negotiateFamilies
  simp only
  split
  · exact ((hwarn.quiet (passes_log _ _ _)).quiet (hset _ _ _)).quiet (passes_log _ _ _)
  · exact (hwarn.quiet (hset _ _ _)).quiet (passes_log _ _ _)

theorem passes_failAttempt (e : EngineError) : Passes w [] (w.failAttempt e).1 := by
  unfold failAttempt
  split
  · exact w.passes_log _ _
  · exact .refl w

variable [Engine σ]

theorem passes_completeAttempt : Passes w [] w.completeAttempt.1 := by
  unfold completeAttempt
  split
  · exact .refl w
  · next n _ =>
    exact (Passes.of_history rfl rfl rfl rfl : Passes w [] { w with holdTime := n.holdTime }).quiet
      (passes_negotiateFamilies _ _)

/-- An attempt exchanges nothing that a worker sees. -/
theorem passes_attemptStep (a : Attempt) : Passes w [] (w.attemptStep a).1 := by
  cases a with
  | asking =>
    rcases hstep : Engine.establishStep w.engine with ⟨r, s⟩
    simp only [attemptStep, hstep]
    have hs := w.passes_engine s
    cases r with
    | error e => exact hs.quiet (passes_failAttempt _ e)
    | ok step =>
      cases step with
      | none => exact hs.quiet (passes_completeAttempt _)
      | some step => exact hs.quiet (passes_enter _ _)
  | backingOff t closed =>
    simp only [attemptStep]
    split
    · exact .refl w
    · split
      · exact .refl w
      · exact .refl w
  | ended r => exact .refl w

end

/-! ## A session -/

section
variable (w : Worker σ)

theorem passes_toEstablished : Passes w [] w.toEstablished := by
  have hw := w.passes_enter .established
  unfold toEstablished
  simp only
  split
  · exact hw.quiet (passes_call _ _)
  · exact hw.quiet (Passes.foldl (fun u _ => u.passes_call _) _ _)

theorem passes_applyConstraint (kind : Route.Kind) (target : Option RouteTarget) :
    Passes w [] (w.applyConstraint kind target) := by
  unfold applyConstraint
  refine (w.passes_log _ _).quiet (Passes.foldl (fun u f => ?_) _ _)
  cases kind with
  | advertise => exact (u.passes_call _).quiet (passes_count _ _)
  | withdraw => exact (u.passes_call _).quiet (passes_count _ _)

theorem passes_publish (kind : Route.Kind) (route : Route) :
    Passes w [] (w.publish kind route) := by
  have hcall (c : Bus.Command) :
      Passes w [] ((w.count (.route w.id route.family.text kind.name)).call c) :=
    (w.passes_count _).quiet (passes_call _ c)
  unfold publish
  simp only
  split
  · exact (hcall _).quiet (passes_applyConstraint _ _ _)
  · exact hcall _

theorem passes_publishUpdate (u : Update) : Passes w [] (w.publishUpdate u).2 := by
  unfold publishUpdate
  split
  · exact .refl w
  · exact Passes.foldl
      (fun (v : Worker σ) (x : Route.Kind × Nlri) => v.passes_publish x.1 ⟨x.2, u.attributes⟩) _ w

theorem passes_handle (m : Message) : Passes w [] (w.handle m).2 := by
  have hcount : Passes w [] (if m = .nop then w else w.count (.received w.id m.name)) := by
    split
    · exact .refl w
    · exact w.passes_count _
  unfold handle
  simp only
  generalize (if m = .nop then w else w.count (.received w.id m.name)) = v at hcount ⊢
  cases m with
  | nop => exact hcount
  | keepalive => exact hcount.quiet (passes_enqueue v _)
  | update u =>
    simp only
    split
    · have hpublish := v.passes_publishUpdate u
      rcases hp : v.publishUpdate u with ⟨r, v'⟩
      rw [hp] at hpublish
      cases r with
      | ok => exact (hcount.quiet hpublish).quiet (passes_enqueue v' _)
      | error e => exact hcount.quiet hpublish
    · exact hcount
  | opening o => exact hcount.quiet (passes_log v _ _)
  | notification n => exact hcount.quiet (passes_log v _ _)
  | routeRefresh f => exact hcount.quiet (passes_log v _ _)

theorem passes_handleFailure (e : EngineError) : Passes w [] (w.handleFailure e).2 := by
  unfold handleFailure
  split <;> exact w.passes_log _ _

variable [Engine σ]

/-- A message is read, where there is a connection. -/
theorem passes_readMessage : ∃ rs, Passes w (List.map .read rs) w.readMessage.2 := by
  unfold readMessage
  split
  · rcases Engine.read w.engine with ⟨r, s⟩
    have hread : Passes w [.read r] (({ w with engine := s } : Worker σ).emit (.read r)) :=
      (w.passes_engine s).after (passes_emit _ rfl ⟨rfl, rfl⟩)
    refine ⟨[r], ?_⟩
    cases r with
    | error e => exact hread.quiet (passes_handleFailure _ e)
    | ok m => exact hread.quiet (passes_handle _ m)
  · exact ⟨[], .refl w⟩

/-- One effect tells of a message that is to be written: over a connection, that the engine was
    asked to. -/
theorem passes_send (data : Octets) : ∃ e, e.sent? = some data ∧
    (w.connection.isSome → e ≠ .unsent data) ∧ Passes w [e] (w.send data) := by
  unfold send
  split
  · next hc =>
    refine ⟨.unsent data, rfl, by simp [hc], ?_⟩
    exact ((w.passes_emit rfl ⟨rfl, rfl⟩).quiet (passes_log _ _ _)).quiet (passes_count _ _)
  · rcases Engine.write data w.engine with ⟨r, s⟩
    have hs := w.passes_engine s
    cases r with
    | ok =>
      refine ⟨.wrote data, rfl, by simp, ?_⟩
      exact (hs.after (passes_emit _ rfl ⟨rfl, rfl⟩)).quiet (passes_count _ _)
    | error e =>
      refine ⟨.refused data, rfl, by simp, ?_⟩
      exact ((hs.after (passes_emit _ rfl ⟨rfl, rfl⟩)).quiet (passes_log _ _ _)).quiet
        (passes_count _ _)

theorem passes_encodeEvent (e : Route.Event) :
    Passes w [.encoded e (w.encodeEvent e).1] (w.encodeEvent e).2 := by
  have hfail (text : String) : Passes w [.encoded e []] (w.encodeFailed e text).2 :=
    ((w.passes_log _ _).quiet (passes_count _ _)).after (passes_emit _ rfl ⟨rfl, rfl⟩)
  unfold encodeEvent
  split
  · exact hfail _
  · split
    · exact w.passes_emit rfl ⟨rfl, rfl⟩
    · exact hfail _

/-- What a route event is encoded to comes from the engine, if it is anything. -/
theorem encodeEvent_eq (e : Route.Event) : (w.encodeEvent e).1 = [] ∨
    Engine.encode (updateFor e) w.engine = .ok (w.encodeEvent e).1 := by
  unfold encodeEvent
  split
  · exact .inl rfl
  · split
    · next h => exact .inr h
    · exact .inl rfl

/-- A route event is encoded, and what comes of it is to be written, if anything. -/
theorem passes_forward (e : Route.Event) :
    ∃ data es, Passes w (.encoded e data :: es) (w.forward e) ∧
      es.map Effect.sent? = (if data = [] then [] else [some data]) ∧
      (data = [] ∨ Engine.encode (updateFor e) w.engine = .ok data) := by
  have h := w.passes_encodeEvent e
  rw [forward_eq]
  split
  · next hnil =>
    rw [hnil] at h
    exact ⟨[], [], h, rfl, .inl rfl⟩
  · next hne =>
    obtain ⟨f, hf, -, hsend⟩ := (w.encodeEvent e).2.passes_send (w.encodeEvent e).1
    refine ⟨_, [f], h.trans hsend, ?_, w.encodeEvent_eq e⟩
    rw [if_neg hne, List.map_singleton, hf]

end

/-! ## From one session to the next -/

/-- Nothing is left of a session. -/
structure Clean (w : Worker σ) : Prop where
  state : w.state = .idle
  families : w.activeFamilies = []
  rtc : w.rtcActive = false
  connection : w.connection = none
  inbox : w.inbox = []

/-- The closing of the connection, if one is held. -/
def closing (w : Worker σ) : List (Time × Effect) :=
  w.connection.toList.map fun n => (w.now, .closed n)

section
variable (w : Worker σ) [Engine σ]

/-- A connection that is held is closed. -/
theorem closeConnection_spec : w.closeConnection.wire = w.wire ++ w.closing ∧
    w.closeConnection.connection = none ∧ w.closeConnection.connections = w.connections ∧
    w.closeConnection.now = w.now ∧ w.closeConnection.state = w.state := by
  unfold closeConnection closing
  cases hw : w.connection with
  | none => exact ⟨(List.append_nil _).symm, hw, rfl, rfl, rfl⟩
  | some n => exact ⟨wire_emit _ rfl, rfl, rfl, rfl, rfl⟩

/-- An attempt begins with a connection of its own. -/
theorem beginAttempt_spec :
    w.beginAttempt.wire = w.wire ++ w.closing ++ [(w.now, .opened w.connections)] ∧
    w.beginAttempt.connection = some w.connections ∧
    w.beginAttempt.connections = w.connections + 1 := by
  obtain ⟨hwire, -, hcount, hnow, -⟩ :=
    closeConnection_spec { w with rtcActive := false, activeFamilies := [] }
  unfold beginAttempt
  generalize closeConnection { w with rtcActive := false, activeFamilies := [] } = v at *
  unfold openConnection
  rw [hcount]
  refine ⟨?_, rfl, rfl⟩
  refine (wire_emit _ rfl).trans ?_
  change v.wire ++ [(v.now, _)] = _
  rw [hwire, hnow]
  rfl

/-- A clean-up closes the connection and leaves nothing of the session. -/
theorem stopAndClean_spec : w.stopAndClean.Clean ∧ w.stopAndClean.wire = w.wire ++ w.closing ∧
    w.stopAndClean.connections = w.connections ∧ w.stopAndClean.now = w.now := by
  have hidle := passes_enter { w with activeFamilies := [], rtcActive := false } .idle
  obtain ⟨hwire, hnone, hcount, hnow, hstate⟩ := closeConnection_spec
    (({ w with activeFamilies := [], rtcActive := false } : Worker σ).enter .idle)
  have hgives := gives_closeConnection
    (({ w with activeFamilies := [], rtcActive := false } : Worker σ).enter .idle)
  unfold stopAndClean
  simp only
  generalize (({ w with activeFamilies := [], rtcActive := false } : Worker σ).enter
    .idle).closeConnection = v at *
  have hcall := v.passes_call (.cleanup v.id)
  refine ⟨⟨hstate, hgives.active, hgives.rtc, hnone, rfl⟩, ?_, hcount, hnow⟩
  have hlast : (v.call (.cleanup v.id)).wire = v.wire := by rw [hcall.wire]; simp
  refine (hlast.trans hwire).trans ?_
  rw [hidle.wire, List.map_nil, List.append_nil]
  rfl

end

end Worker

end RouteExchange
