/-
  What a worker asks of the bus, and what it leaves alone.

  `Gives w cs w'` says that a worker gives the commands `cs`, in order, while it
  opens no connection and keeps its configuration, its inbox and the families of
  its session.  There is one such lemma for each of the things a worker does; the
  commands of each are named by a definition of their own.
-/
import RouteExchange.Worker.Attempt
import RouteExchange.Worker.Receive
import RouteExchange.Worker.Send

namespace RouteExchange

/-- The command that an effect gives, if it gives one. -/
def Effect.command? : Effect → Option Bus.Command
  | called c => some c
  | _ => none

/-- The effect opens a connection. -/
def Effect.opens : Effect → Bool
  | opened _ => true
  | _ => false

/-- The route event that an event of an inbox is, if it is one. -/
def WorkerEvent.route? : WorkerEvent → Option Route.Event
  | route e => some e
  | _ => none

namespace Worker

variable {σ : Type}

/-! ## Commands and sessions -/

/-- The commands given to the bus so far, in order. -/
def calls (w : Worker σ) : List Bus.Command := w.history.reverse.filterMap fun e => e.2.command?

/-- What was done since the last connection was opened, the latest first. -/
def session (w : Worker σ) : List Effect :=
  (w.history.map Prod.snd).takeWhile fun e => !e.opens

/-- The route events of the inbox. -/
def routes (w : Worker σ) : List Route.Event := w.inbox.filterMap WorkerEvent.route?

/-- The active families apart from that of constraints. -/
def steered (w : Worker σ) : List Family := w.activeFamilies.filter fun f => !f.isRtc

/-- The command that the change of an interest in a route target takes for a family. -/
def constraintCall (w : Worker σ) (kind : Route.Kind) (target : Option RouteTarget) (f : Family) :
    Bus.Command :=
  match kind with
  | .advertise => .subscribe w.id w.address ⟨f, target⟩
  | .withdraw => .unsubscribe w.id ⟨f, target⟩

/-- The commands that it takes for all families it concerns. -/
def constraintCalls (w : Worker σ) (kind : Route.Kind) (target : Option RouteTarget) :
    List Bus.Command :=
  w.steered.map (w.constraintCall kind target)

/-- The commands that a route of the peer takes. -/
def routeCalls (w : Worker σ) (kind : Route.Kind) (route : Route) : List Bus.Command :=
  (match kind with
    | .advertise => .advertise w.id route
    | .withdraw => .withdraw w.id route) ::
  if route.family.isRtc then w.constraintCalls kind route.nlri.target else []

/-- The commands that an UPDATE takes. -/
def updateCalls (w : Worker σ) (u : Update) : List Bus.Command :=
  ((kinds? u.nlris).getD []).flatMap fun x => w.routeCalls x.1 ⟨x.2, u.attributes⟩

/-- The commands that begin a session. -/
def firstCalls (w : Worker σ) : List Bus.Command :=
  (if w.rtcActive then [.ipv4Rtc] else w.activeFamilies).map (w.constraintCall .advertise none)

/-- The worker with the families that both sides offer. -/
def agree (w : Worker σ) (peerFamilies : List Family) : Worker σ :=
  let active := w.config.offered.filter fun f => peerFamilies.contains f
  { w with
    rtcActive := w.config.rtcEnabled && active.contains .ipv4Rtc
    activeFamilies := active }

/-! ## Surroundings -/

end Worker

/-- What is around a worker, and changes without it: the engine, the clock, and
    whether a stop is asked for. -/
structure Surroundings (σ : Type) where
  engine : σ
  now : Time
  stop : StopSignal

namespace Worker

variable {σ : Type}

/-- The worker in other surroundings. -/
def within (w : Worker σ) (s : Surroundings σ) : Worker σ :=
  { w with engine := s.engine, now := s.now, stop := s.stop }

/-! ## Giving commands -/

/-- The worker gives the commands and keeps what makes up its session. -/
structure Gives (w : Worker σ) (cs : List Bus.Command) (w' : Worker σ) : Prop where
  config : w'.config = w.config
  peer : w'.peer = w.peer
  index : w'.index = w.index
  epoch : w'.epoch = w.epoch
  active : w'.activeFamilies = w.activeFamilies
  rtc : w'.rtcActive = w.rtcActive
  connection : w'.connection = w.connection
  routes : w'.routes = w.routes
  outbox : w'.outbox = w.outbox ++ cs
  effects : ∃ es : List (Time × Effect), w'.history = es ++ w.history ∧
    (∀ e ∈ es, e.2.opens = false) ∧ (es.reverse.filterMap fun e => e.2.command?) = cs

namespace Gives

variable {w u v : Worker σ} {cs ds : List Bus.Command}

/-- What neither the bus nor the rest of the inbox sees may change. -/
theorem of_inbox (w : Worker σ) (state : SessionState) (holdTime : UInt16) (engine : σ) (now : Time)
    (stop : StopSignal) {inbox : List WorkerEvent}
    (h : inbox.filterMap WorkerEvent.route? = w.routes) :
    Gives w [] { w with state, holdTime, engine, now, stop, inbox } := by
  refine ⟨rfl, rfl, rfl, rfl, rfl, rfl, rfl, h, (List.append_nil _).symm, [], rfl, ?_, rfl⟩
  intro e he
  cases he

theorem refl (w : Worker σ) : Gives w [] w := of_inbox w _ _ _ _ _ rfl

theorem trans (h : Gives w cs u) (h' : Gives u ds v) : Gives w (cs ++ ds) v := by
  obtain ⟨es, hes, ho, hc⟩ := h.effects
  obtain ⟨fs, hfs, ho', hc'⟩ := h'.effects
  refine ⟨h'.config.trans h.config, h'.peer.trans h.peer, h'.index.trans h.index,
    h'.epoch.trans h.epoch, h'.active.trans h.active, h'.rtc.trans h.rtc,
    h'.connection.trans h.connection, h'.routes.trans h.routes, ?_, fs ++ es, ?_, ?_, ?_⟩
  · rw [h'.outbox, h.outbox, List.append_assoc]
  · rw [hfs, hes, List.append_assoc]
  · intro e he
    rcases List.mem_append.1 he with he | he
    · exact ho' e he
    · exact ho e he
  · rw [List.reverse_append, List.filterMap_append, hc, hc']

/-- Nothing more is asked for. -/
theorem quiet (h : Gives w cs u) (h' : Gives u [] v) : Gives w cs v := by
  simpa using h.trans h'

theorem id (h : Gives w cs u) : u.id = w.id := by rw [Worker.id, Worker.id, h.peer]

theorem address (h : Gives w cs u) : u.address = w.address := by
  rw [Worker.address, Worker.address, h.index, h.epoch]

theorem calls (h : Gives w cs u) : u.calls = w.calls ++ cs := by
  obtain ⟨es, hes, -, hc⟩ := h.effects
  rw [Worker.calls, Worker.calls, hes, List.reverse_append, List.filterMap_append, hc]

theorem calls_eq (h : Gives w [] u) : u.calls = w.calls := h.calls.trans (List.append_nil _)

theorem outbox_eq (h : Gives w [] u) : u.outbox = w.outbox := h.outbox.trans (List.append_nil _)

/-- The session goes on, by effects that hold the commands. -/
theorem session (h : Gives w cs u) :
    ∃ es, u.session = es ++ w.session ∧ ∀ c ∈ cs, .called c ∈ es := by
  obtain ⟨es, hes, ho, hc⟩ := h.effects
  refine ⟨es.map Prod.snd, ?_, fun c h => ?_⟩
  · rw [Worker.session, Worker.session, hes, List.map_append, List.takeWhile_append_of_pos]
    intro e he
    obtain ⟨x, hx, rfl⟩ := List.mem_map.1 he
    rw [ho x hx]
    rfl
  · rw [← hc, List.mem_filterMap] at h
    obtain ⟨x, hx, hxc⟩ := h
    refine List.mem_map.2 ⟨x, List.mem_reverse.1 hx, ?_⟩
    cases he : x.2 <;> simp [he, Effect.command?] at hxc
    rw [hxc]

theorem mem_session (h : Gives w cs u) {e : Effect} (he : e ∈ w.session) : e ∈ u.session := by
  obtain ⟨es, hes, -⟩ := h.session
  exact hes ▸ List.mem_append_right es he

theorem called_mem_session (h : Gives w cs u) {c : Bus.Command} (hc : c ∈ cs) :
    .called c ∈ u.session := by
  obtain ⟨es, hes, hcs⟩ := h.session
  exact hes ▸ List.mem_append_left _ (hcs c hc)

theorem constraintCalls (h : Gives w cs u) (kind : Route.Kind) (target : Option RouteTarget) :
    u.constraintCalls kind target = w.constraintCalls kind target := by
  have hone : u.constraintCall kind target = w.constraintCall kind target := by
    funext f
    simp only [Worker.constraintCall, h.id, h.address]
  simp only [Worker.constraintCalls, Worker.steered, h.active, hone]

theorem routeCalls (h : Gives w cs u) (kind : Route.Kind) (route : Route) :
    u.routeCalls kind route = w.routeCalls kind route := by
  simp only [Worker.routeCalls, h.id, h.constraintCalls]

theorem updateCalls (h : Gives w cs u) (x : Update) : u.updateCalls x = w.updateCalls x := by
  simp only [Worker.updateCalls, h.routeCalls]

/-- The families of the session do not matter. -/
theorem agree (h : Gives w cs u) (fs : List Family) : Gives (w.agree fs) cs (u.agree fs) :=
  ⟨h.config, h.peer, h.index, h.epoch, by simp only [Worker.agree, h.config],
    by simp only [Worker.agree, h.config], h.connection, h.routes, h.outbox, h.effects⟩

/-- One thing after another is done, where what each gives depends on the worker
    only by what commands leave alone. -/
theorem foldl {α : Type} {f : Worker σ → α → Worker σ} {g : α → List Bus.Command}
    (h : ∀ {cs u}, Gives w cs u → ∀ x, Gives u (g x) (f u x)) (xs : List α) :
    Gives w (xs.flatMap g) (xs.foldl f w) := by
  suffices hall : ∀ (xs : List α) cs u, Gives w cs u → Gives u (xs.flatMap g) (xs.foldl f u) from
    hall xs [] w (refl w)
  intro xs
  induction xs with
  | nil => exact fun _ u _ => refl u
  | cons x xs ih =>
    intro cs u hu
    exact (h hu x).trans (ih _ _ (hu.trans (h hu x)))

theorem foldl_quiet {α : Type} {f : Worker σ → α → Worker σ}
    (h : ∀ {cs u}, Gives w cs u → ∀ x, Gives u [] (f u x)) (xs : List α) :
    Gives w [] (xs.foldl f w) := by
  have := Gives.foldl (g := fun _ => []) h xs
  rwa [List.flatMap_eq_nil_iff.2 fun _ _ => rfl] at this

end Gives

/-! ## Single effects -/

section
variable (w : Worker σ)

theorem gives_surroundings (state : SessionState) (holdTime : UInt16) (engine : σ) (now : Time)
    (stop : StopSignal) : Gives w [] { w with state, holdTime, engine, now, stop } :=
  .of_inbox w _ _ _ _ _ rfl

theorem gives_within (s : Surroundings σ) : Gives w [] (w.within s) :=
  w.gives_surroundings _ _ _ _ _

theorem gives_emit {e : Effect} (hc : e.command? = none) (ho : e.opens = false) :
    Gives w [] (w.emit e) := by
  refine ⟨rfl, rfl, rfl, rfl, rfl, rfl, rfl, rfl, (List.append_nil _).symm, [(w.now, e)], rfl,
    ?_, ?_⟩
  · intro x hx
    rw [List.mem_singleton.1 hx]
    exact ho
  · simp [hc]

theorem gives_log (level : Level) (text : String) : Gives w [] (w.log level text) :=
  w.gives_emit rfl rfl

theorem gives_count (m : Metric) : Gives w [] (w.count m) := w.gives_emit rfl rfl

theorem gives_call (c : Bus.Command) : Gives w [c] (w.call c) := by
  refine ⟨rfl, rfl, rfl, rfl, rfl, rfl, rfl, rfl, rfl, [(w.now, .called c)], rfl, ?_, rfl⟩
  intro x hx
  rw [List.mem_singleton.1 hx]
  rfl

theorem gives_enter (s : SessionState) : Gives w [] (w.enter s) :=
  (w.gives_surroundings s _ _ _ _).quiet (gives_count _ _)

theorem gives_enqueue {e : WorkerEvent} (he : e.route? = none) : Gives w [] (w.enqueue e) := by
  refine .of_inbox w _ _ _ _ _ ?_
  simp [routes, List.filterMap_append, he]

theorem gives_closeConnection [Engine σ] :
    Gives { w with connection := none } [] w.closeConnection := by
  unfold closeConnection
  split
  · next hw =>
    rw [← hw]
    exact .refl w
  · exact (gives_surroundings _ _ _ _ _ _).quiet (gives_emit _ rfl rfl)

end

/-! ## The attempt -/

section
variable (w : Worker σ)

theorem gives_negotiateFamilies (fs : List Family) :
    Gives (w.agree fs) [] (w.negotiateFamilies fs) := by
  -- after the warnings the families are set
  have hset (v : Worker σ) (hv : Gives w [] v) : Gives (w.agree fs) []
      ({ v with
        rtcActive := v.config.rtcEnabled && (w.agree fs).activeFamilies.contains .ipv4Rtc
        activeFamilies := (w.agree fs).activeFamilies } : Worker σ) :=
    ⟨hv.config, hv.peer, hv.index, hv.epoch, rfl, by simp only [hv.config]; rfl,
      hv.connection, hv.routes, hv.outbox, hv.effects⟩
  have hwarn : Gives w [] ((w.config.offered.filter fun f => !fs.contains f).foldl
      (fun w f => w.log .warn ("Peer does not support family " ++ f.text)) w) :=
    Gives.foldl_quiet (fun {_ u} _ f => u.gives_log _ _) _
  unfold negotiateFamilies
  simp only
  split
  · exact (hset _ (hwarn.quiet (gives_log _ _ _))).quiet (gives_log _ _ _)
  · exact (hset _ hwarn).quiet (gives_log _ _ _)

theorem gives_failAttempt (e : EngineError) : Gives w [] (w.failAttempt e).1 := by
  unfold failAttempt
  split
  · exact w.gives_log _ _
  · exact .refl w

theorem failAttempt_snd_ne (e : EngineError) : (w.failAttempt e).2 ≠ .ended (.ok ()) := by
  unfold failAttempt
  split
  · simp
  · simp

variable [Engine σ]

/-- An attempt that is completed agrees on the families with the peer, or fails. -/
theorem completeAttempt_cases :
    (∃ n, w.completeAttempt.2 = .ended (.ok ()) ∧
      Engine.negotiated w.completeAttempt.1.engine = some n ∧
      Gives (w.agree n.peerFamilies) [] w.completeAttempt.1) ∨
    (∃ e, w.completeAttempt = (w, .ended (.error e))) := by
  unfold completeAttempt
  cases hn : Engine.negotiated w.engine with
  | none => exact Or.inr ⟨_, rfl⟩
  | some n =>
    refine Or.inl ⟨n, rfl, ?_, ?_⟩
    · rw [engine_negotiateFamilies]
      exact hn
    · exact ((w.gives_surroundings _ n.holdTime _ _ _).agree _).quiet
        (gives_negotiateFamilies _ _)

/-- A move of an attempt that is not over agrees on the families, or keeps those
    of the worker and does not succeed. -/
theorem attemptStep_cases {a : Attempt} (ha : ∀ r, a ≠ .ended r) :
    (∃ n, (w.attemptStep a).2 = .ended (.ok ()) ∧
      Engine.negotiated (w.attemptStep a).1.engine = some n ∧
      Gives (w.agree n.peerFamilies) [] (w.attemptStep a).1) ∨
    ((w.attemptStep a).2 ≠ .ended (.ok ()) ∧ Gives w [] (w.attemptStep a).1) := by
  cases a with
  | asking =>
    rcases hstep : Engine.establishStep w.engine with ⟨r, s⟩
    simp only [attemptStep, hstep]
    have hs : Gives w [] { w with engine := s } := w.gives_surroundings _ _ s _ _
    cases r with
    | error e => exact Or.inr ⟨failAttempt_snd_ne _ e, hs.quiet (gives_failAttempt _ e)⟩
    | ok step =>
      cases step with
      | none =>
        simp only
        rcases completeAttempt_cases { w with engine := s } with ⟨n, hr, hn, h⟩ | ⟨e, he⟩
        · exact Or.inl ⟨n, hr, hn, (hs.agree _).quiet h⟩
        · rw [he]
          exact Or.inr ⟨by simp, hs⟩
      | some step => exact Or.inr ⟨by simp, hs.quiet (gives_enter _ _)⟩
  | backingOff t closed =>
    right
    simp only [attemptStep]
    split
    · exact ⟨by simp, .refl w⟩
    · split
      · exact ⟨by simp, .refl w⟩
      · exact ⟨by simp, .refl w⟩
  | ended r => exact absurd rfl (ha r)

end

/-! ## A session -/

section
variable (w : Worker σ)

theorem gives_toEstablished : Gives w w.firstCalls w.toEstablished := by
  have hw : Gives w [] (w.enter .established) := w.gives_enter _
  have hone (u : Worker σ) {cs : List Bus.Command} (hu : Gives w cs u) (f : Family) :
      Gives u [.subscribe w.id w.address ⟨f, none⟩] (u.subscribe f none) := by
    rw [← hu.id, ← hu.address]
    exact gives_call u _
  unfold toEstablished firstCalls
  simp only [hw.rtc, hw.active]
  split
  · exact hw.trans (hone _ hw _)
  · rw [List.map_eq_flatMap]
    exact hw.trans (Gives.foldl (fun hu f => hone _ (hw.trans hu) f) w.activeFamilies)

theorem gives_applyConstraint (kind : Route.Kind) (target : Option RouteTarget) :
    Gives w (w.constraintCalls kind target) (w.applyConstraint kind target) := by
  unfold applyConstraint constraintCalls
  rw [List.map_eq_flatMap]
  refine Gives.trans (gives_log w _ _) (Gives.foldl (fun {_ u} hu f => ?_) _)
  have hw := (gives_log w _ _).trans hu
  cases kind with
  | advertise =>
    simp only [constraintCall, subscribe, hw.id, hw.address]
    exact (gives_call u _).quiet (gives_count _ _)
  | withdraw =>
    simp only [constraintCall, hw.id]
    exact (gives_call u _).quiet (gives_count _ _)

theorem gives_publish (kind : Route.Kind) (route : Route) :
    Gives w (w.routeCalls kind route) (w.publish kind route) := by
  have hcount := w.gives_count (.route w.id route.family.text kind.name)
  have hdone (c : Bus.Command) {v : Worker σ} (hv : Gives w [c] v) :
      Gives w (c :: if route.family.isRtc then w.constraintCalls kind route.nlri.target else [])
        (if route.family.isRtc then v.applyConstraint kind route.nlri.target else v) := by
    split
    · rw [← hv.constraintCalls]
      exact hv.trans (gives_applyConstraint v kind route.nlri.target)
    · exact hv
  cases kind with
  | advertise => exact hdone _ (hcount.trans (gives_call _ _))
  | withdraw => exact hdone _ (hcount.trans (gives_call _ _))

theorem gives_publishUpdate (u : Update) : Gives w (w.updateCalls u) (w.publishUpdate u).2 := by
  unfold publishUpdate updateCalls
  cases kinds? u.nlris with
  | none => exact .refl w
  | some ks =>
    refine Gives.foldl (fun {_ v} hv x => ?_) ks
    rw [← hv.routeCalls]
    exact gives_publish v _ _

/-- Handling a message gives the commands of an UPDATE, or none. -/
theorem handle_cases (m : Message) :
    Gives w [] (w.handle m).2 ∨
      ∃ u, m = .update u ∧ (w.handle m).1 = .ok .again ∧
        Gives w (w.updateCalls u) (w.handle m).2 := by
  have hcount : Gives w [] (if m = .nop then w else w.count (.received w.id m.name)) := by
    split
    · exact .refl w
    · exact w.gives_count _
  unfold handle
  simp only
  generalize (if m = .nop then w else w.count (.received w.id m.name)) = v at hcount ⊢
  cases m with
  | nop => exact Or.inl hcount
  | keepalive => exact Or.inl (hcount.quiet (gives_enqueue v rfl))
  | update u =>
    simp only
    split
    · rcases hp : v.publishUpdate u with ⟨r, v'⟩
      have hv' : Gives w (w.updateCalls u) v' := by
        have := hcount.trans (gives_publishUpdate v u)
        rwa [hp, hcount.updateCalls] at this
      cases r with
      | ok => exact Or.inr ⟨u, rfl, rfl, hv'.quiet (gives_enqueue v' rfl)⟩
      | error e =>
        left
        unfold publishUpdate at hp
        split at hp
        · cases hp
          exact hcount
        · cases hp
    · exact Or.inl hcount
  | opening o => exact Or.inl (hcount.quiet (gives_log v _ _))
  | notification n => exact Or.inl (hcount.quiet (gives_log v _ _))
  | routeRefresh f => exact Or.inl (hcount.quiet (gives_log v _ _))

theorem gives_handleFailure (e : EngineError) : Gives w [] (w.handleFailure e).2 := by
  unfold handleFailure
  split <;> exact w.gives_log _ _

variable [Engine σ]

/-- What is read is in the session; of it only an UPDATE gives commands. -/
theorem readMessage_cases :
    Gives w [] w.readMessage.2 ∨
      ∃ u, w.readMessage.1 = .ok .again ∧ Gives w (w.updateCalls u) w.readMessage.2 ∧
        .read (.ok (.update u)) ∈ w.readMessage.2.session := by
  unfold readMessage
  split
  · rcases Engine.read w.engine with ⟨r, s⟩
    have hread : Gives w [] (({ w with engine := s } : Worker σ).emit (.read r)) :=
      (w.gives_surroundings _ _ s _ _).quiet (gives_emit _ rfl rfl)
    have hmem : .read r ∈ (({ w with engine := s } : Worker σ).emit (.read r)).session :=
      List.mem_cons_self
    cases r with
    | error e => exact Or.inl (hread.quiet (gives_handleFailure _ e))
    | ok m =>
      simp only
      rcases handle_cases (({ w with engine := s } : Worker σ).emit (.read (.ok m))) m with
        h | ⟨u, rfl, hr, h⟩
      · exact Or.inl (hread.quiet h)
      · have hgives := hread.trans h
        rw [hread.updateCalls] at hgives
        exact Or.inr ⟨u, hr, hgives, h.mem_session hmem⟩
  · exact Or.inl (.refl w)

theorem gives_send (data : Octets) : Gives w [] (w.send data) := by
  unfold send
  split
  · exact ((w.gives_emit rfl rfl).quiet (gives_log _ _ _)).quiet (gives_count _ _)
  · rcases Engine.write data w.engine with ⟨r, s⟩
    have hs := w.gives_surroundings w.state w.holdTime s w.now w.stop
    cases r with
    | ok => exact (hs.quiet (gives_emit _ rfl rfl)).quiet (gives_count _ _)
    | error e =>
      exact ((hs.quiet (gives_emit _ rfl rfl)).quiet (gives_log _ _ _)).quiet (gives_count _ _)

theorem gives_encodeEvent (e : Route.Event) : Gives w [] (w.encodeEvent e).2 := by
  have hfail (text : String) : Gives w [] (w.encodeFailed e text).2 :=
    ((w.gives_log _ _).quiet (gives_count _ _)).quiet (gives_emit _ rfl rfl)
  unfold encodeEvent
  split
  · exact hfail _
  · split
    · exact w.gives_emit rfl rfl
    · exact hfail _

/-- A route event is encoded, and sent if it could be. -/
theorem forward_eq (e : Route.Event) : w.forward e =
    if (w.encodeEvent e).1 = [] then (w.encodeEvent e).2
    else (w.encodeEvent e).2.send (w.encodeEvent e).1 := by
  unfold forward
  rcases w.encodeEvent e with ⟨data, v⟩
  cases data with
  | nil => rfl
  | cons b bs => rfl

theorem gives_forward (e : Route.Event) : Gives w [] (w.forward e) := by
  rw [forward_eq]
  split
  · exact w.gives_encodeEvent e
  · exact (w.gives_encodeEvent e).quiet (gives_send _ _)

end

/-! ## From one session to the next -/

section
variable (w : Worker σ) [Engine σ]

/-- An attempt begins without families, and opens a connection. -/
theorem beginAttempt_cases :
    ∃ u, Gives { w with activeFamilies := [], rtcActive := false, connection := none } [] u ∧
      w.beginAttempt = u.openConnection := by
  exact ⟨_, gives_closeConnection ({ w with activeFamilies := [], rtcActive := false } : Worker σ),
    rfl⟩

/-- A clean-up is the last command of a session; then the inbox is a new one. -/
theorem stopAndClean_cases :
    ∃ u, Gives { w with activeFamilies := [], rtcActive := false, connection := none }
        [.cleanup w.id] u ∧
      w.stopAndClean = { u with inbox := [], epoch := u.epoch + 1 } := by
  have hcall {v u : Worker σ} (h : Gives v [] u) :
      Gives v [.cleanup v.id] (u.call (.cleanup u.id)) := by
    rw [← h.id]
    exact h.trans (gives_call u _)
  have hidle :=
    gives_enter { w with activeFamilies := [], rtcActive := false, connection := none } .idle
  have hclosed := gives_closeConnection
    (({ w with activeFamilies := [], rtcActive := false } : Worker σ).enter .idle)
  exact ⟨_, hcall (hidle.quiet hclosed), rfl⟩

end

/-- What is left of a worker when a connection is opened: all but the families. -/
structure Opened (w w' : Worker σ) : Prop where
  id : w'.id = w.id
  index : w'.index = w.index
  epoch : w'.epoch = w.epoch
  calls : w'.calls = w.calls
  outbox : w'.outbox = w.outbox
  routes : w'.routes = w.routes
  rtc : w'.rtcActive = false

/-- What a clean-up leaves of a worker: its name and place, and a new inbox. -/
structure Cleaned (w w' : Worker σ) : Prop where
  id : w'.id = w.id
  index : w'.index = w.index
  epoch : w'.epoch = w.epoch + 1
  calls : w'.calls = w.calls ++ [.cleanup w.id]
  outbox : w'.outbox = w.outbox ++ [.cleanup w.id]
  routes : w'.routes = []
  rtc : w'.rtcActive = false

theorem Gives.opened [Engine σ] {w u : Worker σ}
    (h : Gives { w with activeFamilies := [], rtcActive := false, connection := none } [] u) :
    Opened w u.openConnection := by
  have hopen : u.openConnection.calls = u.calls := by
    simp [Worker.calls, openConnection, emit, Effect.command?]
  exact ⟨h.id, h.index, h.epoch, hopen.trans h.calls_eq, h.outbox_eq, h.routes, h.rtc⟩

theorem Gives.cleaned [Engine σ] {w u w' : Worker σ} (hg : Gives w [] u)
    (hw : Gives u.stopAndClean [] w') : Cleaned w w' := by
  obtain ⟨v, hv, hclean⟩ := u.stopAndClean_cases
  rw [hclean] at hw
  refine ⟨hw.id.trans (hv.id.trans hg.id), hw.index.trans (hv.index.trans hg.index),
    hw.epoch.trans (congrArg (· + 1) (hv.epoch.trans hg.epoch)), ?_, ?_, hw.routes,
    hw.rtc.trans hv.rtc⟩
  · rw [← hg.id, ← hg.calls_eq]
    exact hw.calls_eq.trans hv.calls
  · rw [← hg.id, ← hg.outbox_eq]
    exact hw.outbox_eq.trans hv.outbox

end Worker

end RouteExchange
