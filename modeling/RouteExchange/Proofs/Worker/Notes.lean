/-
  What the receipt of a message leaves alone.

  Publishing changes nothing of a worker but what it asked of the bus and did
  (`Worker.Notes`).  So the receipt of a message changes besides the engine only the
  inbox, to which it adds `Worker.queued?` at most (`readMessage_snd`).
-/
import RouteExchange.Worker.Attempt
import RouteExchange.Worker.Receive

namespace RouteExchange.Worker

variable {σ : Type}

/-! ## Publishing -/

/-- The worker asks the bus for something and does what can be seen; nothing else of it
    changes. -/
def Notes (w v : Worker σ) : Prop := ∃ outbox history, v = { w with outbox, history }

theorem Notes.refl (w : Worker σ) : Notes w w := ⟨_, _, rfl⟩

theorem Notes.trans {w v u : Worker σ} (h : Notes w v) (h' : Notes v u) : Notes w u := by
  obtain ⟨_, _, rfl⟩ := h
  obtain ⟨_, _, rfl⟩ := h'
  exact ⟨_, _, rfl⟩

theorem Notes.state {w v : Worker σ} (h : Notes w v) : v.state = w.state := by
  obtain ⟨_, _, rfl⟩ := h
  rfl

theorem Notes.foldl {α : Type} {f : Worker σ → α → Worker σ} (h : ∀ u x, Notes u (f u x))
    (xs : List α) (w : Worker σ) : Notes w (xs.foldl f w) := by
  induction xs generalizing w with
  | nil => exact .refl w
  | cons x xs ih => exact (h w x).trans (ih (f w x))

section
variable (w : Worker σ)

theorem notes_emit (e : Effect) : Notes w (w.emit e) := ⟨_, _, rfl⟩

theorem notes_call (c : Bus.Command) : Notes w (w.call c) := ⟨_, _, rfl⟩

theorem notes_applyConstraint (kind : Route.Kind) (target : Option RouteTarget) :
    Notes w (w.applyConstraint kind target) := by
  unfold applyConstraint
  refine (w.notes_emit _).trans (Notes.foldl (fun u f => ?_) _ _)
  cases kind with
  | advertise => exact (u.notes_call _).trans (notes_emit _ _)
  | withdraw => exact (u.notes_call _).trans (notes_emit _ _)

theorem notes_publish (kind : Route.Kind) (route : Route) : Notes w (w.publish kind route) := by
  have hcall (c : Bus.Command) :
      Notes w ((w.count (.route w.id route.family.text kind.name)).call c) :=
    (w.notes_emit _).trans (notes_call _ c)
  unfold publish
  simp only
  split
  · exact (hcall _).trans (notes_applyConstraint _ _ _)
  · exact hcall _

theorem notes_publishUpdate (u : Update) : Notes w (w.publishUpdate u).2 := by
  unfold publishUpdate
  split
  · exact .refl w
  · exact Notes.foldl
      (fun (v : Worker σ) (x : Route.Kind × Nlri) => v.notes_publish x.1 ⟨x.2, u.attributes⟩) _ w

end

theorem toEstablished_eq (w : Worker σ) : ∃ outbox history,
    w.toEstablished = { w with state := .established, outbox, history } := by
  have hentered : Notes { w with state := .established } (w.enter .established) := ⟨_, _, rfl⟩
  unfold toEstablished
  simp only
  split
  · exact hentered.trans (notes_call _ _)
  · exact hentered.trans (Notes.foldl (fun u f => u.notes_call _) _ _)

/-! ## Handling a message -/

/-- The event that is queued for what is read. -/
def queued? (w : Worker σ) : Except EngineError Message → Option WorkerEvent
  | .ok .keepalive => some .keepalive
  | .ok (.update u) =>
    if w.state = .established ∧ (kinds? u.nlris).isSome then some .update else none
  | _ => none

theorem handle_snd (w : Worker σ) (m : Message) : ∃ outbox history, (w.handle m).2 =
    { w with inbox := w.inbox ++ (w.queued? (.ok m)).toList, outbox, history } := by
  have hcount : Notes w (if m = .nop then w else w.count (.received w.id m.name)) := by
    split
    · exact .refl w
    · exact w.notes_emit _
  -- what is noted does not matter to what is queued
  have hnoted {v : Worker σ} (h : Notes w v) {e : Option WorkerEvent}
      (he : w.queued? (.ok m) = e) : ∃ outbox history,
      ({ v with inbox := v.inbox ++ e.toList } : Worker σ) =
        { w with inbox := w.inbox ++ (w.queued? (.ok m)).toList, outbox, history } := by
    obtain ⟨outbox, history, rfl⟩ := h
    rw [he]
    exact ⟨outbox, history, rfl⟩
  have hsilent {v : Worker σ} (h : Notes w v) (he : w.queued? (.ok m) = none) :
      ∃ outbox history, v =
        { w with inbox := w.inbox ++ (w.queued? (.ok m)).toList, outbox, history } := by
    obtain ⟨outbox, history, hv⟩ := hnoted h he
    rw [Option.toList_none, List.append_nil] at hv
    exact ⟨outbox, history, hv⟩
  unfold handle
  simp only
  generalize (if m = .nop then w else w.count (.received w.id m.name)) = v at hcount ⊢
  cases m with
  | nop => exact hsilent hcount rfl
  | keepalive => exact hnoted hcount rfl
  | update u =>
    have hstate : v.state = w.state := by
      obtain ⟨_, _, rfl⟩ := hcount
      rfl
    simp only [hstate]
    split
    · next hw =>
      have hpublished := hcount.trans (v.notes_publishUpdate u)
      unfold publishUpdate at hpublished ⊢
      cases hk : kinds? u.nlris with
      | none => exact hsilent hcount (by simp [Worker.queued?, hk])
      | some ks =>
        rw [hk] at hpublished
        have he : w.queued? (.ok (.update u)) = some .update := by simp [Worker.queued?, hw, hk]
        exact hnoted hpublished he
    · next hw => exact hsilent hcount (by simp [Worker.queued?, hw])
  | opening o => exact hsilent (hcount.trans (notes_emit _ _)) rfl
  | notification n => exact hsilent (hcount.trans (notes_emit _ _)) rfl
  | routeRefresh f => exact hsilent (hcount.trans (notes_emit _ _)) rfl

theorem notes_handleFailure (w : Worker σ) (e : EngineError) : Notes w (w.handleFailure e).2 := by
  cases e <;> exact w.notes_emit _

/-! ## Receiving -/

variable [Engine σ]

/-- Where there is a connection, one message is taken from the engine, and the event for
    it is queued. -/
theorem readMessage_snd {w : Worker σ} (hw : Engine.isConnected w.engine = true) :
    ∃ outbox history, w.readMessage.2 =
      { w with
        engine := (Engine.read w.engine).2
        inbox := w.inbox ++ (w.queued? (Engine.read w.engine).1).toList
        outbox
        history } := by
  unfold readMessage
  rw [if_pos hw]
  rcases Engine.read w.engine with ⟨r, s⟩
  cases r with
  | ok m =>
    obtain ⟨outbox, history, h⟩ :=
      handle_snd (({ w with engine := s } : Worker σ).emit (.read (.ok m))) m
    exact ⟨outbox, history, h⟩
  | error e =>
    obtain ⟨outbox, history, h⟩ :=
      notes_handleFailure (({ w with engine := s } : Worker σ).emit (.read (.error e))) e
    refine ⟨outbox, history, h.trans ?_⟩
    simp [emit, Worker.queued?]

theorem readMessage_of_disconnected {w : Worker σ} (hw : Engine.isConnected w.engine = false) :
    w.readMessage = (.error (.lostConnection "connection closed"), w) := by
  unfold readMessage
  rw [if_neg (by simp [hw])]

end RouteExchange.Worker
