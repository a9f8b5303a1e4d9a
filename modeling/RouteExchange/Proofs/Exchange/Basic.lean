/-
  Workers on one bus, in any interleaving.

  An `Exchange` is some number of running workers, the bus, the commands that it
  has not yet carried out and the deliveries that have not yet arrived.  Commands
  and deliveries stay in order, and everything else may happen in any: a worker
  makes its next move at any time, in any surroundings, and what it asks for or is
  told may take as long as it likes.  Besides, an exchange keeps a record of the
  deliveries that were ever made, and of the interests each was made for.
-/
import Mathlib.Logic.Function.Basic
import RouteExchange.Proofs.Worker.Sound

namespace RouteExchange

/-- A delivery, and the interests it was made for. -/
structure Made where
  delivery : Bus.Delivery
  interests : List Subscription
deriving DecidableEq, Repr

/-- Workers that run on one bus. -/
structure Exchange (σ : Type) (n : Nat) where
  runners : Fin n → Runner σ
  /-- The commands that the bus has not yet carried out, in order. -/
  channel : List Bus.Command := []
  bus : Bus := {}
  /-- The deliveries that have not yet arrived, in order. -/
  flight : List Bus.Delivery := []
  /-- The deliveries that were made so far, in order. -/
  made : List Made := []

namespace Worker

variable {σ : Type}

/-- A delivery arrives, in the inbox it is for. -/
def receive (w : Worker σ) (d : Bus.Delivery) : Worker σ :=
  match d.inbox with
  | .worker index epoch => if index = w.index then w.deliver epoch (.route d.event) else w
  | .listener _ => w

theorem receive_eq (w : Worker σ) (d : Bus.Delivery) :
    w.receive d = if d.inbox = w.address then w.enqueue (.route d.event) else w := by
  unfold receive address deliver
  cases d.inbox with
  | listener name => rw [if_neg (by simp)]
  | worker index epoch =>
    by_cases hi : index = w.index
    · by_cases he : epoch = w.epoch
      · simp [hi, he]
      · simp [hi, he]
    · simp [hi]

theorem calls_receive (w : Worker σ) (d : Bus.Delivery) : (w.receive d).calls = w.calls := by
  rw [receive_eq]
  split
  · rfl
  · rfl

end Worker

namespace Exchange

variable {σ : Type} {n : Nat}

/-- Something that happens in an exchange. -/
inductive Move (σ : Type) (n : Nat) where
  /-- A worker makes its next move. -/
  | work (i : Fin n)
  /-- The surroundings of a worker change. -/
  | surround (i : Fin n) (s : Surroundings σ)
  /-- The first command a worker gave is sent to the bus. -/
  | send (i : Fin n)
  /-- The bus carries out the first command. -/
  | act
  /-- The first delivery arrives. -/
  | arrive

/-- Fresh workers that begin to run. -/
def start (configs : Fin n → Config) (peers : Fin n → Ip) (engines : Fin n → σ) : Exchange σ n :=
  { runners := fun i => .start (.new (configs i) (peers i) (engines i) i) }

/-- Another runner takes the place of one. -/
def replace (x : Exchange σ n) (i : Fin n) (r : Runner σ) : Exchange σ n :=
  { x with runners := Function.update x.runners i r }

theorem runners_replace_self (x : Exchange σ n) (i : Fin n) (r : Runner σ) :
    (x.replace i r).runners i = r := by
  simp only [replace, Function.update_self]

theorem runners_replace_of_ne (x : Exchange σ n) {i j : Fin n} (h : j ≠ i) (r : Runner σ) :
    (x.replace i r).runners j = x.runners j := by
  simp only [replace, Function.update_of_ne h]

/-- The bus carries out a command. -/
def carryOut (x : Exchange σ n) (c : Bus.Command) : Exchange σ n :=
  { x with
    bus := (x.bus.step c).1
    flight := x.flight ++ (x.bus.step c).2
    made := x.made ++ (x.bus.step c).2.map fun d => ⟨d, x.bus.reasons c d⟩ }

variable [Engine σ]

/-- The exchange after something happened; what cannot happen changes nothing. -/
def step (x : Exchange σ n) : Move σ n → Exchange σ n
  | .work i => x.replace i (x.runners i).step
  | .surround i s => x.replace i ⟨(x.runners i).worker.within s, (x.runners i).phase⟩
  | .send i =>
    match (x.runners i).worker.outbox with
    | [] => x
    | c :: cs =>
      { x.replace i ⟨{ (x.runners i).worker with outbox := cs }, (x.runners i).phase⟩ with
        channel := x.channel ++ [c] }
  | .act =>
    match x.channel with
    | [] => x
    | c :: cs => { x with channel := cs }.carryOut c
  | .arrive =>
    match x.flight with
    | [] => x
    | d :: ds =>
      { x with
        flight := ds
        runners := fun i => ⟨(x.runners i).worker.receive d, (x.runners i).phase⟩ }

/-- The exchange after some moves. -/
def run (x : Exchange σ n) (ms : List (Move σ n)) : Exchange σ n := ms.foldl step x

end Exchange

end RouteExchange
