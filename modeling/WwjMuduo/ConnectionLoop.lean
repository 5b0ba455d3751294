import WwjMuduo.EventLoop.Turns
import WwjMuduo.TcpConnection.Send

set_option autoImplicit false

/-! # A loop and a connection of it

Any thread calls `send` and `shutdown` on an established connection. Both look at `state_` first and
then go to the loop, `shutdown` after a change of `state_`; another thread can get between. On the
loop thread `sendInLoop` and `shutdownInLoop` run at once, on others they are pushed behind what waits
in `pendingFunctors_`. Among its handlers the loop thread runs `handleWrite`. The loop is that of
`EventLoop.lean`, what is done to the connection that of `TcpConnection.lean`; each `::write` has an
outcome, that of the event.

A message is told from others by the number of its `send` call. -/

namespace WwjMuduo

/-- A message and the number of the `send` call that was given it. -/
structure Message where
  number : ℕ
  bytes : List UInt8
  deriving DecidableEq

/-- A functor: one that a connection binds, or another. -/
inductive ConnFunctor where
  | sendInLoop (message : Message)
  | shutdownInLoop
  | other
  deriving DecidableEq

/-- Where a thread is in a call on the connection. -/
inductive Calling where
  | no
  /-- in `send`, behind `state_ == kConnected` -/
  | sending (message : Message)
  /-- in the `runInLoop` of `send`, or behind it -/
  | submitted (message : Message)
  /-- in `shutdown`, behind `state_ == kConnected` -/
  | disconnecting
  /-- in `shutdown`, behind `setState(kDisconnecting)` -/
  | shutting
  deriving DecidableEq

structure ConnectionLoop (τ : Type*) where
  loop : Loop ConnFunctor τ
  conn : TcpConnection
  calling : Option τ → Calling
  /-- How many `send` calls have found `state_ == kConnected`. -/
  numbers : ℕ
  /-- The messages of those that have returned. -/
  returned : List Message
  /-- The messages of those that had returned when `shutdown` was last called on the connected
      connection. -/
  promised : List Message
  /-- The messages that `sendInLoop` has been called with, in order. -/
  sent : List Message

inductive ConnectionEvent (τ : Type*) where
  | send (t : Option τ) (bytes : List UInt8)
  | submit (t : Option τ) (outcome : WriteOutcome)
  | sendReturned (t : Option τ)
  | shutdown (t : Option τ)
  | setState (t : Option τ)
  | submitShutdown (t : Option τ)
  | call (outcome : WriteOutcome)
  | on (e : LoopEvent ConnFunctor τ)
  | handleWrite (outcome : WriteOutcome)

namespace ConnectionLoop

variable {τ : Type*}

/-- A connection just established, over whatever its constructor found in memory. -/
def established (memory : Uninitialised) (loop : ℕ) (name : String) (sockfd : ℤ)
    (localAddr peerAddr : InetAddress) : ConnectionLoop τ :=
  { loop := .new
    conn := (TcpConnection.new memory loop name sockfd localAddr peerAddr).connectEstablished
    calling := fun _ => .no
    numbers := 0
    returned := []
    promised := []
    sent := [] }

/-- The thread can make a call. -/
def Free (s : ConnectionLoop τ) (t : Option τ) : Prop := s.calling t = .no ∧ s.loop.Free t

/-- The step of the loop calls no functor, and is not made in the middle of a call. -/
def Admits (s : ConnectionLoop τ) : LoopEvent ConnFunctor τ → Prop
  | .call => False
  | .queueInLoop t f => f = .other ∧ s.Free t
  | .runInLoop t f => f = .other ∧ s.Free t
  | .quit t => s.Free t
  | .finish _ => True
  | _ => s.calling none = .no

variable [DecidableEq τ]

instance (s : ConnectionLoop τ) (t : Option τ) : Decidable (s.Free t) :=
  inferInstanceAs (Decidable (_ ∧ _))

instance (s : ConnectionLoop τ) (e : LoopEvent ConnFunctor τ) : Decidable (s.Admits e) := by
  cases e <;> unfold Admits <;> infer_instance

/-- What can happen next. -/
def Enabled (s : ConnectionLoop τ) : ConnectionEvent τ → Prop
  | .send t _ => s.Free t
  | .submit t _ => s.loop.Free t
  | .sendReturned t => s.loop.task t = .idle
  | .shutdown t => s.Free t
  | .setState _ => True
  | .submitShutdown t => s.loop.Free t
  | .call _ => s.calling none = .no ∧ s.loop.Enabled .call
  | .on e => s.Admits e ∧ s.loop.Enabled e
  | .handleWrite _ =>
    s.loop.place.inHandlers = true ∧ s.loop.task none = .idle ∧ s.calling none = .no

instance (s : ConnectionLoop τ) (e : ConnectionEvent τ) : Decidable (s.Enabled e) := by
  cases e <;> unfold Enabled <;> infer_instance

def withConn (s : ConnectionLoop τ) (conn : TcpConnection) : ConnectionLoop τ :=
  { s with conn := conn }

def setCalling (s : ConnectionLoop τ) (t : Option τ) (calling : Calling) : ConnectionLoop τ :=
  { s with calling := Function.update s.calling t calling }

/-- The push of a functor by another thread. -/
def pushed (s : ConnectionLoop τ) (t : Option τ) (f : ConnFunctor) : ConnectionLoop τ :=
  { s with loop := s.loop.exec (.runInLoop t f) }

def sendInLoop (s : ConnectionLoop τ) (message : Message) (outcome : WriteOutcome) :
    Option (ConnectionLoop τ) :=
  (s.conn.sendInLoop message.bytes outcome).map fun conn =>
    { s with conn := conn, sent := s.sent ++ [message] }

def returns (s : ConnectionLoop τ) (t : Option τ) (message : Message) : ConnectionLoop τ :=
  { s.setCalling t .no with returned := s.returned ++ [message] }

/-- `state_ == kConnected`, and a number for the message. -/
def send (s : ConnectionLoop τ) (t : Option τ) (bytes : List UInt8) : ConnectionLoop τ :=
  if s.conn.state_ = .kConnected then
    { s.setCalling t (.sending ⟨s.numbers, bytes⟩) with numbers := s.numbers + 1 }
  else s

/-- The rest of `send`, on another thread up to the push. -/
def submit (s : ConnectionLoop τ) (t : Option τ) (message : Message) (outcome : WriteOutcome) :
    Option (ConnectionLoop τ) :=
  if t = none then (s.sendInLoop message outcome).map fun s => s.returns t message
  else some ((s.pushed t (.sendInLoop message)).setCalling t (.submitted message))

def shutdown (s : ConnectionLoop τ) (t : Option τ) : ConnectionLoop τ :=
  if s.conn.state_ = .kConnected then
    { s.setCalling t .disconnecting with promised := s.returned }
  else s

/-- The rest of `shutdown` from `runInLoop` on, on another thread up to the push. -/
def submitShutdown (s : ConnectionLoop τ) (t : Option τ) : ConnectionLoop τ :=
  if t = none then (s.withConn s.conn.shutdownInLoop).setCalling t .no
  else (s.pushed t .shutdownInLoop).setCalling t .no

/-- `functors[i]()`. -/
def call (s : ConnectionLoop τ) (outcome : WriteOutcome) : Option (ConnectionLoop τ) :=
  let s' := { s with loop := s.loop.exec .call }
  match s.loop.functors with
  | .sendInLoop message :: _ => s'.sendInLoop message outcome
  | .shutdownInLoop :: _ => some (s'.withConn s.conn.shutdownInLoop)
  | _ => some s'

/-- The effect of an event; `none` if it reads outside a buffer. -/
def exec (s : ConnectionLoop τ) : ConnectionEvent τ → Option (ConnectionLoop τ)
  | .send t bytes => some (s.send t bytes)
  | .submit t outcome =>
    match s.calling t with
    | .sending message => s.submit t message outcome
    | _ => none
  | .sendReturned t =>
    match s.calling t with
    | .submitted message => some (s.returns t message)
    | _ => none
  | .shutdown t => some (s.shutdown t)
  | .setState t =>
    if s.calling t = .disconnecting then
      some ((s.withConn (s.conn.setState .kDisconnecting)).setCalling t .shutting)
    else none
  | .submitShutdown t => if s.calling t = .shutting then some (s.submitShutdown t) else none
  | .call outcome => s.call outcome
  | .on e => some { s with loop := s.loop.exec e }
  | .handleWrite outcome => (s.conn.handleWrite outcome).map s.withConn

def step : ConnectionLoop τ → ConnectionEvent τ → Option (ConnectionLoop τ) :=
  Run.restrict Enabled exec

@[simp]
theorem calling_setCalling (s : ConnectionLoop τ) (t : Option τ) (c : Calling) :
    (s.setCalling t c).calling t = c := Function.update_self ..

theorem calling_setCalling_of_ne {s : ConnectionLoop τ} {t u : Option τ} {c : Calling} (h : u ≠ t) :
    (s.setCalling t c).calling u = s.calling u := Function.update_of_ne h ..

/-! ## Which calls go on -/

variable {s s' : ConnectionLoop τ} {t : Option τ} {outcome : WriteOutcome}

theorem exec_submit : s.exec (.submit t outcome) = some s' ↔
    ∃ m, s.calling t = .sending m ∧ s.submit t m outcome = some s' := by
  rw [exec]
  cases s.calling t <;> simp

theorem exec_sendReturned : s.exec (.sendReturned t) = some s' ↔
    ∃ m, s.calling t = .submitted m ∧ s.returns t m = s' := by
  rw [exec]
  cases s.calling t <;> simp

theorem exec_setState : s.exec (.setState t) = some s' ↔ s.calling t = .disconnecting ∧
    (s.withConn (s.conn.setState .kDisconnecting)).setCalling t .shutting = s' := by
  rw [exec]
  split <;> simp [*]

theorem exec_submitShutdown : s.exec (.submitShutdown t) = some s' ↔
    s.calling t = .shutting ∧ s.submitShutdown t = s' := by
  rw [exec]
  split <;> simp [*]

end ConnectionLoop

end WwjMuduo
