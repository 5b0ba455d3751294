import Mathlib.Data.Finmap
import WwjMuduo.Lib.Run
import WwjMuduo.Poller
import WwjMuduo.TcpConnection

set_option autoImplicit false

/-! # TcpServer

A server, its loops and its connections. Each loop has a poller and a queue of functors, and its thread
is in one place: it dispatches events, or it calls the functors it has taken from the queue. The
server's own loop is the base loop, where connections are accepted; a connection lives on the loop
that the thread pool gave it.

The members of `TcpConnection` say what they do to their surroundings (`Effect`); here it is done to
the poller of the connection's loop and to the server. No member changes its channel again after a
call of `update()`, so it does not matter that this is done when the member returns. What the
callbacks of the user do, they do in calls of `send` and `shutdown`, which are events here.

Left out: the other channels of the pollers (wakeup, timers, acceptor), which no connection touches. -/

namespace WwjMuduo

/-- An `EventLoop*`. -/
abbrev LoopId := ℕ

/-- The loop of the server. -/
def baseLoop : LoopId := 0

/-- A `TcpConnection*`: the connections in the order they are made. -/
abbrev ConnId := ℕ

/-! ## Loops -/

/-- A functor that waits for a loop. -/
inductive EventLoop.Functor where
  | connectEstablished (c : ConnId)
  | connectDestroyed (c : ConnId)
  | removeConnectionInLoop (c : ConnId)
  | sendInLoop (c : ConnId) (message : List UInt8)
  | shutdownInLoop (c : ConnId)
  deriving DecidableEq

structure EventLoop where
  poller_ : Poller ConnId
  pendingFunctors_ : List EventLoop.Functor
  /-- The local variable of `doPendingFunctors`, without the functors already called. -/
  functors : List EventLoop.Functor

/-- A loop that has just started. -/
def EventLoop.new : EventLoop :=
  { poller_ := { pollfds_ := [], channels_ := ∅ }, pendingFunctors_ := [], functors := [] }

structure EventLoopThreadPool where
  loops_ : List LoopId
  next_ : ℕ

namespace EventLoopThreadPool

/-- A pool that has been started with a number of threads. -/
def start (numThreads : ℕ) : EventLoopThreadPool :=
  { loops_ := (List.range numThreads).map (· + 1), next_ := 0 }

def getNextLoop (pool : EventLoopThreadPool) : Option (LoopId × EventLoopThreadPool) :=
  if pool.loops_ = [] then some (baseLoop, pool)
  else pool.loops_[pool.next_]?.map fun loop =>
    let next := pool.next_ + 1
    (loop, { pool with next_ := if pool.loops_.length ≤ next then 0 else next })

end EventLoopThreadPool

/-! ## The server -/

structure TcpServer where
  name_ : String
  threadPool_ : EventLoopThreadPool
  nextConnId_ : ℤ
  connections_ : Finmap fun _ : String => ConnId
  loops : LoopId → EventLoop
  /-- The connection objects. -/
  conn : ConnId → TcpConnection
  /-- How many have been made. -/
  made : ℕ
  /-- Those whose `handleClose` has run, the latest first. -/
  closed : List ConnId

/-- What stands for the connections that have not been made. -/
def TcpConnection.unmade : TcpConnection :=
  TcpConnection.new ⟨.kDisconnected, ⟨.zero⟩, 0, 0, 0, 0⟩ baseLoop "" (-1) ⟨.zero⟩ ⟨.zero⟩

namespace TcpServer

/-- A server that has been started. -/
def start (name : String) (numThreads : ℕ) : TcpServer :=
  { name_ := name
    threadPool_ := .start numThreads
    nextConnId_ := 1
    connections_ := ∅
    loops := fun _ => .new
    conn := fun _ => .unmade
    made := 0
    closed := [] }

def setConn (s : TcpServer) (c : ConnId) (conn : TcpConnection) : TcpServer :=
  { s with conn := Function.update s.conn c conn }

def setLoop (s : TcpServer) (l : LoopId) (loop : EventLoop) : TcpServer :=
  { s with loops := Function.update s.loops l loop }

def queueInLoop (s : TcpServer) (l : LoopId) (f : EventLoop.Functor) : TcpServer :=
  s.setLoop l { s.loops l with pendingFunctors_ := (s.loops l).pendingFunctors_ ++ [f] }

@[simp]
theorem setConn_self (s : TcpServer) (c : ConnId) (conn : TcpConnection) :
    (s.setConn c conn).conn c = conn := Function.update_self ..

theorem setConn_of_ne (s : TcpServer) {c d : ConnId} (conn : TcpConnection) (h : d ≠ c) :
    (s.setConn c conn).conn d = s.conn d := Function.update_of_ne h ..

@[simp]
theorem setLoop_self (s : TcpServer) (l : LoopId) (loop : EventLoop) :
    (s.setLoop l loop).loops l = loop := Function.update_self ..

theorem setLoop_of_ne (s : TcpServer) {l l' : LoopId} (loop : EventLoop) (h : l' ≠ l) :
    (s.setLoop l loop).loops l' = s.loops l' := Function.update_of_ne h ..

/-! ## Effects of a connection -/

/-- The poller of a loop, with the channels of the connections. -/
def polling (s : TcpServer) (l : LoopId) : Polling ConnId :=
  { (s.loops l).poller_ with channel := fun c => (s.conn c).channel_ }

/-- The server after an operation on the poller of a loop. -/
def setPolling (s : TcpServer) (l : LoopId) (p : Polling ConnId) : TcpServer :=
  { s.setLoop l { s.loops l with poller_ := p.toPoller } with
    conn := fun c => { s.conn c with channel_ := p.channel c } }

def removeConnectionInLoop (s : TcpServer) (c : ConnId) : TcpServer :=
  let conn := s.conn c
  { s with connections_ := s.connections_.erase conn.name_ }.queueInLoop conn.loop_
    (.connectDestroyed c)

/-- `removeConnection`, on the thread of loop `l`. -/
def removeConnection (s : TcpServer) (l : LoopId) (c : ConnId) : TcpServer :=
  if l = baseLoop then s.removeConnectionInLoop c
  else s.queueInLoop baseLoop (.removeConnectionInLoop c)

/-- What an effect of a connection does, on the thread of loop `l`. -/
def perform (l : LoopId) (c : ConnId) (s : TcpServer) : Effect → Option TcpServer
  | .updateChannel =>
    let ioLoop := (s.conn c).loop_
    ((s.polling ioLoop).updateChannel c).map (s.setPolling ioLoop)
  | .removeChannel =>
    let ioLoop := (s.conn c).loop_
    ((s.polling ioLoop).removeChannel c).map (s.setPolling ioLoop)
  | .closeCallback => some (s.removeConnection l c)
  | _ => some s

/-- A call of a member of a connection, on the thread of loop `l`. -/
def invoke (s : TcpServer) (l : LoopId) (c : ConnId)
    (member : TcpConnection → Option TcpConnection) : Option TcpServer :=
  (member (s.conn c)).bind fun conn =>
    Run.run (perform l c) (s.setConn c conn) (conn.effects.drop (s.conn c).effects.length)

/-! ## Functors -/

/-- A call of a functor on its loop, with the outcome of the `::write` that a `sendInLoop` may make. -/
def call (s : TcpServer) (l : LoopId) (f : EventLoop.Functor) (write : WriteOutcome) :
    Option TcpServer :=
  match f with
  | .connectEstablished c => s.invoke l c fun conn => some conn.connectEstablished
  | .connectDestroyed c => s.invoke l c fun conn => some conn.connectDestroyed
  | .removeConnectionInLoop c => some (s.removeConnectionInLoop c)
  | .sendInLoop c message => s.invoke l c fun conn => conn.sendInLoop message write
  | .shutdownInLoop c => s.invoke l c fun conn => some conn.shutdownInLoop

/-- `runInLoop`, on the thread of a loop or on another one. -/
def runInLoop (s : TcpServer) (thread : Option LoopId) (l : LoopId) (f : EventLoop.Functor)
    (write : WriteOutcome) : Option TcpServer :=
  if thread = some l then s.call l f write else some (s.queueInLoop l f)

/-- `doPendingFunctors` up to its loop. -/
def doPendingFunctors (s : TcpServer) (l : LoopId) : TcpServer :=
  let loop := s.loops l
  s.setLoop l { loop with pendingFunctors_ := [], functors := loop.pendingFunctors_ }

/-- One iteration of the loop in `doPendingFunctors`. -/
def callFunctor (s : TcpServer) (l : LoopId) (write : WriteOutcome) : Option TcpServer :=
  match (s.loops l).functors with
  | [] => none
  | f :: rest => (s.setLoop l { s.loops l with functors := rest }).call l f write

/-! ## Accepting -/

/-- `snprintf(buf, sizeof buf, "#%d", nextConnId_)` behind the name of the server. -/
def connName (name : String) (nextConnId : ℤ) : String := name ++ ("#" ++ toString nextConnId)

/-- `newConnection`, with the local address that the system reports. -/
def newConnection (s : TcpServer) (sockfd : ℤ) (peerAddr localAddr : InetAddress)
    (memory : Uninitialised) : Option TcpServer :=
  -- `++nextConnId_` must not overflow.
  if 2 ^ 31 ≤ s.nextConnId_ + 1 then none
  else s.threadPool_.getNextLoop.bind fun (ioLoop, pool) =>
    let c := s.made
    let name := connName s.name_ s.nextConnId_
    let s := { s with
      nextConnId_ := s.nextConnId_ + 1
      threadPool_ := pool
      made := c + 1
      connections_ := s.connections_.insert name c }.setConn c
        (.new memory ioLoop name sockfd localAddr peerAddr)
    s.runInLoop (some baseLoop) ioLoop (.connectEstablished c) (.count 0)

/-! ## Dispatching -/

/-- `readv` has found the end of the stream. -/
def eof : Buffer.ReadOutcome → Bool
  | .bytes [] => true
  | _ => false

def markClosed (s : TcpServer) (c : ConnId) : TcpServer := { s with closed := c :: s.closed }

/-- A callback of the channel of a connection. `handleRead` calls `handleClose` at the end of the
    stream. -/
def handle (l : LoopId) (c : ConnId) (readv : Buffer.ReadOutcome) (write : WriteOutcome)
    (s : TcpServer) : Channel.Callback → Option TcpServer
  | .close => (s.markClosed c).invoke l c fun conn => some conn.handleClose
  | .error => s.invoke l c fun conn => some conn.handleError
  | .read => (if eof readv then s.markClosed c else s).invoke l c fun conn => conn.handleRead readv
  | .write => s.invoke l c fun conn => conn.handleWrite write

/-- `::poll` reports events at an entry, and the channel found under its descriptor handles them. -/
def dispatch (s : TcpServer) (l : LoopId) (i : ℕ) (revents : BitVec 16)
    (readv : Buffer.ReadOutcome) (write : WriteOutcome) : Option TcpServer :=
  (s.loops l).poller_.pollfds_[i]?.bind fun pfd =>
    ((s.loops l).poller_.channels_.lookup pfd.fd).bind fun c =>
      let conn := s.conn c
      let channel := conn.channel_.set_revents (revents.signExtend 32)
      Run.run (handle l c readv write) (s.setConn c { conn with channel_ := channel })
        (channel.handleEvent fun _ => true)

/-! ## What the user does -/

/-- `TcpConnection::send`, on the thread of a loop or on another one. -/
def send (s : TcpServer) (thread : Option LoopId) (c : ConnId) (message : List UInt8)
    (write : WriteOutcome) : Option TcpServer :=
  let conn := s.conn c
  if conn.state_ = .kConnected then
    s.runInLoop thread conn.loop_ (.sendInLoop c message) write
  else some s

/-- `TcpConnection::shutdown`, on the thread of a loop or on another one. -/
def shutdown (s : TcpServer) (thread : Option LoopId) (c : ConnId) : Option TcpServer :=
  let conn := s.conn c
  if conn.state_ = .kConnected then
    (s.setConn c (conn.setState .kDisconnecting)).runInLoop thread conn.loop_ (.shutdownInLoop c)
      (.count 0)
  else some s

/-! ## Runs -/

inductive Event where
  | newConnection (sockfd : ℤ) (peerAddr localAddr : InetAddress) (memory : Uninitialised)
  | dispatch (l : LoopId) (i : ℕ) (revents : BitVec 16) (readv : Buffer.ReadOutcome)
      (write : WriteOutcome)
  | doPendingFunctors (l : LoopId)
  | callFunctor (l : LoopId) (write : WriteOutcome)
  | send (thread : Option LoopId) (c : ConnId) (message : List UInt8) (write : WriteOutcome)
  | shutdown (thread : Option LoopId) (c : ConnId)

/-- What can happen next. A loop dispatches when it has no functors left to call. A new descriptor is
    not that of a connection the server holds; `::poll` reports nothing for negative descriptors;
    and the user has a connection from the `connectionCallback`. -/
def Enabled (s : TcpServer) : Event → Prop
  | .newConnection sockfd _ _ _ => (s.loops baseLoop).functors = [] ∧ 0 ≤ sockfd ∧
    ∀ c < s.made, s.connections_.lookup (s.conn c).name_ = some c → (s.conn c).socket_ ≠ sockfd
  | .dispatch l i revents _ _ => (s.loops l).functors = [] ∧ 0 < revents.toInt ∧
    ∃ pfd ∈ (s.loops l).poller_.pollfds_[i]?, 0 ≤ pfd.fd
  | .doPendingFunctors l => (s.loops l).functors = []
  | .callFunctor l _ => (s.loops l).functors ≠ []
  | .send _ c _ _ => c < s.made ∧ .connectionCallback ∈ (s.conn c).effects
  | .shutdown _ c => c < s.made ∧ .connectionCallback ∈ (s.conn c).effects

instance (s : TcpServer) : (e : Event) → Decidable (s.Enabled e)
  | .newConnection sockfd _ _ _ => inferInstanceAs (Decidable ((s.loops baseLoop).functors = [] ∧
      0 ≤ sockfd ∧ ∀ c < s.made, s.connections_.lookup (s.conn c).name_ = some c →
        (s.conn c).socket_ ≠ sockfd))
  | .dispatch l i revents _ _ => inferInstanceAs (Decidable ((s.loops l).functors = [] ∧
      0 < revents.toInt ∧ ∃ pfd ∈ (s.loops l).poller_.pollfds_[i]?, 0 ≤ pfd.fd))
  | .doPendingFunctors l => inferInstanceAs (Decidable ((s.loops l).functors = []))
  | .callFunctor l _ => inferInstanceAs (Decidable ((s.loops l).functors ≠ []))
  | .send _ c _ _ => inferInstanceAs (Decidable (c < s.made ∧
      .connectionCallback ∈ (s.conn c).effects))
  | .shutdown _ c => inferInstanceAs (Decidable (c < s.made ∧
      .connectionCallback ∈ (s.conn c).effects))

def exec (s : TcpServer) : Event → Option TcpServer
  | .newConnection sockfd peerAddr localAddr memory => s.newConnection sockfd peerAddr localAddr memory
  | .dispatch l i revents readv write => s.dispatch l i revents readv write
  | .doPendingFunctors l => some (s.doPendingFunctors l)
  | .callFunctor l write => s.callFunctor l write
  | .send thread c message write => s.send thread c message write
  | .shutdown thread c => s.shutdown thread c

def step : TcpServer → Event → Option TcpServer := Run.restrict Enabled exec

end TcpServer

end WwjMuduo
