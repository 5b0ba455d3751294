import WwjMuduo.Acceptor
import WwjMuduo.TcpServer.Registry

set_option autoImplicit false

/-! # Starting and listening

`TcpServer.lean` begins with a server that has been started and takes the calls of `newConnection` as
they come. Here is what comes before, and where they come from: `start()` starts the threads of the
pool and has the base loop call `Acceptor::listen()`, and the acceptor, once its channel is in the
poller, accepts. `start()` may be called again, from any thread, and `setThreadNum()` too. A call of
`start()` is one step: two at a time, both of which find `started_` false, are a data race.

Of the base loop's poller this file has what belongs to the acceptor. -/

namespace WwjMuduo

namespace EventLoopThreadPool

/-- `EventLoopThreadPool::start()`: the loops of so many new threads. -/
def startThreads (pool : EventLoopThreadPool) (numThreads : ℤ) : EventLoopThreadPool :=
  { pool with
    loops_ := pool.loops_ ++ (List.range numThreads.toNat).map (· + 1 + pool.loops_.length) }

end EventLoopThreadPool

/-- A `TcpServer` with its acceptor. -/
structure ListeningServer where
  server : TcpServer
  started_ : Bool
  /-- `threadPool_->numThreads_` -/
  numThreads_ : ℤ
  acceptor_ : Acceptor
  listenning_ : Bool
  /-- The base loop's poller and `acceptChannel_`. -/
  polling : Polling Unit
  /-- How many calls of `Acceptor::listen` wait for the base loop. -/
  pendingListens : ℕ

namespace ListeningServer

inductive Event where
  | setThreadNum (numThreads : ℤ)
  /-- A call of `start()`, on the thread of the base loop or on another one, with the error of the
      `::listen` that it may come to. -/
  | start (inLoopThread : Bool) (error : Option Errno)
  /-- The base loop calls an `Acceptor::listen` that was queued. -/
  | callListen (error : Option Errno)
  /-- `acceptChannel_` is readable. -/
  | handleRead (outcome : AcceptOutcome) (sys : System) (localAddr : InetAddress)
      (memory : Uninitialised)
  /-- Anything that happens to the server, but for new connections. -/
  | on (e : TcpServer.Event)

/-- The constructor, over the descriptor of `acceptSocket_`. -/
def new (name : String) (acceptfd : ℕ) (errno : Errno) : ListeningServer :=
  { server := { TcpServer.start name 0 with threadPool_ := ⟨[], 0⟩ }
    started_ := false
    numThreads_ := 0
    acceptor_ := .start true errno
    listenning_ := false
    polling := .init fun _ => acceptfd
    pendingListens := 0 }

/-- `Acceptor::listen`. A failed `::listen` is fatal. -/
def listen (s : ListeningServer) : Option Errno → Option ListeningServer
  | some errno => some { s with
      listenning_ := true
      acceptor_ := { s.acceptor_ with aborted := some ⟨"sockets::listenOrDie", errno⟩ } }
  | none =>
    let acceptChannel := (s.polling.channel ()).enableReading
    ((s.polling.setChannel () acceptChannel).updateChannel ()).map fun polling =>
      { s with listenning_ := true, polling := polling }

/-- The first part of `TcpServer::start`. -/
def startPool (s : ListeningServer) : ListeningServer :=
  if s.started_ then s
  else { s with
    started_ := true
    server := { s.server with
      threadPool_ := s.server.threadPool_.startThreads s.numThreads_ } }

/-- `TcpServer::start`. -/
def start (s : ListeningServer) (inLoopThread : Bool) (error : Option Errno) :
    Option ListeningServer :=
  let s := s.startPool
  if s.listenning_ then some s
  else if inLoopThread then s.listen error
  else some { s with pendingListens := s.pendingListens + 1 }

/-- `Acceptor::handleRead`, whose callback is `newConnection`. -/
def handleRead (s : ListeningServer) (outcome : AcceptOutcome) (sys : System)
    (localAddr : InetAddress) (memory : Uninitialised) : Option ListeningServer :=
  (s.acceptor_.handleRead (outcome, sys)).bind fun acceptor =>
    match acceptor.delivered.drop s.acceptor_.delivered.length with
    | (connfd, peerAddr) :: _ =>
      (s.server.step (.newConnection connfd peerAddr localAddr memory)).map fun server =>
        { s with acceptor_ := acceptor, server := server }
    | [] => some { s with acceptor_ := acceptor }

def exec (s : ListeningServer) : Event → Option ListeningServer
  | .setThreadNum numThreads => some { s with numThreads_ := numThreads }
  | .start inLoopThread error => s.start inLoopThread error
  | .callListen error => { s with pendingListens := s.pendingListens - 1 }.listen error
  | .handleRead outcome sys localAddr memory => s.handleRead outcome sys localAddr memory
  | .on e => (s.server.step e).map fun server => { s with server := server }

/-- What can happen next, in a process that has not been aborted. -/
def Enabled (s : ListeningServer) : Event → Prop
  | .setThreadNum _ | .start .. => s.acceptor_.aborted = none
  | .callListen _ => s.acceptor_.aborted = none ∧ 0 < s.pendingListens
  | .handleRead .. => s.acceptor_.aborted = none ∧ s.polling.pollfds_.any fun pfd =>
      decide (0 ≤ pfd.fd) && hasBits (pfd.events.setWidth 32) POLLIN
  | .on e => s.acceptor_.aborted = none ∧ e.accepts = false

instance (s : ListeningServer) : (e : Event) → Decidable (s.Enabled e)
  | .setThreadNum _ | .start .. => inferInstanceAs (Decidable (s.acceptor_.aborted = none))
  | .callListen _ => inferInstanceAs (Decidable (s.acceptor_.aborted = none ∧ 0 < s.pendingListens))
  | .handleRead .. => inferInstanceAs (Decidable (s.acceptor_.aborted = none ∧
      (s.polling.pollfds_.any fun pfd =>
        decide (0 ≤ pfd.fd) && hasBits (pfd.events.setWidth 32) POLLIN) = true))
  | .on e => inferInstanceAs (Decidable (s.acceptor_.aborted = none ∧ e.accepts = false))

def step : ListeningServer → Event → Option ListeningServer := Run.restrict Enabled exec

/-! ## The acceptor's part of the poller -/

/-- The poller of a loop that waits for connections. -/
def watching (acceptfd : ℕ) : Polling Unit :=
  { pollfds_ := [{ fd := acceptfd, events := Channel.kReadEvent.setWidth 16, revents := 0 }]
    channels_ := Finmap.insert (acceptfd : ℤ) () ∅
    channel := fun _ =>
      { index_ := 0, fd_ := acceptfd, events_ := Channel.kReadEvent, revents_ := 0 } }

theorem updateChannel_init (fd : ℕ) :
    let p : Polling Unit := .init fun _ => fd
    (p.setChannel () (p.channel ()).enableReading).updateChannel () = some (watching fd) := by
  intro p
  simp only [p, Polling.updateChannel, Polling.setChannel, Polling.init, Channel.enableReading,
    Channel.new, Channel.pollfd, watching, Channel.set_index]
  simp
  funext c
  rfl

/-- A second call changes nothing. -/
theorem updateChannel_watching (fd : ℕ) :
    ((watching fd).setChannel () ((watching fd).channel ()).enableReading).updateChannel () =
      some (watching fd) := by
  have hread : Channel.kReadEvent ≠ Channel.kNoneEvent := by decide
  simp [Polling.updateChannel, Polling.setChannel, Channel.enableReading, Channel.pollfd, watching,
    Channel.isNoneEvent, hread]

/-! ## What holds in every state -/

structure Inv (acceptfd : ℕ) (s : ListeningServer) : Prop where
  callback : s.acceptor_.newConnectionCallback_ = true
  /-- Each connection that was accepted is one of the server's. -/
  made : s.server.made = s.acceptor_.delivered.length
  deaf : s.listenning_ = false → s.polling = .init fun _ => acceptfd
  watches : s.listenning_ = true → s.acceptor_.aborted = none → s.polling = watching acceptfd
  waits : s.started_ = true → s.listenning_ = false → 0 < s.pendingListens
  idle : s.started_ = false → s.listenning_ = false ∧ s.pendingListens = 0

variable {acceptfd : ℕ} {s s' : ListeningServer}

theorem inv_new (name : String) (acceptfd : ℕ) (errno : Errno) :
    Inv acceptfd (new name acceptfd errno) where
  callback := rfl
  made := rfl
  deaf _ := rfl
  watches h := absurd h Bool.false_ne_true
  waits h := absurd h Bool.false_ne_true
  idle _ := ⟨rfl, rfl⟩

/-- What a call of `listen` does. -/
structure Listens (s s' : ListeningServer) : Prop where
  server : s'.server = s.server
  started_ : s'.started_ = s.started_
  numThreads_ : s'.numThreads_ = s.numThreads_
  listenning_ : s'.listenning_ = true
  pendingListens : s'.pendingListens = s.pendingListens
  callback : s'.acceptor_.newConnectionCallback_ = s.acceptor_.newConnectionCallback_
  delivered : s'.acceptor_.delivered = s.acceptor_.delivered

theorem listens_of_listen {error : Option Errno} (h : s.listen error = some s') : Listens s s' := by
  cases error with
  | some errno =>
      obtain rfl := Option.some.inj h
      exact ⟨rfl, rfl, rfl, rfl, rfl, rfl, rfl⟩
  | none =>
      obtain ⟨polling, -, rfl⟩ := Option.map_eq_some_iff.1 h
      exact ⟨rfl, rfl, rfl, rfl, rfl, rfl, rfl⟩

/-- However often it is called, there is one entry. -/
theorem polling_of_listen {error : Option Errno} (ha : s.acceptor_.aborted = none)
    (hdeaf : s.listenning_ = false → s.polling = .init fun _ => acceptfd)
    (hwatches : s.listenning_ = true → s.acceptor_.aborted = none → s.polling = watching acceptfd)
    (h : s.listen error = some s') (ha' : s'.acceptor_.aborted = none) :
    s'.polling = watching acceptfd := by
  cases error with
  | some errno =>
      obtain rfl := Option.some.inj h
      exact absurd ha' (by simp)
  | none =>
      obtain ⟨polling, hpolling, rfl⟩ := Option.map_eq_some_iff.1 h
      cases hlistenning : s.listenning_ with
      | false =>
          rw [hdeaf hlistenning] at hpolling
          exact (Option.some.inj ((updateChannel_init acceptfd).symm.trans hpolling)).symm
      | true =>
          rw [hwatches hlistenning ha] at hpolling
          exact (Option.some.inj ((updateChannel_watching acceptfd).symm.trans hpolling)).symm

/-- `listen` keeps the invariant, also where its call has just left the queue. -/
theorem Inv.listen {error : Option Errno} (ha : s.acceptor_.aborted = none)
    (hcallback : s.acceptor_.newConnectionCallback_ = true)
    (hmade : s.server.made = s.acceptor_.delivered.length) (hstarted : s.started_ = true)
    (hdeaf : s.listenning_ = false → s.polling = .init fun _ => acceptfd)
    (hwatches : s.listenning_ = true → s.acceptor_.aborted = none → s.polling = watching acceptfd)
    (h : s.listen error = some s') : Inv acceptfd s' := by
  have L := listens_of_listen h
  refine ⟨L.callback.trans hcallback, ?_, ?_, ?_, ?_, ?_⟩
  · rw [L.server, L.delivered]
    exact hmade
  · exact fun hd => absurd (L.listenning_.symm.trans hd) (by simp)
  · exact fun _ ha' => polling_of_listen ha hdeaf hwatches h ha'
  · exact fun _ hd => absurd (L.listenning_.symm.trans hd) (by simp)
  · exact fun hd => absurd (hd.symm.trans (L.started_.trans hstarted)) (by simp)

/-- What `start()` has done when it comes to `listenning()`. -/
structure Starts (s s' : ListeningServer) : Prop where
  started_ : s'.started_ = true
  numThreads_ : s'.numThreads_ = s.numThreads_
  acceptor_ : s'.acceptor_ = s.acceptor_
  listenning_ : s'.listenning_ = s.listenning_
  polling : s'.polling = s.polling
  pendingListens : s'.pendingListens = s.pendingListens
  made : s'.server.made = s.server.made
  again : s.started_ = true → s'.server = s.server

theorem starts_startPool (s : ListeningServer) : Starts s s.startPool := by
  unfold startPool
  split_ifs with h
  · exact ⟨h, rfl, rfl, rfl, rfl, rfl, rfl, fun _ => rfl⟩
  · exact ⟨rfl, rfl, rfl, rfl, rfl, rfl, rfl, fun hs => absurd hs h⟩

/-- `start()` ends in a `listen`, here or in the queue, or finds the acceptor listening. -/
theorem start_cases {inLoopThread : Bool} {error : Option Errno}
    (h : s.start inLoopThread error = some s') :
    (s.listenning_ = true ∧ s' = s.startPool) ∨
      (s.listenning_ = false ∧ s.startPool.listen error = some s') ∨
      (s.listenning_ = false ∧
        s' = { s.startPool with pendingListens := s.startPool.pendingListens + 1 }) := by
  have hlistenning := (starts_startPool s).listenning_
  have h' : (if s.startPool.listenning_ then some s.startPool
      else if inLoopThread then s.startPool.listen error
      else some { s.startPool with pendingListens := s.startPool.pendingListens + 1 }) = some s' := h
  split_ifs at h' with hl
  · exact .inl ⟨hlistenning.symm.trans hl, (Option.some.inj h').symm⟩
  · exact .inr (.inl ⟨hlistenning.symm.trans (by simpa using hl), h'⟩)
  · exact .inr (.inr ⟨hlistenning.symm.trans (by simpa using hl), (Option.some.inj h').symm⟩)

/-- What `handleRead` does with what `::accept` returns. -/
theorem handleRead_cases {outcome : AcceptOutcome} {sys : System} {localAddr : InetAddress}
    {memory : Uninitialised} (ha : s.acceptor_.aborted = none)
    (hcallback : s.acceptor_.newConnectionCallback_ = true)
    (h : s.handleRead outcome sys localAddr memory = some s') :
    (∃ fd peer acceptor server, outcome = .ok fd peer ∧ acceptor.aborted = none ∧
      acceptor.newConnectionCallback_ = true ∧
      acceptor.delivered = s.acceptor_.delivered ++ [((fd : ℤ), ⟨peer⟩)] ∧
      s.server.step (.newConnection fd ⟨peer⟩ localAddr memory) = some server ∧
      s' = { s with acceptor_ := acceptor, server := server }) ∨
    ∃ errno fatal, outcome = .err errno ∧
      s' = { s with acceptor_ := { s.acceptor_ with aborted := some fatal } } := by
  cases outcome with
  | ok fd peer =>
      obtain ⟨acceptor, haccept, ha', hcallback', -, hdelivered, -⟩ :=
        Acceptor.handleRead_ok ha fd peer sys
      rw [hcallback] at hcallback'
      rw [if_pos hcallback] at hdelivered
      have hdrop : acceptor.delivered.drop s.acceptor_.delivered.length = [((fd : ℤ), ⟨peer⟩)] := by
        rw [hdelivered, List.drop_left]
      unfold handleRead at h
      rw [haccept, Option.bind_some, hdrop] at h
      obtain ⟨server, hserver, rfl⟩ := Option.map_eq_some_iff.1 h
      exact .inl ⟨fd, peer, acceptor, server, rfl, ha', hcallback', hdelivered, hserver, rfl⟩
  | err errno =>
      unfold handleRead at h
      rw [Acceptor.handleRead_err ha, Option.bind_some, List.drop_length] at h
      exact .inr ⟨errno, _, rfl, (Option.some.inj h).symm⟩

/-- `newConnection` makes one connection. -/
theorem made_newConnection {server server' : TcpServer} {sockfd : ℤ} {peerAddr localAddr : InetAddress}
    {memory : Uninitialised}
    (h : server.step (.newConnection sockfd peerAddr localAddr memory) = some server') :
    server'.made = server.made + 1 := by
  obtain ⟨ioLoop, t, A, hrun⟩ := TcpServer.newConnection_eq_some (Run.restrict_eq_some.1 h).2
  rw [(TcpServer.Frames.runInLoop hrun).made, A.made]

theorem Inv.step {e : Event} (I : Inv acceptfd s) (h : s.step e = some s') : Inv acceptfd s' := by
  obtain ⟨henabled, hexec⟩ := Run.restrict_eq_some.1 h
  cases e with
  | setThreadNum numThreads =>
      obtain rfl := Option.some.inj hexec
      exact ⟨I.callback, I.made, I.deaf, I.watches, I.waits, I.idle⟩
  | start inLoopThread error =>
      have S := starts_startPool s
      have hmade : s.startPool.server.made = s.startPool.acceptor_.delivered.length := by
        rw [S.made, S.acceptor_, I.made]
      have hdeaf : s.startPool.listenning_ = false → s.startPool.polling = .init fun _ => acceptfd := by
        rw [S.listenning_, S.polling]
        exact I.deaf
      have hwatches : s.startPool.listenning_ = true → s.startPool.acceptor_.aborted = none →
          s.startPool.polling = watching acceptfd := by
        rw [S.listenning_, S.acceptor_, S.polling]
        exact I.watches
      have hcallback : s.startPool.acceptor_.newConnectionCallback_ = true := by
        rw [S.acceptor_]
        exact I.callback
      have hunidle : s.startPool.started_ = false → False := fun hf =>
        absurd (S.started_.symm.trans hf) (by simp)
      rcases start_cases hexec with ⟨hl, rfl⟩ | ⟨hl, hlisten⟩ | ⟨hl, rfl⟩
      · refine ⟨hcallback, hmade, hdeaf, hwatches, fun _ hd => ?_, fun hf => (hunidle hf).elim⟩
        exact absurd (hl.symm.trans (S.listenning_.symm.trans hd)) (by simp)
      · have ha : s.startPool.acceptor_.aborted = none := by
          rw [S.acceptor_]
          exact henabled
        exact Inv.listen ha hcallback hmade S.started_ hdeaf hwatches hlisten
      · exact ⟨hcallback, hmade, hdeaf, hwatches, fun _ _ => Nat.succ_pos _,
          fun hf => (hunidle hf).elim⟩
  | callListen error =>
      have hstarted : s.started_ = true := by
        by_contra hf
        have hnone := (I.idle (by simpa using hf)).2
        have hpos := henabled.2
        omega
      exact Inv.listen (s := { s with pendingListens := s.pendingListens - 1 }) henabled.1 I.callback
        I.made hstarted I.deaf I.watches hexec
  | handleRead outcome sys localAddr memory =>
      rcases handleRead_cases henabled.1 I.callback hexec with
        ⟨fd, peer, acceptor, server, -, ha, hcallback, hdelivered, hserver, rfl⟩ |
          ⟨errno, fatal, -, rfl⟩
      · refine ⟨hcallback, ?_, I.deaf, fun hl _ => I.watches hl henabled.1, I.waits, I.idle⟩
        show server.made = acceptor.delivered.length
        rw [made_newConnection hserver, hdelivered, List.length_append, List.length_singleton, I.made]
      · exact ⟨I.callback, I.made, I.deaf, fun _ hf => absurd hf (by simp), I.waits, I.idle⟩
  | on e =>
      obtain ⟨server, hserver, rfl⟩ := Option.map_eq_some_iff.1 hexec
      have hmade := (TcpServer.exec_frames henabled.2 (Run.restrict_eq_some.1 hserver).2).made
      exact ⟨I.callback, hmade.trans I.made, I.deaf, I.watches, I.waits, I.idle⟩

theorem inv_run {name : String} {errno : Errno} {es : List Event}
    (h : Run.run step (new name acceptfd errno) es = some s) : Inv acceptfd s :=
  Run.inv_run (I := Inv acceptfd) (fun _ _ _ I hs => I.step hs) (inv_new name acceptfd errno) h

/-! ## The started server -/

/-- What an event is for the server. -/
def Event.requests : Event → List TcpServer.Event
  | .handleRead (.ok fd peer) _ localAddr memory => [.newConnection fd ⟨peer⟩ localAddr memory]
  | .on e => [e]
  | _ => []

/-- The number of threads that is set when `start()` is first called. -/
def poolSize : ℤ → List Event → Option ℕ
  | _, [] => none
  | _, .setThreadNum numThreads :: es => poolSize numThreads es
  | numThreads, .start .. :: _ => some numThreads.toNat
  | numThreads, .callListen _ :: es => poolSize numThreads es
  | numThreads, .handleRead .. :: es => poolSize numThreads es
  | numThreads, .on _ :: es => poolSize numThreads es

/-- A step behind `start()` is what its requests are for the server. -/
theorem step_started {e : Event} (I : Inv acceptfd s) (hs : s.started_ = true)
    (h : s.step e = some s') :
    s'.started_ = true ∧ Run.run TcpServer.step s.server e.requests = some s'.server := by
  obtain ⟨henabled, hexec⟩ := Run.restrict_eq_some.1 h
  cases e with
  | setThreadNum numThreads =>
      obtain rfl := Option.some.inj hexec
      exact ⟨hs, rfl⟩
  | start inLoopThread error =>
      have S := starts_startPool s
      have hserver : s.startPool.server = s.server := S.again hs
      rcases start_cases hexec with ⟨-, rfl⟩ | ⟨-, hlisten⟩ | ⟨-, rfl⟩
      · exact ⟨S.started_, congrArg some hserver.symm⟩
      · have L := listens_of_listen hlisten
        exact ⟨L.started_.trans S.started_, congrArg some (L.server.trans hserver).symm⟩
      · exact ⟨S.started_, congrArg some hserver.symm⟩
  | callListen error =>
      have L := listens_of_listen hexec
      exact ⟨L.started_.trans hs, congrArg some L.server.symm⟩
  | handleRead outcome sys localAddr memory =>
      rcases handleRead_cases henabled.1 I.callback hexec with
        ⟨fd, peer, acceptor, server, rfl, -, -, -, hserver, rfl⟩ | ⟨errno, fatal, rfl, rfl⟩
      · exact ⟨hs, Run.run_singleton.trans hserver⟩
      · exact ⟨hs, rfl⟩
  | on e =>
      obtain ⟨server, hserver, rfl⟩ := Option.map_eq_some_iff.1 hexec
      exact ⟨hs, Run.run_singleton.trans hserver⟩

theorem run_started {es : List Event} (I : Inv acceptfd s) (hs : s.started_ = true)
    (h : Run.run step s es = some s') :
    s'.started_ = true ∧ Run.run TcpServer.step s.server (es.flatMap Event.requests) = some s'.server := by
  induction es generalizing s with
  | nil =>
      obtain rfl : s = s' := Option.some.inj h
      exact ⟨hs, rfl⟩
  | cons e es ih =>
      obtain ⟨s₁, h₁, hrest⟩ := Run.run_cons_eq_some.1 h
      obtain ⟨hs₁, hserver⟩ := step_started I hs h₁
      obtain ⟨hs', hserver'⟩ := ih (I.step h₁) hs₁ hrest
      exact ⟨hs', Run.run_append_eq_some.2 ⟨s₁.server, hserver, hserver'⟩⟩

/-- A server without connections can do nothing but call no functors. -/
theorem idle_step {name : String} {e : TcpServer.Event} {server : TcpServer}
    (he : e.accepts = false) (h : (TcpServer.start name 0).step e = some server) (n : ℕ) :
    server = TcpServer.start name 0 ∧
      (TcpServer.start name n).step e = some (TcpServer.start name n) := by
  obtain ⟨henabled, hexec⟩ := Run.restrict_eq_some.1 h
  cases e with
  | newConnection sockfd peerAddr localAddr memory => exact absurd he (by simp [TcpServer.Event.accepts])
  | dispatch l i revents readv write =>
      obtain ⟨-, -, pfd, hpfd, -⟩ := henabled
      exact absurd hpfd (by simp [TcpServer.start, EventLoop.new])
  | doPendingFunctors l =>
      have hidle (n : ℕ) : (TcpServer.start name n).doPendingFunctors l = TcpServer.start name n := by
        unfold TcpServer.doPendingFunctors TcpServer.setLoop
        have hloop : Function.update (TcpServer.start name n).loops l EventLoop.new =
            (TcpServer.start name n).loops := Function.update_eq_self l _
        exact congrArg (fun loops => { TcpServer.start name n with loops := loops }) hloop
      obtain rfl := Option.some.inj hexec
      exact ⟨hidle 0, Run.restrict_eq_some.2 ⟨rfl, congrArg some (hidle n)⟩⟩
  | callFunctor l write => exact absurd rfl henabled
  | send thread c message write => exact absurd henabled.1 (Nat.not_lt_zero c)
  | shutdown thread c => exact absurd henabled.1 (Nat.not_lt_zero c)

/-- A step of a server that has not been started. -/
theorem step_unstarted {name : String} {e : Event} (I : Inv acceptfd s) (hs : s.started_ = false)
    (hserver : s.server = TcpServer.start name 0) (h : s.step e = some s')
    (he : s'.started_ = false) : s'.server = TcpServer.start name 0 ∧
      (∀ es, poolSize s.numThreads_ (e :: es) = poolSize s'.numThreads_ es) ∧
      ∀ n, Run.run TcpServer.step (TcpServer.start name n) e.requests =
        some (TcpServer.start name n) := by
  obtain ⟨henabled, hexec⟩ := Run.restrict_eq_some.1 h
  obtain ⟨hlistenning, hpending⟩ := I.idle hs
  cases e with
  | setThreadNum numThreads =>
      obtain rfl := Option.some.inj hexec
      exact ⟨hserver, fun _ => rfl, fun _ => rfl⟩
  | start inLoopThread error =>
      have S := starts_startPool s
      rcases start_cases hexec with ⟨-, rfl⟩ | ⟨-, hlisten⟩ | ⟨-, rfl⟩
      · exact absurd (S.started_.symm.trans he) (by simp)
      · exact absurd ((S.started_.symm.trans (listens_of_listen hlisten).started_.symm).trans he) (by simp)
      · exact absurd (S.started_.symm.trans he) (by simp)
  | callListen error =>
      have hpos := henabled.2
      omega
  | handleRead outcome sys localAddr memory =>
      have hany := henabled.2
      rw [I.deaf hlistenning] at hany
      exact absurd hany (by simp [Polling.init])
  | on e =>
      obtain ⟨server, hstep, rfl⟩ := Option.map_eq_some_iff.1 hexec
      rw [hserver] at hstep
      exact ⟨(idle_step henabled.2 hstep 0).1, fun _ => rfl, fun n =>
        Run.run_singleton.trans (idle_step henabled.2 hstep n).2⟩

/-- The first `start()` starts the pool. -/
theorem step_first_start {name : String} {e : Event} (I : Inv acceptfd s) (hs : s.started_ = false)
    (hserver : s.server = TcpServer.start name 0) (h : s.step e = some s') (he : s'.started_ = true) :
    s'.server = TcpServer.start name s.numThreads_.toNat ∧ e.requests = [] ∧
      ∀ es, poolSize s.numThreads_ (e :: es) = some s.numThreads_.toNat := by
  obtain ⟨henabled, hexec⟩ := Run.restrict_eq_some.1 h
  cases e with
  | setThreadNum numThreads =>
      obtain rfl := Option.some.inj hexec
      exact absurd (hs.symm.trans he) (by simp)
  | start inLoopThread error =>
      have hpool : s.startPool.server = TcpServer.start name s.numThreads_.toNat := by
        unfold startPool
        rw [if_neg (by simp [hs]), hserver]
        rfl
      refine ⟨?_, rfl, fun _ => rfl⟩
      rcases start_cases hexec with ⟨-, rfl⟩ | ⟨-, hlisten⟩ | ⟨-, rfl⟩
      · exact hpool
      · exact (listens_of_listen hlisten).server.trans hpool
      · exact hpool
  | callListen error =>
      exact absurd (hs.symm.trans ((listens_of_listen hexec).started_.symm.trans he)) (by simp)
  | handleRead outcome sys localAddr memory =>
      have hany := henabled.2
      rw [I.deaf (I.idle hs).1] at hany
      exact absurd hany (by simp [Polling.init])
  | on e =>
      obtain ⟨server, -, rfl⟩ := Option.map_eq_some_iff.1 hexec
      exact absurd (hs.symm.trans he) (by simp)

theorem run_unstarted {name : String} {es : List Event} (I : Inv acceptfd s)
    (hs : s.started_ = false) (hserver : s.server = TcpServer.start name 0)
    (h : Run.run step s es = some s') (hs' : s'.started_ = true) :
    ∃ n, poolSize s.numThreads_ es = some n ∧
      Run.run TcpServer.step (TcpServer.start name n) (es.flatMap Event.requests) = some s'.server := by
  induction es generalizing s with
  | nil =>
      obtain rfl : s = s' := Option.some.inj h
      exact absurd (hs.symm.trans hs') (by simp)
  | cons e es ih =>
      obtain ⟨s₁, h₁, hrest⟩ := Run.run_cons_eq_some.1 h
      cases hs₁ : s₁.started_ with
      | false =>
          obtain ⟨hserver₁, hsize, hrequests⟩ := step_unstarted I hs hserver h₁ hs₁
          obtain ⟨n, hn, hrun⟩ := ih (I.step h₁) hs₁ hserver₁ hrest
          exact ⟨n, (hsize es).trans hn, Run.run_append_eq_some.2 ⟨_, hrequests n, hrun⟩⟩
      | true =>
          obtain ⟨hserver₁, hrequests, hsize⟩ := step_first_start I hs hserver h₁ hs₁
          obtain ⟨-, hrun⟩ := run_started (I.step h₁) hs₁ hrest
          rw [hserver₁] at hrun
          refine ⟨_, hsize es, ?_⟩
          rw [List.flatMap_cons, hrequests]
          exact hrun

/-- **A listening server is a started one.** However often `start()` and `setThreadNum()` are called,
    one call after another, from whatever threads, and however the base loop comes to its listening: once `start()` has been
    called, the server has gone through a run of `TcpServer.lean`, from a pool with the number of
    threads set when it was first called, in which `newConnection` has been called for what `::accept`
    returned, each connection once and in order, and for nothing else. -/
theorem listening_refines {name : String} {errno : Errno} {es : List Event}
    (h : Run.run step (new name acceptfd errno) es = some s) (hs : s.started_ = true) :
    ∃ n, poolSize 0 es = some n ∧
      Run.run TcpServer.step (TcpServer.start name n) (es.flatMap Event.requests) = some s.server ∧
      s.server.made = s.acceptor_.delivered.length := by
  obtain ⟨n, hn, hrun⟩ := run_unstarted (inv_new name acceptfd errno) rfl rfl h hs
  exact ⟨n, hn, hrun, (inv_run h).made⟩

/-- `start()` twice before the base loop runs, with another number of threads between, and then a
    connection. -/
def startedTwice : List Event :=
  [.setThreadNum 2, .start false none, .setThreadNum 5, .start false none, .callListen none,
    .callListen none,
    .handleRead (.ok 9 .zero)
      ⟨fun fd _ _ errno => if fd < 0 then (-1, EBADF) else (0, errno), fun _ _ _ _ h => if_pos h, id⟩
      ⟨.zero⟩ (.asMeant ⟨.zero⟩),
    .on (.doPendingFunctors 1), .on (.callFunctor 1 (.count 0))]

theorem listening_refines_twice : ∃ s, Run.run step (new "server" 3 0) startedTwice = some s ∧
    Run.run TcpServer.step (TcpServer.start "server" 2) (startedTwice.flatMap Event.requests) =
      some s.server ∧ s.server.made = 1 := by
  have hrun : ((Run.run step (new "server" 3 0) startedTwice).map fun s =>
      (s.started_, s.acceptor_.delivered.length)) = some (true, 1) := by decide +kernel
  obtain ⟨s, hs, hs'⟩ := Option.map_eq_some_iff.1 hrun
  obtain ⟨hstarted, hdelivered⟩ := Prod.mk.inj hs'
  obtain ⟨n, hn, hserver, hmade⟩ := listening_refines hs hstarted
  obtain rfl : 2 = n := Option.some.inj hn
  exact ⟨s, hs, hserver, hmade.trans hdelivered⟩

/-- **`start()` leads to listening, and to one entry in the poller.** In every state of a process that
    has not been aborted, the acceptor has one entry, with its descriptor and for reading, if
    `listen()` has been called, once or more often, and none if not. Once `start()` has been called
    and no `listen()` waits in the queue of the base loop, it has been called. -/
theorem start_listens {name : String} {errno : Errno} {es : List Event}
    (h : Run.run step (new name acceptfd errno) es = some s) (ha : s.acceptor_.aborted = none) :
    s.polling.pollfds_ = (if s.listenning_ then
        [{ fd := acceptfd, events := Channel.kReadEvent.setWidth 16, revents := 0 }] else []) ∧
      (s.started_ = true → s.pendingListens = 0 → s.listenning_ = true) ∧
      (s.listenning_ = true → s.started_ = true) := by
  have I := inv_run h
  refine ⟨?_, fun hs hp => ?_, fun hl => ?_⟩
  · cases hl : s.listenning_ with
    | false =>
        rw [I.deaf hl]
        rfl
    | true =>
        rw [I.watches hl ha]
        rfl
  · by_contra hl
    have hpos := I.waits hs (by simpa using hl)
    omega
  · by_contra hs
    exact absurd (hl.symm.trans (I.idle (by simpa using hs)).1) (by simp)

theorem start_listens_twice : ∃ s, Run.run step (new "server" 3 0) startedTwice = some s ∧
    s.listenning_ = true ∧
    s.polling.pollfds_ = [{ fd := 3, events := Channel.kReadEvent.setWidth 16, revents := 0 }] := by
  have hrun : ((Run.run step (new "server" 3 0) startedTwice).map fun s =>
      (s.acceptor_.aborted, s.started_, s.pendingListens)) = some (none, true, 0) := by
    decide +kernel
  obtain ⟨s, hs, hs'⟩ := Option.map_eq_some_iff.1 hrun
  obtain ⟨ha, hs'⟩ := Prod.mk.inj hs'
  obtain ⟨hstarted, hpending⟩ := Prod.mk.inj hs'
  obtain ⟨hentries, hlistens, -⟩ := start_listens hs ha
  have hl := hlistens hstarted hpending
  rw [if_pos hl] at hentries
  exact ⟨s, hs, hl, hentries⟩

end ListeningServer

end WwjMuduo
