import WwjMuduo.TcpServer.Steps

set_option autoImplicit false

/-! # The registry of connections

What the calls of `newConnection` leave behind, over whole runs of a started server and whatever the
loops and the users do between them: the `k`-th call has the name with `k + 1`, the `k`-th of the
pool's loops in turn, and submits one `connectEstablished`. Nothing else touches the counter, the pool
or the names.

Of the arguments of `newConnection`, the peer address does not get through: the constructor
initialises `peerAddr_` from itself. -/

namespace WwjMuduo

/-- The loop of the `k`-th connection: the pool's in turn, or the base loop. -/
def EventLoopThreadPool.loopOf (numThreads k : ℕ) : LoopId :=
  (start numThreads).loops_[k % numThreads]?.getD baseLoop

namespace TcpServer

variable {s s' : TcpServer} {l : LoopId} {c : ConnId} {f : EventLoop.Functor} {write : WriteOutcome}

/-! ## What the other events leave alone -/

/-- The server as far as new connections go, with perhaps fewer connections in the map. -/
structure Frames (s s' : TcpServer) : Prop where
  name_ : s'.name_ = s.name_
  nextConnId_ : s'.nextConnId_ = s.nextConnId_
  threadPool_ : s'.threadPool_ = s.threadPool_
  made : s'.made = s.made
  lookup : ∀ name c, s'.connections_.lookup name = some c → s.connections_.lookup name = some c

namespace Frames

theorem refl (s : TcpServer) : Frames s s := ⟨rfl, rfl, rfl, rfl, fun _ _ h => h⟩

theorem trans {s'' : TcpServer} (h : Frames s s') (h' : Frames s' s'') : Frames s s'' :=
  ⟨h'.name_.trans h.name_, h'.nextConnId_.trans h.nextConnId_, h'.threadPool_.trans h.threadPool_,
    h'.made.trans h.made, fun name c hc => h.lookup name c (h'.lookup name c hc)⟩

/-- A loop of steps each of which leaves the server so. -/
theorem run {ε : Type*} {step : TcpServer → ε → Option TcpServer}
    (hstep : ∀ s e s', step s e = some s' → Frames s s') {es : List ε}
    (h : Run.run step s es = some s') : Frames s s' :=
  Run.inv_run (I := fun t => Frames s t) (fun t e t' ht he => ht.trans (hstep t e t' he)) (refl s) h

theorem removeConnectionInLoop (s : TcpServer) (c : ConnId) :
    Frames s (s.removeConnectionInLoop c) := by
  refine ⟨rfl, rfl, rfl, rfl, fun name d hd => ?_⟩
  change (s.connections_.erase (s.conn c).name_).lookup name = some d at hd
  by_cases hname : name = (s.conn c).name_
  · rw [hname, Finmap.lookup_erase] at hd
    exact absurd hd (by simp)
  · rwa [Finmap.lookup_erase_ne hname] at hd

theorem perform {e : Effect} (h : s.perform l c e = some s') : Frames s s' := by
  cases e with
  | updateChannel =>
      obtain ⟨p, -, rfl⟩ := Option.map_eq_some_iff.1 h
      exact ⟨rfl, rfl, rfl, rfl, fun _ _ h => h⟩
  | removeChannel =>
      obtain ⟨p, -, rfl⟩ := Option.map_eq_some_iff.1 h
      exact ⟨rfl, rfl, rfl, rfl, fun _ _ h => h⟩
  | closeCallback =>
      obtain rfl := Option.some.inj h
      unfold removeConnection
      split_ifs
      · exact removeConnectionInLoop s c
      · exact ⟨rfl, rfl, rfl, rfl, fun _ _ h => h⟩
  | _ =>
      obtain rfl := Option.some.inj h
      exact refl s

theorem setConn (s : TcpServer) (c : ConnId) (conn : TcpConnection) : Frames s (s.setConn c conn) :=
  ⟨rfl, rfl, rfl, rfl, fun _ _ h => h⟩

theorem setLoop (s : TcpServer) (l : LoopId) (loop : EventLoop) : Frames s (s.setLoop l loop) :=
  ⟨rfl, rfl, rfl, rfl, fun _ _ h => h⟩

theorem invoke {member : TcpConnection → Option TcpConnection}
    (h : s.invoke l c member = some s') : Frames s s' := by
  obtain ⟨conn, -, hrun⟩ := Option.bind_eq_some_iff.1 h
  exact (setConn s c conn).trans (run (fun _ _ _ => perform) hrun)

theorem call (h : s.call l f write = some s') : Frames s s' := by
  unfold TcpServer.call at h
  cases f with
  | removeConnectionInLoop c =>
      obtain rfl := Option.some.inj h
      exact removeConnectionInLoop s c
  | connectEstablished c => exact invoke h
  | connectDestroyed c => exact invoke h
  | sendInLoop c message => exact invoke h
  | shutdownInLoop c => exact invoke h

theorem runInLoop {thread : Option LoopId} (h : s.runInLoop thread l f write = some s') :
    Frames s s' := by
  unfold TcpServer.runInLoop at h
  split_ifs at h with hthread
  · exact call h
  · obtain rfl := Option.some.inj h
    exact setLoop s l _

theorem handle {readv : Buffer.ReadOutcome} {callback : Channel.Callback}
    (h : s.handle l c readv write callback = some s') : Frames s s' := by
  have hclosed : Frames s (s.markClosed c) := ⟨rfl, rfl, rfl, rfl, fun _ _ h => h⟩
  unfold TcpServer.handle at h
  cases callback with
  | close => exact hclosed.trans (invoke h)
  | error => exact invoke h
  | read =>
      simp only at h
      split_ifs at h with heof
      · exact hclosed.trans (invoke h)
      · exact invoke h
  | write => exact invoke h

end Frames

/-- A call of `newConnection`. -/
def Event.accepts : Event → Bool
  | .newConnection .. => true
  | _ => false

/-- Every other event leaves counter, pool and names alone. -/
theorem exec_frames {e : Event} (he : e.accepts = false) (h : s.exec e = some s') :
    Frames s s' := by
  cases e with
  | newConnection sockfd peerAddr localAddr memory => exact absurd he (by simp [Event.accepts])
  | dispatch l i revents readv write =>
      obtain ⟨pfd, -, h⟩ := Option.bind_eq_some_iff.1 h
      obtain ⟨c, -, h⟩ := Option.bind_eq_some_iff.1 h
      exact (Frames.setConn s c _).trans (Frames.run (fun _ _ _ => Frames.handle) h)
  | doPendingFunctors l =>
      obtain rfl := Option.some.inj h
      exact .setLoop s l _
  | callFunctor l write =>
      change s.callFunctor l write = some s' at h
      unfold callFunctor at h
      split at h
      · exact absurd h (by simp)
      · exact (Frames.setLoop s l _).trans (Frames.call h)
  | send thread c message write =>
      change s.send thread c message write = some s' at h
      unfold send at h
      simp only at h
      split_ifs at h
      · exact Frames.runInLoop h
      · obtain rfl := Option.some.inj h
        exact .refl s
  | shutdown thread c =>
      change s.shutdown thread c = some s' at h
      unfold shutdown at h
      simp only at h
      split_ifs at h
      · exact (Frames.setConn s c _).trans (Frames.runInLoop h)
      · obtain rfl := Option.some.inj h
        exact .refl s

/-! ## What `newConnection` finds -/

/-- A server that has accepted `k` connections. -/
structure Accepted (name : String) (numThreads k : ℕ) (s : TcpServer) : Prop where
  name_ : s.name_ = name
  nextConnId_ : s.nextConnId_ = k + 1
  made : s.made = k
  loops_ : s.threadPool_.loops_ = (EventLoopThreadPool.start numThreads).loops_
  next_ : numThreads ≠ 0 → s.threadPool_.next_ = k % numThreads
  names : ∀ nm c, s.connections_.lookup nm = some c → ∃ j < k, nm = connName name (j + 1)

theorem accepted_start (name : String) (numThreads : ℕ) :
    Accepted name numThreads 0 (start name numThreads) where
  name_ := rfl
  nextConnId_ := rfl
  made := rfl
  loops_ := rfl
  next_ _ := (Nat.zero_mod _).symm
  names nm c hc := absurd hc (by simp [start])

theorem Accepted.frames {name : String} {numThreads k : ℕ} (A : Accepted name numThreads k s)
    (h : Frames s s') : Accepted name numThreads k s' where
  name_ := h.name_.trans A.name_
  nextConnId_ := h.nextConnId_.trans A.nextConnId_
  made := h.made.trans A.made
  loops_ := by rw [h.threadPool_, A.loops_]
  next_ hn := by rw [h.threadPool_, A.next_ hn]
  names nm c hc := A.names nm c (h.lookup nm c hc)

end TcpServer

namespace EventLoopThreadPool

/-- The index of the next loop, and its wrap to zero. -/
theorem succ_mod_eq {n k : ℕ} (hn : n ≠ 0) :
    (if n ≤ k % n + 1 then 0 else k % n + 1) = (k + 1) % n := by
  have hlt := Nat.mod_lt k (Nat.pos_of_ne_zero hn)
  have hmod : (k + 1) % n = (k % n + 1) % n := (Nat.mod_add_mod k n 1).symm
  rw [hmod]
  split_ifs with h
  · rw [show k % n + 1 = n by omega, Nat.mod_self]
  · exact (Nat.mod_eq_of_lt (by omega)).symm

/-- `getNextLoop` of a pool that has been asked `k` times. -/
theorem getNextLoop_eq {pool : EventLoopThreadPool} {n k : ℕ}
    (hloops : pool.loops_ = (start n).loops_) (hnext : n ≠ 0 → pool.next_ = k % n) :
    ∃ pool', pool.getNextLoop = some (loopOf n k, pool') ∧ pool'.loops_ = (start n).loops_ ∧
      (n ≠ 0 → pool'.next_ = (k + 1) % n) := by
  have hlen : (start n).loops_.length = n := by simp [start]
  by_cases hn : n = 0
  · subst hn
    refine ⟨pool, ?_, hloops, fun h => absurd rfl h⟩
    rw [getNextLoop, hloops]
    rfl
  · have hlt : k % n < (start n).loops_.length := by
      rw [hlen]
      exact Nat.mod_lt k (Nat.pos_of_ne_zero hn)
    refine ⟨{ pool with next_ := (k + 1) % n }, ?_, hloops, fun _ => rfl⟩
    have hne : (start n).loops_ ≠ [] := by
      intro h
      rw [h] at hlen
      exact hn hlen.symm
    rw [← succ_mod_eq hn, getNextLoop, hloops, if_neg hne, hnext hn, loopOf,
      List.getElem?_eq_getElem hlt, hlen]
    rfl

/-- The loops of the pool are not the base loop. -/
theorem loopOf_ne_baseLoop {n : ℕ} (hn : n ≠ 0) (k : ℕ) : loopOf n k ≠ baseLoop := by
  have hlt := Nat.mod_lt k (Nat.pos_of_ne_zero hn)
  simp [loopOf, start, baseLoop, hlt]

theorem loopOf_zero (k : ℕ) : loopOf 0 k = baseLoop := rfl

end EventLoopThreadPool

namespace TcpServer

variable {s s' : TcpServer}

/-! ## What `newConnection` does -/

/-- What the `k`-th call of `newConnection` is for. -/
structure Adds (name : String) (numThreads k : ℕ) (sockfd : ℤ) (peerAddr : InetAddress)
    (s s' : TcpServer) : Prop where
  /-- The name is none of the earlier ones, -/
  fresh : ∀ j < k, connName name (j + 1) ≠ connName name (k + 1)
  /-- and the map gets one entry, under this name, for the new connection. -/
  absent : connName name (k + 1) ∉ s.connections_
  entries : s'.connections_ = s.connections_.insert (connName name (k + 1)) k
  others : ∀ d < k, s'.conn d = s.conn d
  conn_name : (s'.conn k).name_ = connName name (k + 1)
  socket : (s'.conn k).socket_ = sockfd
  fd : (s'.conn k).channel_.fd_ = sockfd
  loop : (s'.conn k).loop_ = EventLoopThreadPool.loopOf numThreads k
  peer : (s'.conn k).peerAddr_ = peerAddr
  /-- `connectEstablished` goes to the queue of that loop and to no other; on the base loop, where the
      call is made, it is called at once. -/
  queued : ∀ l, s'.queue l = s.queue l ++
    if l = EventLoopThreadPool.loopOf numThreads k ∧ l ≠ baseLoop then [.connectEstablished k] else []
  called : (s'.conn k).effects = if EventLoopThreadPool.loopOf numThreads k = baseLoop then
    [.updateChannel, .connectionCallback] else []

/-- With threads in the pool, `connectEstablished` waits in the queue of the loop whose turn it is. -/
theorem Adds.waits {name : String} {numThreads k : ℕ} {sockfd : ℤ} {peerAddr : InetAddress}
    (A : Adds name numThreads k sockfd peerAddr s s') (hn : numThreads ≠ 0) :
    s'.queue (EventLoopThreadPool.loopOf numThreads k) =
        s.queue (EventLoopThreadPool.loopOf numThreads k) ++ [.connectEstablished k] ∧
      (s'.conn k).effects = [] := by
  have hne := EventLoopThreadPool.loopOf_ne_baseLoop hn k
  rw [A.queued, A.called, if_pos ⟨rfl, hne⟩, if_neg hne]
  exact ⟨rfl, rfl⟩

/-- Without threads it has been called when `newConnection` returns, and nothing waits. -/
theorem Adds.called_at_once {name : String} {k : ℕ} {sockfd : ℤ} {peerAddr : InetAddress}
    (A : Adds name 0 k sockfd peerAddr s s') :
    s'.queue = s.queue ∧ (s'.conn k).effects = [.updateChannel, .connectionCallback] := by
  have hbase := EventLoopThreadPool.loopOf_zero k
  rw [A.called, if_pos hbase]
  refine ⟨funext fun l => ?_, rfl⟩
  rw [A.queued, if_neg fun h => h.2 (h.1.trans hbase), List.append_nil]

/-- The first call of `connectEstablished` on a new connection is defined; it changes only the channel
    and the state of its object, and has its two effects. -/
theorem call_connectEstablished_new {t : TcpServer} {c : ConnId} (l : LoopId) (write : WriteOutcome)
    (hidx : (t.conn c).channel_.index_ < 0) (heffects : (t.conn c).effects = []) :
    ∃ t', t.call l (.connectEstablished c) write = some t' ∧ t'.queue = t.queue ∧
      t'.connections_ = t.connections_ ∧ (∀ d ≠ c, t'.conn d = t.conn d) ∧
      ∃ channel, channel.fd_ = (t.conn c).channel_.fd_ ∧ t'.conn c = { t.conn c with
        state_ := .kConnected
        channel_ := channel
        effects := [.updateChannel, .connectionCallback] } := by
  obtain ⟨p, hp, hpc, hpd⟩ := updateChannel_established (l := (t.conn c).loop_) hidx
  have hcall : t.call l (.connectEstablished c) write = some
      ((t.setConn c (t.conn c).connectEstablished).setPolling (t.conn c).loop_ p) := by
    rw [call_connectEstablished, hp]
    rfl
  refine ⟨_, hcall, queue_setPolling, rfl, fun d hd => ?_, p.channel c, ?_, ?_⟩
  · show { (t.setConn c _).conn d with channel_ := p.channel d } = _
    rw [setConn_of_ne t _ hd, hpd d hd]
  · rw [hpc]
    rfl
  · have heff : (t.conn c).connectEstablished.effects = [.updateChannel, .connectionCallback] := by
      show ((t.conn c).effects ++ [_]) ++ [_] = _
      rw [heffects]
      rfl
    show { (t.setConn c _).conn c with channel_ := p.channel c } = _
    rw [setConn_self, ← heff]
    rfl

/-- The server in which `newConnection` calls `runInLoop`. -/
def withNew (s : TcpServer) (name : String) (k : ℕ) (pool : EventLoopThreadPool)
    (conn : TcpConnection) : TcpServer :=
  { s with
    nextConnId_ := s.nextConnId_ + 1
    threadPool_ := pool
    made := s.made + 1
    connections_ := s.connections_.insert (connName name (k + 1)) k }.setConn k conn

namespace Accepted

variable {name : String} {n k : ℕ} {pool : EventLoopThreadPool}

theorem fresh (name : String) (k : ℕ) : ∀ j < k, connName name (j + 1) ≠ connName name (k + 1) :=
  fun _ hj h => absurd (connName_injective h) (Nat.ne_of_lt hj)

theorem absent (A : Accepted name n k s) : connName name (k + 1) ∉ s.connections_ := by
  intro hmem
  obtain ⟨c, hc⟩ := Finmap.mem_iff.1 hmem
  obtain ⟨j, hj, hname⟩ := A.names _ c hc
  exact fresh name k j hj hname.symm

theorem withNew (A : Accepted name n k s)
    (hloops : pool.loops_ = (EventLoopThreadPool.start n).loops_)
    (hnext : n ≠ 0 → pool.next_ = (k + 1) % n) (conn : TcpConnection) :
    Accepted name n (k + 1) (s.withNew name k pool conn) := by
  refine ⟨A.name_, ?_, ?_, hloops, hnext, fun nm c hc => ?_⟩
  · show s.nextConnId_ + 1 = _
    rw [A.nextConnId_]
    push_cast
    rfl
  · show s.made + 1 = _
    rw [A.made]
  · change (s.connections_.insert (connName name (k + 1)) k).lookup nm = some c at hc
    by_cases hnm : nm = connName name (k + 1)
    · exact ⟨k, Nat.lt_succ_self k, hnm⟩
    · rw [Finmap.lookup_insert_of_ne _ hnm] at hc
      obtain ⟨j, hj, hname⟩ := A.names nm c hc
      exact ⟨j, Nat.lt_succ_of_lt hj, hname⟩

theorem newConnection_eq (A : Accepted name n k s) (hk : k + 1 < 2 ^ 31 - 1)
    (hpool : s.threadPool_.getNextLoop = some (EventLoopThreadPool.loopOf n k, pool)) (sockfd : ℤ)
    (peerAddr localAddr : InetAddress) (memory : Uninitialised) :
    s.newConnection sockfd peerAddr localAddr memory =
      (s.withNew name k pool (TcpConnection.new memory (EventLoopThreadPool.loopOf n k)
        (connName name (k + 1)) sockfd localAddr peerAddr)).runInLoop (some baseLoop)
          (EventLoopThreadPool.loopOf n k) (.connectEstablished k) (.count 0) := by
  unfold TcpServer.newConnection TcpServer.withNew
  rw [if_neg (by rw [A.nextConnId_]; omega), hpool, Option.bind_some, A.made, A.name_,
    A.nextConnId_]

/-- What is left to see once the new object is known to be the one that was made, up to its channel,
    its state and its effects. -/
theorem adds_of_new (A : Accepted name n k s) {sockfd : ℤ} (peerAddr : InetAddress)
    {localAddr : InetAddress} {memory : Uninitialised} {channel : Channel} {state : StateE}
    {effects : List Effect}
    (hnew : s'.conn k = { TcpConnection.new memory (EventLoopThreadPool.loopOf n k)
        (connName name (k + 1)) sockfd localAddr peerAddr with
      channel_ := channel
      state_ := state
      effects := effects })
    (hfd : channel.fd_ = sockfd)
    (hentries : s'.connections_ = s.connections_.insert (connName name (k + 1)) k)
    (hothers : ∀ d < k, s'.conn d = s.conn d)
    (hqueued : ∀ l, s'.queue l = s.queue l ++
      if l = EventLoopThreadPool.loopOf n k ∧ l ≠ baseLoop then [.connectEstablished k] else [])
    (hcalled : effects = if EventLoopThreadPool.loopOf n k = baseLoop then
      [.updateChannel, .connectionCallback] else []) :
    Adds name n k sockfd memory.peerAddr_ s s' where
  fresh := fresh name k
  absent := A.absent
  entries := hentries
  others := hothers
  conn_name := by rw [hnew]; rfl
  socket := by rw [hnew]; rfl
  fd := by rw [hnew]; exact hfd
  loop := by rw [hnew]; rfl
  peer := by rw [hnew]; rfl
  queued := hqueued
  called := by rw [hnew]; exact hcalled

end Accepted

/-- **One call.** On a server that has accepted `k` connections, `newConnection` is defined while the
    counter has room, and does what it is for, up to the peer address: that is what the constructor
    finds in memory. -/
theorem Accepted.newConnection {name : String} {n k : ℕ} (A : Accepted name n k s)
    (hk : k + 1 < 2 ^ 31 - 1) (sockfd : ℤ) (peerAddr localAddr : InetAddress)
    (memory : Uninitialised) :
    ∃ s', s.newConnection sockfd peerAddr localAddr memory = some s' ∧ Accepted name n (k + 1) s' ∧
      Adds name n k sockfd memory.peerAddr_ s s' := by
  obtain ⟨pool, hpool, hloops, hnext⟩ := EventLoopThreadPool.getNextLoop_eq A.loops_ A.next_
  let ioLoop := EventLoopThreadPool.loopOf n k
  let conn := TcpConnection.new memory ioLoop (connName name (k + 1)) sockfd localAddr peerAddr
  let t := s.withNew name k pool conn
  have At : Accepted name n (k + 1) t := A.withNew hloops hnext conn
  have hself : t.conn k = conn := setConn_self ..
  have hother : ∀ d < k, t.conn d = s.conn d := fun d hd => setConn_of_ne _ _ (Nat.ne_of_lt hd)
  rw [A.newConnection_eq hk hpool]
  unfold TcpServer.runInLoop
  by_cases hbase : ioLoop = baseLoop
  · -- the call is made on the base loop's thread
    rw [if_pos (congrArg some hbase.symm)]
    obtain ⟨t', ht', hqueue, hmap, hconn, channel, hfd, ht'k⟩ := call_connectEstablished_new
      (t := t) (c := k) ioLoop (.count 0) (by rw [hself]; show (-1 : ℤ) < 0; decide)
      (by rw [hself]; rfl)
    rw [hself] at hfd ht'k
    refine ⟨t', ht', At.frames (Frames.call ht'), A.adds_of_new peerAddr ht'k hfd ?_ (fun d hd => ?_)
      (fun l => ?_) (if_pos hbase).symm⟩
    · rw [hmap]
      rfl
    · rw [hconn d (Nat.ne_of_lt hd), hother d hd]
    · rw [hqueue, if_neg fun h => h.2 (h.1.trans hbase), List.append_nil]
      rfl
  · rw [if_neg fun h => hbase (Option.some.inj h).symm]
    refine ⟨_, rfl, At.frames (.setLoop t _ _), A.adds_of_new peerAddr hself rfl rfl hother
      (fun l => ?_) (if_neg hbase).symm⟩
    by_cases hl : l = ioLoop
    · subst hl
      rw [if_pos ⟨rfl, hbase⟩, queue, queueInLoop, setLoop_self, ← List.append_assoc]
      rfl
    · rw [if_neg fun h => hl h.1, queue, queueInLoop, setLoop_of_ne _ _ hl, List.append_nil]
      rfl

/-! ## Over a run -/

/-- An event counts the connection it accepts, and the counter had room for it. -/
theorem Accepted.exec {name : String} {n k : ℕ} {e : Event} (A : Accepted name n k s)
    (h : s.exec e = some s') :
    Accepted name n (k + if e.accepts then 1 else 0) s' := by
  cases e with
  | newConnection sockfd peerAddr localAddr memory =>
      have hk : k + 1 < 2 ^ 31 - 1 := by
        by_contra hfull
        change s.newConnection sockfd peerAddr localAddr memory = some s' at h
        rw [TcpServer.newConnection, if_pos (by rw [A.nextConnId_]; omega)] at h
        exact absurd h (by simp)
      obtain ⟨s₁, hs₁, A₁, -⟩ := A.newConnection hk sockfd peerAddr localAddr memory
      obtain rfl : s₁ = s' := Option.some.inj (hs₁.symm.trans h)
      exact A₁
  | dispatch l i revents readv write => exact A.frames (exec_frames rfl h)
  | doPendingFunctors l => exact A.frames (exec_frames rfl h)
  | callFunctor l write => exact A.frames (exec_frames rfl h)
  | send thread c message write => exact A.frames (exec_frames rfl h)
  | shutdown thread c => exact A.frames (exec_frames rfl h)

theorem Accepted.run {name : String} {n k : ℕ} {es : List Event} (A : Accepted name n k s)
    (h : Run.run TcpServer.exec s es = some s') :
    Accepted name n (k + es.countP Event.accepts) s' := by
  induction es generalizing s k with
  | nil =>
      obtain rfl : s = s' := Option.some.inj h
      exact A
  | cons e es ih =>
      obtain ⟨s₁, h₁, hrest⟩ := Run.run_cons_eq_some.1 h
      have A' := ih (A.exec h₁) hrest
      rw [List.countP_cons, Nat.add_comm (es.countP _), ← Nat.add_assoc]
      exact A'

/-- A sequence of nothing but calls of `newConnection` is defined while the counter has room. -/
theorem run_newConnection_defined (name : String) (n : ℕ) {es : List Event}
    (hall : ∀ e ∈ es, e.accepts = true) (hlen : es.length < 2 ^ 31 - 1) :
    ∃ s, Run.run exec (start name n) es = some s := by
  have hrun : ∀ es : List Event, (∀ e ∈ es, e.accepts = true) → ∀ k s, Accepted name n k s →
      k + es.length < 2 ^ 31 - 1 → ∃ s', Run.run exec s es = some s' := by
    intro es
    induction es with
    | nil => exact fun _ k s _ _ => ⟨s, rfl⟩
    | cons e es ih =>
        intro hall k s A hk
        rw [List.length_cons] at hk
        obtain ⟨he, hes⟩ := List.forall_mem_cons.1 hall
        cases e with
        | newConnection sockfd peerAddr localAddr memory =>
            obtain ⟨s₁, hs₁, A₁, -⟩ :=
              A.newConnection (by omega) sockfd peerAddr localAddr memory
            obtain ⟨s', hs'⟩ := ih hes (k + 1) s₁ A₁ (by omega)
            exact ⟨s', Run.run_cons_eq_some.2 ⟨s₁, hs₁, hs'⟩⟩
        | _ => exact absurd he (by simp [Event.accepts])
  exact hrun es hall 0 _ (accepted_start name n) (by omega)

/-- The bytes in memory where `peerAddr_` will be are those of the peer's address. -/
def Event.PeerFound : Event → Prop
  | .newConnection _ peerAddr _ memory => memory.peerAddr_ = peerAddr
  | _ => True

/-- **The registry.** In every run of a started server with fewer than `2 ^ 31 - 1` new connections,
    each call of `newConnection` does all it is for exactly if at each the memory of the new object
    happens to hold the peer's address. -/
theorem registry_iff (name : String) (n : ℕ) {es : List Event}
    (hlen : es.countP Event.accepts < 2 ^ 31 - 1) :
    (∀ pre sockfd peerAddr localAddr memory s,
      pre ++ [.newConnection sockfd peerAddr localAddr memory] <+: es →
      Run.run exec (start name n) pre = some s →
      ∃ s', exec s (.newConnection sockfd peerAddr localAddr memory) = some s' ∧
        Adds name n (pre.countP Event.accepts) sockfd peerAddr s s') ↔
    Run.Meets exec (fun _ e => e.PeerFound) (start name n) es := by
  have hcall : ∀ pre sockfd peerAddr localAddr memory s,
      pre ++ [.newConnection sockfd peerAddr localAddr memory] <+: es →
      Run.run exec (start name n) pre = some s →
      ∃ s', exec s (.newConnection sockfd peerAddr localAddr memory) = some s' ∧
        Adds name n (pre.countP Event.accepts) sockfd memory.peerAddr_ s s' := by
    intro pre sockfd peerAddr localAddr memory s hpre hrun
    have A := (accepted_start name n).run hrun
    rw [Nat.zero_add] at A
    have hroom := hpre.sublist.countP_le (p := Event.accepts)
    rw [List.countP_append] at hroom
    simp only [List.countP_singleton, Event.accepts, if_true] at hroom
    obtain ⟨s', hs', -, hadds⟩ :=
      A.newConnection (by omega) sockfd peerAddr localAddr memory
    exact ⟨s', hs', hadds⟩
  rw [Run.meets_iff_prefix]
  constructor
  · intro h pre e s₁ s₂ hpre hrun hstep
    cases e with
    | newConnection sockfd peerAddr localAddr memory =>
        obtain ⟨s', hs', hmeant⟩ := h pre sockfd peerAddr localAddr memory s₁ hpre hrun
        obtain ⟨s'', hs'', hfound⟩ := hcall pre sockfd peerAddr localAddr memory s₁ hpre hrun
        obtain rfl : s' = s'' := Option.some.inj (hs'.symm.trans hs'')
        exact hfound.peer.symm.trans hmeant.peer
    | _ => trivial
  · intro h pre sockfd peerAddr localAddr memory s hpre hrun
    obtain ⟨s', hs', hadds⟩ := hcall pre sockfd peerAddr localAddr memory s hpre hrun
    have hfound : memory.peerAddr_ = peerAddr := h pre _ s s' hpre hrun hs'
    rw [← hfound]
    exact ⟨s', hs', hadds⟩

/-- Two connections over memory that holds the peers' addresses, on a pool of two loops. -/
theorem registry_iff_two : ∃ addr addr' : InetAddress, addr ≠ addr' ∧
    (∀ pre sockfd peerAddr localAddr memory s,
      pre ++ [.newConnection sockfd peerAddr localAddr memory] <+:
        [.newConnection 7 addr ⟨.zero⟩ (.asMeant addr),
          .newConnection 9 addr' ⟨.zero⟩ (.asMeant addr')] →
      Run.run exec (start "server" 2) pre = some s →
      ∃ s', exec s (.newConnection sockfd peerAddr localAddr memory) = some s' ∧
        Adds "server" 2 (pre.countP Event.accepts) sockfd peerAddr s s') :=
  ⟨⟨⟨2, 80, 1⟩⟩, ⟨⟨2, 80, 2⟩⟩, by decide,
    (registry_iff "server" 2 (by decide)).2 fun _ _ => ⟨rfl, fun _ _ => ⟨rfl, trivial⟩⟩⟩

/-- The first connection, from one peer, over memory that is zero: it reports the zero address. -/
theorem peer_address_is_memory : ∃ (peerAddr : InetAddress) (s' : TcpServer),
    exec (start "server" 2) (.newConnection 7 peerAddr ⟨.zero⟩ (.asMeant ⟨.zero⟩)) =
      some s' ∧
    s'.connections_.lookup "server#1" = some 0 ∧ (s'.conn 0).peerAddr_ = ⟨.zero⟩ ∧
    (s'.conn 0).peerAddr_ ≠ peerAddr ∧
    ¬ Adds "server" 2 0 7 peerAddr (start "server" 2) s' := by
  refine ⟨⟨⟨2, 80, 1⟩⟩, _, rfl, by decide, rfl, by decide, fun h => ?_⟩
  exact absurd h.peer (by decide)

end TcpServer

end WwjMuduo
