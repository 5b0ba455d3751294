import WwjMuduo.TcpServer.Sound

set_option autoImplicit false

/-! # Every step keeps the invariant

First the functors: a functor that is called leaves the queue, and `connectEstablished` is the only
one that changes where a connection is. Then the events, which call functors, queue them, or
dispatch to the handlers of an established connection. -/

namespace WwjMuduo

namespace TcpServer

/-! ## The functors -/

/-- What `connectEstablished` does: it adds an entry for its channel to the poller of the loop, and
    touches no other connection and no other entry. -/
structure Establishes (l : LoopId) (c : ConnId) (s s' : TcpServer) : Prop where
  name_ : s'.name_ = s.name_
  nextConnId_ : s'.nextConnId_ = s.nextConnId_
  connections_ : s'.connections_ = s.connections_
  made : s'.made = s.made
  closed : s'.closed = s.closed
  queue : s'.queue = s.queue
  other : ∀ d ≠ c, s'.conn d = s.conn d
  name : (s'.conn c).name_ = (s.conn c).name_
  loop : (s'.conn c).loop_ = (s.conn c).loop_
  socket : (s'.conn c).socket_ = (s.conn c).socket_
  fd : (s'.conn c).channel_.fd_ = (s.conn c).channel_.fd_
  state : (s'.conn c).state_ = .kConnected
  callbacks : (s'.conn c).effects.count .connectionCallback =
    (s.conn c).effects.count .connectionCallback + 1
  reads : (s'.conn c).channel_.Reads
  established : s'.Established c
  poller : ∀ l' ≠ l, (s'.loops l').poller_ = (s.loops l').poller_
  table : (s'.polling l).IndexTable (insert c (s.registered l))
  entry : ∃ pfd, (s'.polling l).entry c = some pfd ∧ pfd.fd = (s.conn c).channel_.fd_
  entries : ∀ d ∈ s.registered l, (s'.polling l).entry d = (s.polling l).entry d

section Call

variable {s s' : TcpServer} {l : LoopId} {c : ConnId} {f : EventLoop.Functor} {write : WriteOutcome}

/-- A call of `connectEstablished` changes the object, updates its channel in the poller, and then
    calls the user. -/
theorem call_connectEstablished :
    s.call l (.connectEstablished c) write =
      (((s.setConn c (s.conn c).connectEstablished).polling (s.conn c).loop_).updateChannel c).map
        ((s.setConn c (s.conn c).connectEstablished).setPolling (s.conn c).loop_) := by
  have heffects : (s.conn c).connectEstablished.effects.drop (s.conn c).effects.length =
      [.updateChannel, .connectionCallback] := by
    show ((_ ++ [Effect.updateChannel]) ++ [Effect.connectionCallback]).drop _ = _
    rw [List.append_assoc]
    exact List.drop_left
  have hloop : ((s.setConn c (s.conn c).connectEstablished).conn c).loop_ = (s.conn c).loop_ := by
    rw [setConn_self]
    rfl
  change Run.run (perform l c) (s.setConn c (s.conn c).connectEstablished)
    ((s.conn c).connectEstablished.effects.drop _) = _
  rw [heffects, Run.run_cons]
  simp only [perform, hloop]
  cases ((s.setConn c (s.conn c).connectEstablished).polling (s.conn c).loop_).updateChannel c with
  | none => rfl
  | some p => rfl

/-- The update that `connectEstablished` makes: a channel without an index gets one, and reads. -/
theorem updateChannel_established (hidx : (s.conn c).channel_.index_ < 0) :
    ∃ p, ((s.setConn c (s.conn c).connectEstablished).polling l).updateChannel c = some p ∧
      p.channel c =
        (s.conn c).channel_.enableReading.set_index (s.loops l).poller_.pollfds_.length ∧
      ∀ d ≠ c, p.channel d = (s.conn d).channel_ := by
  let t := (s.setConn c (s.conn c).connectEstablished).polling l
  have htc : t.channel c = (s.conn c).channel_.enableReading := by
    show ((s.setConn c (s.conn c).connectEstablished).conn c).channel_ = _
    rw [setConn_self]
    rfl
  have htd : ∀ d ≠ c, t.channel d = (s.conn d).channel_ := by
    intro d hd
    show ((s.setConn c (s.conn c).connectEstablished).conn d).channel_ = _
    rw [setConn_of_ne s _ hd]
  refine ⟨_, Polling.updateChannel_new (s := t) (by rw [htc]; exact hidx), ?_, fun d hd => ?_⟩
  · simp only [Function.update_self, htc]
    rfl
  · simp only [Function.update_of_ne hd, htd d hd]

theorem Sound.establishes {q : LoopId → List EventLoop.Functor} (S : Sound s q) (hc : c < s.made)
    (hloop : (s.conn c).loop_ = l) (hnew : ¬ s.Established c)
    (h : s.call l (.connectEstablished c) write = some s') : Establishes l c s s' := by
  have hne : ∀ d ∈ s.registered l, d ≠ c := by
    rintro d hd rfl
    exact hnew hd.2.2
  let conn' := (s.conn c).connectEstablished
  let t := (s.setConn c conn').polling l
  have htc : t.channel c = (s.conn c).channel_.enableReading := by
    show ((s.setConn c conn').conn c).channel_ = _
    rw [setConn_self]
    rfl
  have htd : ∀ d ≠ c, t.channel d = (s.conn d).channel_ := by
    intro d hd
    show ((s.setConn c conn').conn d).channel_ = _
    rw [setConn_of_ne s conn' hd]
  have hidx : (t.channel c).index_ < 0 := by
    rw [htc]
    exact not_le.1 hnew
  have hfd : (t.channel c).fd_ = (s.conn c).socket_ := by
    rw [htc]
    exact (S.lives c hc).fd
  have hT : t.IndexTable (s.registered l) := by
    refine (S.table l).congr rfl fun d hd => ?_
    rw [htd d (hne d hd)]
    exact ⟨rfl, rfl⟩
  obtain ⟨p, hp, hpc, hpd⟩ := updateChannel_established (l := l) (not_le.1 hnew)
  obtain rfl : (s.setConn c conn').setPolling l p = s' := by
    rw [call_connectEstablished, hloop] at h
    rw [show ((s.setConn c conn').polling l).updateChannel c = some p from hp] at h
    exact Option.some.inj h
  have hconnc : ((s.setConn c conn').setPolling l p).conn c =
      { conn' with channel_ := p.channel c } := by
    show { (s.setConn c conn').conn c with channel_ := p.channel c } = _
    rw [setConn_self]
  have hconnd : ∀ d ≠ c, ((s.setConn c conn').setPolling l p).conn d = s.conn d := by
    intro d hd
    show { (s.setConn c conn').conn d with channel_ := p.channel d } = _
    rw [setConn_of_ne s conn' hd, hpd d hd]
  refine ⟨rfl, rfl, rfl, rfl, rfl, queue_setPolling, hconnd, ?_, ?_, ?_, ?_, ?_, ?_, ?_, ?_, ?_, ?_,
    ?_, ?_⟩
  · rw [hconnc]
    rfl
  · rw [hconnc]
    rfl
  · rw [hconnc]
    rfl
  · rw [hconnc, hpc]
    rfl
  · rw [hconnc]
    rfl
  · rw [hconnc]
    show ((_ ++ [_]) ++ [_]).count _ = _
    rw [List.count_append, List.count_append]
    rfl
  · rw [hconnc, hpc]
    exact Channel.reads_enableReading _
  · rw [Established, hconnc, hpc]
    exact Int.natCast_nonneg _
  · intro l' hl'
    rw [loops_setPolling_of_ne hl']
    rfl
  · rw [polling_setPolling_self]
    refine hT.updateChannel_new hidx (by rw [hfd]; exact (S.lives c hc).fd_nonneg) ?_ hp
    intro d hd
    rw [htd d (hne d hd), hfd, (S.lives d hd.1).fd]
    exact fun h => hne d hd (S.fd_inj d hd.1 c hc h)
  · rw [polling_setPolling_self]
    refine ⟨_, Polling.entry_updateChannel_new hidx hp, ?_⟩
    show (t.channel c).fd_ = _
    rw [hfd, (S.lives c hc).fd]
  · intro d hd
    rw [polling_setPolling_self,
      Polling.entry_updateChannel_of_ne hT hd (hne d hd) (.inr hidx) hp]
    refine entry_congr rfl ?_
    rw [setConn_of_ne s conn' (hne d hd)]

namespace Establishes

variable (E : Establishes l c s s')
include E

theorem established_iff (d : ConnId) : s'.Established d ↔ d = c ∨ s.Established d := by
  by_cases hd : d = c
  · subst hd
    simp [E.established]
  · rw [Established, E.other d hd, Established]
    simp [hd]

theorem loops_eq (d : ConnId) : (s'.conn d).loop_ = (s.conn d).loop_ := by
  by_cases hd : d = c
  · rw [hd, E.loop]
  · rw [E.other d hd]

theorem sockets_eq (d : ConnId) : (s'.conn d).socket_ = (s.conn d).socket_ := by
  by_cases hd : d = c
  · rw [hd, E.socket]
  · rw [E.other d hd]

theorem mem_registered {d : ConnId} {l' : LoopId} :
    d ∈ s'.registered l' ↔ d < s.made ∧ (s.conn d).loop_ = l' ∧ (d = c ∨ s.Established d) := by
  rw [registered, Set.mem_ofPred_eq, E.made, E.loops_eq, E.established_iff]

/-- The tables of all loops: the connection is in that of its own, the others are as they were. -/
theorem tables {q : LoopId → List EventLoop.Functor} (S : Sound s q) (hc : c < s.made)
    (hloop : (s.conn c).loop_ = l) (l' : LoopId) :
    (s'.polling l').IndexTable (s'.registered l') := by
  by_cases hl : l' = l
  · have hreg : s'.registered l' = insert c (s.registered l) := by
      ext d
      rw [E.mem_registered, Set.mem_insert_iff, hl]
      constructor
      · rintro ⟨hd, hdl, rfl | hde⟩
        · exact .inl rfl
        · exact .inr ⟨hd, hdl, hde⟩
      · rintro (rfl | ⟨hd, hdl, hde⟩)
        · exact ⟨hc, hloop, .inl rfl⟩
        · exact ⟨hd, hdl, .inr hde⟩
    rw [hreg, hl]
    exact E.table
  · have hdc : ∀ d, (s.conn d).loop_ = l' → d ≠ c := by
      rintro d hdl rfl
      exact hl (hdl.symm.trans hloop)
    have hreg : s'.registered l' = s.registered l' := by
      ext d
      rw [E.mem_registered]
      constructor
      · rintro ⟨hd, hdl, hde⟩
        exact ⟨hd, hdl, hde.resolve_left (hdc d hdl)⟩
      · rintro ⟨hd, hdl, hde⟩
        exact ⟨hd, hdl, .inr hde⟩
    rw [hreg]
    refine (S.table l').congr (E.poller l' hl) fun d hd => ?_
    show (s'.conn d).channel_.fd_ = (s.conn d).channel_.fd_ ∧
      (s'.conn d).channel_.index_ = (s.conn d).channel_.index_
    rw [E.other d (hdc d hd.2.1)]
    exact ⟨rfl, rfl⟩

/-- The connection runs from now on. -/
theorem lives_self {q q' : LoopId → List EventLoop.Functor} (H : s.Lives q c)
    (hloop : (s.conn c).loop_ = l) (hnew : ¬ s.Established c) : s'.Lives q' c := by
  constructor
  case name =>
    rw [E.name, E.name_]
    exact H.name
  case present =>
    rw [E.name, E.connections_]
    exact H.present
  case fd_nonneg =>
    rw [E.socket]
    exact H.fd_nonneg
  case fd =>
    rw [E.fd, E.socket]
    exact H.fd
  case running =>
    refine fun _ => ⟨.inl E.state, ?_, fun _ => ⟨E.reads, ?_⟩⟩
    · rw [E.callbacks, List.count_eq_zero.2 (H.fresh hnew)]
    · rw [E.loop, hloop, E.fd]
      exact E.entry
  case fresh => exact fun h => absurd E.established h
  case waiting => exact fun h => absurd E.established h

theorem lives_other {d : ConnId} (H : s.Lives (s.hand l (.connectEstablished c)) d)
    (hd : d < s.made) (hdc : d ≠ c) : s'.Lives s'.queue d := by
  have hsame := E.other d hdc
  refine H.congr E.name_ (by rw [E.connections_]; exact H.present) hsame (fun he h => ?_)
    (by rw [E.closed]; exact fun h => h) ?_
  · refine h.congr hsame ?_
    by_cases hl : (s.conn d).loop_ = l
    · rw [hl]
      exact E.entries d ⟨hd, hl, he⟩
    · exact entry_congr (by rw [E.poller _ hl]) (by rw [hsame])
  · rw [E.queue]
    exact (count_hand_of_ne fun h => hdc (EventLoop.Functor.connectEstablished.inj h)).symm

end Establishes

/-- `connectEstablished` is called once. -/
theorem Sound.connectEstablished (S : Sound s (s.hand l (.connectEstablished c)))
    (h : s.call l (.connectEstablished c) write = some s') : Sound s' s'.queue := by
  obtain ⟨hc, hloop, hnew⟩ := S.valid l _ (mem_hand.2 (.inl ⟨rfl, rfl⟩))
  have E := S.establishes hc hloop hnew h
  -- It waited once, and that was in the hand.
  have hgone : .connectEstablished c ∉ s.queue l := by
    have hone := (S.lives c hc).waiting hnew
    rw [hloop, count_hand_self] at hone
    exact List.count_eq_zero.1 (by omega)
  constructor
  case counter =>
    rw [E.nextConnId_, E.made]
    exact S.counter
  case lives =>
    intro d hd
    rw [E.made] at hd
    by_cases hdc : d = c
    · subst hdc
      exact E.lives_self (S.lives d hd) hloop hnew
    · exact E.lives_other (S.lives d hd) hd hdc
  case fd_inj =>
    intro d hd e he h
    rw [E.made] at hd he
    rw [E.sockets_eq, E.sockets_eq] at h
    exact S.fd_inj d hd e he h
  case table => exact E.tables S hc hloop
  case valid =>
    intro l' g hg
    rw [E.queue] at hg
    have hv := S.valid l' g (mem_hand.2 (.inr hg))
    refine hv.mono E.made.ge (fun d _ => E.loops_eq d) (fun d _ h => (E.established_iff d).2 (.inr h))
      ?_
    -- The functor that has just been called waits no more.
    rintro d hd rfl hde
    refine ((E.established_iff d).1 hde).resolve_left ?_
    rintro rfl
    exact hgone (by rw [← hloop, hv.2.1]; exact hg)
  case closed =>
    rw [E.closed, E.made]
    exact S.closed

/-- A functor of an established connection. -/
theorem Sound.call_serving (S : Sound s (s.hand l f)) (hne : ∀ c, f ≠ .connectEstablished c)
    (hc : c ∈ s.registered l) (member : TcpConnection → Option TcpConnection)
    (hmember : ∀ conn', member (s.conn c) = some conn' → (s.conn c).Handles false conn')
    (h : s.invoke l c member = some s') : Sound s' s'.queue := by
  have H : Serving s.queue s.queue l c s := ⟨S.drop hne, hc, rfl⟩
  have H' := H.invoke member false (fun h => absurd h Bool.false_ne_true) hmember h
  rw [H'.queue]
  exact H'.sound

/-- A call of a functor takes it out of the hand. -/
theorem Sound.call (S : Sound s (s.hand l f)) (h : s.call l f write = some s') :
    Sound s' s'.queue := by
  have hv : s.Valid l f := S.valid l f (mem_hand.2 (.inl ⟨rfl, rfl⟩))
  cases f with
  | connectEstablished c => exact S.connectEstablished h
  | connectDestroyed c => exact hv.elim
  | removeConnectionInLoop c => exact hv.elim
  | sendInLoop c message =>
      exact S.call_serving (fun _ => by simp) hv (fun conn => conn.sendInLoop message write)
        (fun _ => TcpConnection.handles_sendInLoop) h
  | shutdownInLoop c =>
      refine S.call_serving (fun _ => by simp) hv (fun conn => some conn.shutdownInLoop) ?_ h
      intro conn' hconn'
      rw [← Option.some.inj hconn']
      exact TcpConnection.handles_shutdownInLoop _

/-- `runInLoop` calls a functor or queues it. -/
theorem Sound.runInLoop {thread : Option LoopId} (S : Sound s (s.hand l f))
    (h : s.runInLoop thread l f write = some s') : Sound s' s'.queue := by
  unfold TcpServer.runInLoop at h
  split_ifs at h with hthread
  · exact S.call h
  · rw [← Option.some.inj h]
    have S' : Sound (s.queueInLoop l f) (s.hand l f) := S.setLoop rfl
    exact S'.perm fun l' => queue_queueInLoop_perm

/-- `doPendingFunctors` takes the batch. -/
theorem Sound.doPendingFunctors (S : Sound s s.queue) (h : (s.loops l).functors = []) :
    Sound (s.doPendingFunctors l) (s.doPendingFunctors l).queue := by
  have hqueue : (s.doPendingFunctors l).queue = s.queue := by
    funext l'
    unfold TcpServer.doPendingFunctors queue
    by_cases hl : l' = l
    · rw [hl, setLoop_self, h]
      simp
    · rw [setLoop_of_ne s _ hl]
  rw [hqueue]
  exact S.setLoop rfl

/-- The loop in `doPendingFunctors` takes a functor in its hand and calls it. -/
theorem Sound.callFunctor (S : Sound s s.queue) (h : s.callFunctor l write = some s') :
    Sound s' s'.queue := by
  unfold TcpServer.callFunctor at h
  cases hf : (s.loops l).functors with
  | nil =>
      rw [hf] at h
      exact absurd h (by simp)
  | cons f rest =>
      rw [hf] at h
      let t := s.setLoop l { s.loops l with functors := rest }
      have hqueue : t.hand l f = s.queue := by
        funext l'
        unfold TcpServer.hand queue
        by_cases hl : l' = l
        · rw [if_pos hl, hl, hf, setLoop_self]
          rfl
        · rw [if_neg hl, setLoop_of_ne s _ hl]
      have St : Sound t (t.hand l f) := by
        rw [hqueue]
        exact S.setLoop rfl
      exact St.call h

end Call

/-! ## The steps -/

section Step

variable {s s' : TcpServer} {l : LoopId} {c : ConnId} {write : WriteOutcome}
  {readv : Buffer.ReadOutcome}

theorem Serving.handle {q r : LoopId → List EventLoop.Functor} {callback : Channel.Callback}
    (H : Serving q r l c s) (h : s.handle l c readv write callback = some s') :
    Serving q r l c s' := by
  have hclosed : Serving q r l c (s.markClosed c) :=
    ⟨H.sound.markClosed H.registered.1, H.registered, H.queue⟩
  have hopen : false = true → c ∈ s.closed := fun h => absurd h Bool.false_ne_true
  cases callback with
  | close =>
      refine hclosed.invoke (fun conn => some conn.handleClose) true (fun _ => List.mem_cons_self)
        ?_ h
      intro conn' hconn'
      -- The handler only disables the channel: the close callback that would take it out is not run.
      rw [← Option.some.inj hconn']
      exact TcpConnection.handles_handleClose _
  | error =>
      refine H.invoke (fun conn => some conn.handleError) false hopen ?_ h
      intro conn' hconn'
      rw [← Option.some.inj hconn']
      exact .refl _
  | read =>
      unfold TcpServer.handle at h
      by_cases heof : eof readv = true
      · rw [if_pos heof] at h
        exact hclosed.invoke (fun conn => conn.handleRead readv) _ (fun _ => List.mem_cons_self)
          (fun _ => TcpConnection.handles_handleRead) h
      · rw [if_neg heof] at h
        exact H.invoke (fun conn => conn.handleRead readv) _ (fun he => absurd he heof)
          (fun _ => TcpConnection.handles_handleRead) h
  | write =>
      exact H.invoke (fun conn => conn.handleWrite write) false hopen
        (fun _ => TcpConnection.handles_handleWrite) h

/-- The channel that a loop finds under a polled descriptor belongs to an established connection. -/
theorem Sound.dispatch {i : ℕ} {revents : BitVec 16} (S : Sound s s.queue)
    (h : s.dispatch l i revents readv write = some s') : Sound s' s'.queue := by
  unfold TcpServer.dispatch at h
  obtain ⟨pfd, -, h⟩ := Option.bind_eq_some_iff.1 h
  obtain ⟨c, hc, hrun⟩ := Option.bind_eq_some_iff.1 h
  obtain ⟨hreg, -⟩ := (S.table l).owner _ c hc
  let conn' : TcpConnection :=
    { s.conn c with channel_ := (s.conn c).channel_.set_revents (revents.signExtend 32) }
  have hset : Serving s.queue s.queue l c (s.setConn c conn') := by
    refine ⟨S.setConn hreg ⟨rfl, rfl, rfl, rfl, rfl⟩ ?_ rfl fun _ hr => hr, ?_, rfl⟩
    · exact ((S.lives c hreg.1).running hreg.2.2).state
    · refine ⟨hreg.1, ?_, ?_⟩
      · rw [setConn_self]
        exact hreg.2.1
      · rw [Established, setConn_self]
        exact hreg.2.2
  have H := Run.inv_run (fun t callback t' ht => ht.handle) hset hrun
  rw [H.queue]
  exact H.sound

/-- A connection the user has got is established. -/
theorem Sound.established_of_callback {q : LoopId → List EventLoop.Functor} (S : Sound s q)
    (hc : c < s.made) (h : .connectionCallback ∈ (s.conn c).effects) : s.Established c := by
  by_contra hne
  exact (S.lives c hc).fresh hne h

theorem Sound.send {thread : Option LoopId} {message : List UInt8} (S : Sound s s.queue)
    (hc : c < s.made) (hcallback : .connectionCallback ∈ (s.conn c).effects)
    (h : s.send thread c message write = some s') : Sound s' s'.queue := by
  unfold TcpServer.send at h
  simp only at h
  split_ifs at h
  · have hv : s.Valid (s.conn c).loop_ (.sendInLoop c message) :=
      ⟨hc, rfl, S.established_of_callback hc hcallback⟩
    exact (S.hand hv fun _ => by simp).runInLoop h
  · rw [← Option.some.inj h]
    exact S

theorem Sound.shutdown {thread : Option LoopId} (S : Sound s s.queue) (hc : c < s.made)
    (hcallback : .connectionCallback ∈ (s.conn c).effects)
    (h : s.shutdown thread c = some s') : Sound s' s'.queue := by
  unfold TcpServer.shutdown at h
  simp only at h
  split_ifs at h
  · have he := S.established_of_callback hc hcallback
    let t := s.setConn c ((s.conn c).setState .kDisconnecting)
    have St : Sound t t.queue :=
      S.setConn ⟨hc, rfl, he⟩ ⟨rfl, rfl, rfl, rfl, rfl⟩ (.inr rfl) rfl fun _ hr => hr
    have hv : t.Valid (s.conn c).loop_ (.shutdownInLoop c) := by
      refine ⟨hc, ?_, ?_⟩
      · rw [setConn_self]
        rfl
      · rw [Established, setConn_self]
        exact he
    exact (St.hand hv fun _ => by simp).runInLoop h
  · rw [← Option.some.inj h]
    exact S

/-- What `newConnection` has done when it comes to `runInLoop`. -/
structure Accepts (sockfd : ℤ) (ioLoop : LoopId) (s t : TcpServer) : Prop where
  name_ : t.name_ = s.name_
  nextConnId_ : t.nextConnId_ = s.nextConnId_ + 1
  connections_ : t.connections_ = s.connections_.insert (connName s.name_ s.nextConnId_) s.made
  made : t.made = s.made + 1
  closed : t.closed = s.closed
  loops : t.loops = s.loops
  other : ∀ d < s.made, t.conn d = s.conn d
  new : ∃ memory localAddr peerAddr, t.conn s.made =
    .new memory ioLoop (connName s.name_ s.nextConnId_) sockfd localAddr peerAddr

theorem newConnection_eq_some {sockfd : ℤ} {peerAddr localAddr : InetAddress}
    {memory : Uninitialised} (h : s.newConnection sockfd peerAddr localAddr memory = some s') :
    ∃ ioLoop t, Accepts sockfd ioLoop s t ∧
      t.runInLoop (some baseLoop) ioLoop (.connectEstablished s.made) (.count 0) = some s' := by
  unfold TcpServer.newConnection at h
  split_ifs at h
  obtain ⟨⟨ioLoop, pool⟩, -, h⟩ := Option.bind_eq_some_iff.1 h
  let name := connName s.name_ s.nextConnId_
  let t : TcpServer := { s with
    nextConnId_ := s.nextConnId_ + 1
    threadPool_ := pool
    made := s.made + 1
    connections_ := s.connections_.insert name s.made }.setConn s.made
      (.new memory ioLoop name sockfd localAddr peerAddr)
  refine ⟨ioLoop, t, ⟨rfl, rfl, rfl, rfl, rfl, rfl, fun d hd => ?_, memory, localAddr, peerAddr, ?_⟩,
    h⟩
  · exact Function.update_of_ne (Nat.ne_of_lt hd) ..
  · exact Function.update_self ..

namespace Accepts

variable {sockfd : ℤ} {ioLoop : LoopId} {t : TcpServer} (A : Accepts sockfd ioLoop s t)
include A

theorem not_established : ¬ t.Established s.made := by
  obtain ⟨memory, localAddr, peerAddr, hself⟩ := A.new
  rw [Established, hself]
  show ¬ (0 : ℤ) ≤ -1
  decide

theorem established_iff {d : ConnId} (hd : d < s.made) : t.Established d ↔ s.Established d := by
  rw [Established, A.other d hd, Established]

theorem lt_or_eq {d : ConnId} (hd : d < t.made) : d < s.made ∨ d = s.made := by
  rw [A.made] at hd
  exact Nat.lt_succ_iff_lt_or_eq.1 hd

theorem hand_eq (f : EventLoop.Functor) : t.hand ioLoop f = s.hand ioLoop f := by
  funext l'
  unfold hand queue
  rw [A.loops]

theorem registered_eq (l' : LoopId) : t.registered l' = s.registered l' := by
  ext d
  constructor
  · rintro ⟨hd, hloop, he⟩
    rcases A.lt_or_eq hd with hlt | rfl
    · rw [A.other d hlt] at hloop
      exact ⟨hlt, hloop, (A.established_iff hlt).1 he⟩
    · exact absurd he A.not_established
  · rintro ⟨hd, hloop, he⟩
    refine ⟨?_, ?_, (A.established_iff hd).2 he⟩
    · rw [A.made]
      exact Nat.lt_succ_of_lt hd
    · rw [A.other d hd]
      exact hloop

/-- The new connection waits for `connectEstablished`. -/
theorem lives_new (S : Sound s s.queue) (hsockfd : 0 ≤ sockfd) :
    t.Lives (s.hand ioLoop (.connectEstablished s.made)) s.made := by
  obtain ⟨memory, localAddr, peerAddr, hself⟩ := A.new
  constructor
  case name =>
    rw [hself, A.name_]
    show connName s.name_ s.nextConnId_ = connName s.name_ _
    rw [S.counter]
  case present =>
    rw [hself, A.connections_]
    exact Finmap.lookup_insert _
  case fd_nonneg =>
    rw [hself]
    exact hsockfd
  case fd =>
    rw [hself]
    rfl
  case running => exact fun h => absurd h A.not_established
  case fresh =>
    rw [hself]
    exact fun _ => List.not_mem_nil
  case waiting =>
    intro _
    have hnone : .connectEstablished s.made ∉ s.queue ioLoop := fun hmem =>
      absurd (S.valid ioLoop _ hmem).1 (Nat.lt_irrefl _)
    rw [hself]
    show (s.hand ioLoop _ ioLoop).count _ = 1
    rw [count_hand_self]
    exact congrArg (· + 1) (List.count_eq_zero.2 hnone)

/-- The others keep their places in the map, since the new name is not theirs. -/
theorem lives_other (S : Sound s s.queue) {d : ConnId} (hd : d < s.made) :
    t.Lives (s.hand ioLoop (.connectEstablished s.made)) d := by
  have H := S.lives d hd
  have hsame := A.other d hd
  have hname : (s.conn d).name_ ≠ connName s.name_ s.nextConnId_ := by
    rw [H.name, S.counter]
    exact fun h => absurd (connName_injective h) (Nat.ne_of_lt hd)
  refine H.congr A.name_ ?_ hsame (fun _ h => h.congr hsame ?_) ?_ (count_hand_of_ne ?_)
  · rw [A.connections_, Finmap.lookup_insert_of_ne _ hname]
    exact H.present
  · exact entry_congr (by rw [A.loops]) (by rw [hsame])
  · rw [A.closed]
    exact fun h => h
  · intro h
    exact Nat.ne_of_lt hd (EventLoop.Functor.connectEstablished.inj h)

theorem sound (S : Sound s s.queue) (hsockfd : 0 ≤ sockfd)
    (hfresh : ∀ d < s.made, (s.conn d).socket_ ≠ sockfd) :
    Sound t (t.hand ioLoop (.connectEstablished s.made)) := by
  obtain ⟨memory, localAddr, peerAddr, hself⟩ := A.new
  rw [A.hand_eq]
  constructor
  case counter =>
    rw [A.nextConnId_, A.made, S.counter]
    rfl
  case lives =>
    intro d hd
    rcases A.lt_or_eq hd with hlt | rfl
    · exact A.lives_other S hlt
    · exact A.lives_new S hsockfd
  case fd_inj =>
    intro d hd e he hsame
    rcases A.lt_or_eq hd with hlt | rfl <;> rcases A.lt_or_eq he with hlt' | rfl
    · rw [A.other d hlt, A.other e hlt'] at hsame
      exact S.fd_inj d hlt e hlt' hsame
    · rw [A.other d hlt, hself] at hsame
      exact absurd hsame (hfresh d hlt)
    · rw [hself, A.other e hlt'] at hsame
      exact absurd hsame.symm (hfresh e hlt')
    · rfl
  case table =>
    intro l'
    rw [A.registered_eq]
    refine (S.table l').congr ?_ fun d hd => ?_
    · show (t.loops l').poller_ = (s.loops l').poller_
      rw [A.loops]
    · show (t.conn d).channel_.fd_ = (s.conn d).channel_.fd_ ∧
        (t.conn d).channel_.index_ = (s.conn d).channel_.index_
      rw [A.other d hd.1]
      exact ⟨rfl, rfl⟩
  case valid =>
    intro l' g hg
    rcases mem_hand.1 hg with ⟨rfl, rfl⟩ | hg
    · refine ⟨?_, ?_, A.not_established⟩
      · rw [A.made]
        exact Nat.lt_succ_self _
      · rw [hself]
        rfl
    · refine (S.valid l' g hg).mono ?_ (fun d hd => by rw [A.other d hd])
        (fun d hd => (A.established_iff hd).2) fun d hd _ => (A.established_iff hd).1
      rw [A.made]
      exact Nat.le_succ _
  case closed =>
    rw [A.closed, A.made]
    exact fun d hd => Nat.lt_succ_of_lt (S.closed d hd)

end Accepts

/-- A new connection has a name and a descriptor of its own, and `connectEstablished` goes to its
    loop. -/
theorem Sound.newConnection {sockfd : ℤ} {peerAddr localAddr : InetAddress} {memory : Uninitialised}
    (S : Sound s s.queue) (hsockfd : 0 ≤ sockfd)
    (hfresh : ∀ c < s.made, s.connections_.lookup (s.conn c).name_ = some c →
      (s.conn c).socket_ ≠ sockfd)
    (h : s.newConnection sockfd peerAddr localAddr memory = some s') : Sound s' s'.queue := by
  obtain ⟨ioLoop, t, A, hrun⟩ := newConnection_eq_some h
  have hsock : ∀ d < s.made, (s.conn d).socket_ ≠ sockfd := fun d hd =>
    hfresh d hd (S.lives d hd).present
  exact (A.sound S hsockfd hsock).runInLoop hrun

/-- Every step keeps the invariant. -/
theorem Sound.step {e : Event} (S : Sound s s.queue) (h : step s e = some s') :
    Sound s' s'.queue := by
  obtain ⟨henabled, hexec⟩ := Run.restrict_eq_some.1 h
  cases e with
  | newConnection sockfd peerAddr localAddr memory =>
      exact S.newConnection henabled.2.1 henabled.2.2 hexec
  | dispatch l i revents readv write => exact S.dispatch hexec
  | doPendingFunctors l =>
      rw [← Option.some.inj hexec]
      exact S.doPendingFunctors henabled
  | callFunctor l write => exact S.callFunctor hexec
  | send thread c message write => exact S.send henabled.1 henabled.2 hexec
  | shutdown thread c => exact S.shutdown henabled.1 henabled.2 hexec

end Step

theorem sound_start (name : String) (numThreads : ℕ) :
    Sound (start name numThreads) (start name numThreads).queue := by
  have hnone : ∀ c, ¬ c < (start name numThreads).made := fun c => Nat.not_lt_zero c
  have hreg : ∀ l, (start name numThreads).registered l = ∅ := by
    intro l
    ext c
    simp [registered, hnone]
  constructor
  case counter => rfl
  case table =>
    intro l
    rw [hreg]
    refine ⟨rfl, by simp, by simp, ?_, by simp, ?_⟩
    · intro fd c hc
      exact absurd hc (by simp [polling, start, EventLoop.new])
    · intro i hi
      exact absurd hi (Nat.not_lt_zero i)
  case valid => exact fun l f hf => absurd hf List.not_mem_nil
  case closed => exact fun c hc => absurd hc List.not_mem_nil
  all_goals exact fun c hc => absurd hc (hnone c)

/-- The invariant of every reachable state. -/
theorem sound_run {name : String} {numThreads : ℕ} {events : List Event} {s : TcpServer}
    (h : Run.run step (start name numThreads) events = some s) : Sound s s.queue :=
  Run.inv_run (I := fun s => Sound s s.queue) (fun _ _ _ S hs => S.step hs)
    (sound_start name numThreads) h

end TcpServer

end WwjMuduo
