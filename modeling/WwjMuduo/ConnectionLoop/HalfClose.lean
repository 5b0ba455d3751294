import WwjMuduo.ConnectionLoop.Overtake

set_option autoImplicit false

/-! # Half-closing in turn

The two halves put together. In turn, a half-close is behind everything promised if the output buffer
starts empty. If it starts with bytes that can be read, these are taken for the waiting rest of what was
sent: `sendInLoop` leaves all to `handleWrite`, and `handleWrite` sends them, finds the buffer empty and
half-closes. -/

namespace WwjMuduo

namespace ConnectionLoop

variable {τ : Type*} {s s' : ConnectionLoop τ}

/-! ## An output buffer that does not start empty -/

/-- Behind bytes that wait, a message is only announced to the channel. -/
theorem sendInLoop_of_nonempty {c : TcpConnection} (h0 : c.outputBuffer_.readableBytes ≠ 0)
    (hw : c.channel_.isWriting = false) {message : List UInt8} (hne : message ≠ [])
    (outcome : WriteOutcome) :
    c.sendInLoop message outcome = some (c.withChannel Channel.enableWriting) := by
  have hpos : 0 < message.length := List.length_pos_iff.2 hne
  simp [TcpConnection.sendInLoop, h0, hw, hpos]

/-- `handleWrite` drains the buffer and half-closes. -/
theorem handleWrite_drains {c : TcpConnection} (hw : c.channel_.isWriting = true)
    (hstate : c.state_ = .kDisconnecting) {bytes : List UInt8}
    (hbytes : c.outputBuffer_.readable = some bytes) (hpos : 0 < bytes.length) :
    ∃ c', c.handleWrite (.count bytes.length) = some c' ∧
      c'.effects = c.effects ++ [.write bytes, .updateChannel, .shutdownWrite] := by
  have hlen := Buffer.length_readable hbytes
  have hofNat : UInt64.ofNat bytes.length = c.outputBuffer_.readableBytes := by
    rw [hlen, UInt64.ofNat_toNat]
  have hdrained : (c.outputBuffer_.retrieve (UInt64.ofNat bytes.length)).readableBytes = 0 := by
    rw [hofNat, Buffer.readableBytes_eq_zero]
    show c.outputBuffer_.readerIndex_ + (c.outputBuffer_.writerIndex_ - c.outputBuffer_.readerIndex_) =
      c.outputBuffer_.writerIndex_
    rw [UInt64.add_comm, UInt64.sub_add_cancel]
  refine ⟨((({ c.emit (.write bytes) with
    outputBuffer_ := c.outputBuffer_.retrieve (UInt64.ofNat bytes.length) } : TcpConnection)).withChannel
      Channel.disableWriting).emit .shutdownWrite, ?_, ?_⟩
  · simp [TcpConnection.handleWrite, hw, hbytes, WriteOutcome.Possible, WriteOutcome.accepted, hpos,
      hdrained, hstate, TcpConnection.emit, TcpConnection.withChannel, TcpConnection.shutdownInLoop]
  · simp [TcpConnection.emit, TcpConnection.withChannel]

/-- A half-close before a promised message is written. -/
theorem not_graceful_of_unwritten {before : List Effect} {m : Message}
    (heffects : s.conn.effects = before ++ [.shutdownWrite]) (hsent : s.sent = [m])
    (hpromised : s.promised = [m]) (hunwritten : ¬m.bytes <+: written before) : ¬s.Graceful := by
  intro hgraceful
  obtain ⟨k, hmem, hprefix⟩ := (hgraceful before [] heffects).1
  rw [hsent] at hmem hprefix
  rw [hpromised] at hmem
  cases k with
  | zero => exact absurd (hmem m List.mem_cons_self) (by simp)
  | succ k => exact hunwritten (by simpa using hprefix)

variable [DecidableEq τ]

omit [DecidableEq τ] in
theorem inTurn_of_not_shuts {e : ConnectionEvent τ} (h : s.shuts e = false) : s.InTurn e :=
  fun hshuts => absurd (hshuts.symm.trans h) (by simp)

/-- The drain half-closes over a message that has never been in the buffer. -/
theorem loses_of_shutting {m : Message} {b : UInt8} {bytes : List UInt8}
    (hplace : s.loop.place = .handling false) (htask : s.loop.task none = .idle)
    (hcalling : s.calling none = .shutting) (hstate : s.conn.state_ = .kDisconnecting)
    (hw : s.conn.channel_.isWriting = true) (hwritten : written s.conn.effects = [])
    (hbytes : s.conn.outputBuffer_.readable = some (b :: bytes)) (hm : ¬m.bytes <+: b :: bytes)
    (hsent : s.sent = [m]) (hpromised : s.promised = [m]) :
    Run.CanReachBy step InTurn (fun s => ¬s.Graceful) s := by
  have huser : s.loop.place.user = true := by rw [hplace]; rfl
  have hshut : ConnectionLoop.step s (.submitShutdown none) = some (s.setCalling none .no) := by
    refine Run.restrict_eq_some.2 ⟨⟨htask, fun _ => huser⟩, exec_submitShutdown.2 ⟨hcalling, ?_⟩⟩
    rw [submitShutdown, if_pos rfl, TcpConnection.shutdownInLoop_of_writing hw]
    rfl
  obtain ⟨c', hdrain, heffects⟩ := handleWrite_drains hw hstate hbytes (by simp)
  have hwrite : ConnectionLoop.step (s.setCalling none .no) (.handleWrite (.count (b :: bytes).length)) =
      some ((s.setCalling none .no).withConn c') := by
    have hin : s.loop.place.inHandlers = true := by rw [hplace]; rfl
    exact Run.restrict_eq_some.2 ⟨⟨hin, htask, calling_setCalling ..⟩,
      Option.map_eq_some_iff.2 ⟨c', hdrain, rfl⟩⟩
  have hturn : s.InTurn (.submitShutdown none) := fun _ h => absurd (hw.symm.trans h) (by simp)
  refine .cons hshut hturn (.of_step hwrite (inTurn_of_not_shuts rfl) ?_)
  have hunwritten :
      ¬m.bytes <+: written (s.conn.effects ++ [.write (b :: bytes), .updateChannel]) := by
    rw [written_append, hwritten]
    simpa [written] using hm
  refine not_graceful_of_unwritten ?_ hsent hpromised hunwritten
  show c'.effects = _
  rw [heffects, List.append_assoc]
  rfl

/-- `shutdown()` in a handler, with the channel writing. -/
theorem loses_of_sent {m : Message} {b : UInt8} {bytes : List UInt8}
    (hplace : s.loop.place = .handling false) (htask : s.loop.task none = .idle)
    (hcalling : s.calling none = .no) (hstate : s.conn.state_ = .kConnected)
    (hw : s.conn.channel_.isWriting = true) (hwritten : written s.conn.effects = [])
    (hbytes : s.conn.outputBuffer_.readable = some (b :: bytes)) (hm : ¬m.bytes <+: b :: bytes)
    (hsent : s.sent = [m]) (hreturned : s.returned = [m]) :
    Run.CanReachBy step InTurn (fun s => ¬s.Graceful) s := by
  have huser : s.loop.place.user = true := by rw [hplace]; rfl
  let s₁ : ConnectionLoop τ := { s.setCalling none .disconnecting with promised := [m] }
  have hshutdown : ConnectionLoop.step s (.shutdown none) = some s₁ := by
    refine Run.restrict_eq_some.2 ⟨⟨hcalling, htask, fun _ => huser⟩, congrArg some ?_⟩
    rw [shutdown, if_pos hstate, hreturned]
  have hcalling₁ : s₁.calling none = .disconnecting := calling_setCalling s none _
  let s₂ : ConnectionLoop τ := (s₁.withConn (s.conn.setState .kDisconnecting)).setCalling none .shutting
  have hset : ConnectionLoop.step s₁ (.setState none) = some s₂ :=
    Run.restrict_eq_some.2 ⟨trivial, exec_setState.2 ⟨hcalling₁, rfl⟩⟩
  have hcalling₂ : s₂.calling none = .shutting :=
    calling_setCalling (s₁.withConn (s.conn.setState .kDisconnecting)) none _
  exact .cons hshutdown (inTurn_of_not_shuts rfl) (.cons hset (inTurn_of_not_shuts rfl)
    (loses_of_shutting hplace htask hcalling₂ rfl hw hwritten hbytes hm hsent rfl))

/-- With bytes waiting from the start, `handleWrite` sends them in place of a message, and half-closes. -/
theorem loses_of_handling {b : UInt8} {bytes : List UInt8} (hplace : s.loop.place = .handling false)
    (htask : s.loop.task none = .idle) (hcalling : s.calling none = .no)
    (hstate : s.conn.state_ = .kConnected) (hw : s.conn.channel_.isWriting = false)
    (hwritten : written s.conn.effects = [])
    (hbytes : s.conn.outputBuffer_.readable = some (b :: bytes)) (hsent : s.sent = [])
    (hreturned : s.returned = []) :
    Run.CanReachBy step InTurn (fun s => ¬s.Graceful) s := by
  have huser : s.loop.place.user = true := by rw [hplace]; rfl
  have hnonempty : s.conn.outputBuffer_.readableBytes ≠ 0 := by
    intro h0
    have hlen := Buffer.length_readable hbytes
    rw [h0] at hlen
    exact absurd hlen (by simp)
  -- any message that does not begin with the first of the bytes
  let m : Message := ⟨s.numbers, [b + 1]⟩
  let s₁ : ConnectionLoop τ := { s.setCalling none (.sending m) with numbers := s.numbers + 1 }
  have hsend : ConnectionLoop.step s (.send none m.bytes) = some s₁ :=
    Run.restrict_eq_some.2 ⟨⟨hcalling, htask, fun _ => huser⟩, congrArg some (if_pos hstate)⟩
  let conn := s.conn.withChannel Channel.enableWriting
  have hconn : s.conn.sendInLoop m.bytes (.count 0) = some conn :=
    sendInLoop_of_nonempty hnonempty hw (by simp [m]) _
  let s₂ : ConnectionLoop τ := { s₁ with conn := conn, sent := [m] }
  have hsubmit : ConnectionLoop.step s₁ (.submit none (.count 0)) = some (s₂.returns none m) := by
    have hcalling₁ : s₁.calling none = .sending m := calling_setCalling s none _
    have hsent₁ : s₁.sendInLoop m (.count 0) = some { s₁ with conn := conn, sent := s.sent ++ [m] } :=
      Option.map_eq_some_iff.2 ⟨conn, hconn, rfl⟩
    refine Run.restrict_eq_some.2 ⟨⟨htask, fun _ => huser⟩, exec_submit.2 ⟨m, hcalling₁, ?_⟩⟩
    rw [submit, if_pos rfl, hsent₁, hsent]
    rfl
  refine .cons hsend (inTurn_of_not_shuts rfl) (.cons hsubmit (inTurn_of_not_shuts rfl) ?_)
  refine loses_of_sent (m := m) hplace htask (calling_setCalling s₂ none _) hstate
    (Channel.isWriting_enableWriting _) ?_ hbytes (by simp [m]) rfl ?_
  · show written (s.conn.effects ++ [.updateChannel]) = []
    rw [written_append, hwritten]
    rfl
  · show s.returned ++ [m] = [m]
    rw [hreturned]
    rfl

/-- In particular over words that are not equal. -/
theorem loses_of_unequal {memory : Uninitialised}
    (hunequal : memory.outputReader ≠ memory.outputWriter) {bytes : List UInt8}
    (hbytes : (Buffer.new memory.outputReader memory.outputWriter).readable = some bytes)
    (loop : ℕ) (name : String) (sockfd : ℤ) (localAddr peerAddr : InetAddress) :
    Run.CanReachBy step InTurn (fun s => ¬s.Graceful)
      (established memory loop name sockfd localAddr peerAddr : ConnectionLoop τ) := by
  have hother {s : ConnectionLoop τ} {e : LoopEvent ConnFunctor τ} : s.InTurn (.on e) :=
    inTurn_of_not_shuts rfl
  let s : ConnectionLoop τ := established memory loop name sockfd localAddr peerAddr
  let polled : ConnectionLoop τ := { s with loop := { s.loop with
    looping_ := true, place := .handling false } }
  have hwriting : s.conn.channel_.isWriting = false := TcpConnection.isWriting_established ..
  cases bytes with
  | nil =>
      have hlen := Buffer.length_readable hbytes
      exact absurd (Buffer.readableBytes_eq_zero.1 (UInt64.toNat_inj.1 hlen.symm)) hunequal
  | cons b bytes =>
      have hloses : Run.CanReachBy step InTurn (fun s => ¬s.Graceful) polled :=
        loses_of_handling rfl rfl rfl rfl hwriting rfl hbytes rfl rfl
      exact .cons (e := .on .loop) rfl hother (.cons (e := .on .clearQuit) rfl hother
        (.cons (e := .on .test) rfl hother (.cons (e := .on (.poll false)) rfl hother hloses)))

/-! ## Runs -/

/-- **Graceful shutdown.** On a connection whose output buffer starts empty, a run in which
    `shutdownInLoop` half-closes only while no `send` is under way half-closes when everything promised
    has been written, and writes nothing afterwards. From any reached state in which it half-closes
    while one is under way, the run can come to a `::write` behind it. A buffer that starts with bytes
    to read can lose a message in a run of the first kind. -/
theorem graceful_in_turn (memory : Uninitialised) (loop : ℕ) (name : String) (sockfd : ℤ)
    (localAddr peerAddr : InetAddress) (events : List (ConnectionEvent τ)) :
    (memory.outputReader = memory.outputWriter →
      (Run.Meets step InTurn (established memory loop name sockfd localAddr peerAddr) events →
        Run.Along step Graceful (established memory loop name sockfd localAddr peerAddr) events) ∧
      ∀ s e s', Run.run step (established memory loop name sockfd localAddr peerAddr) events = some s →
        ConnectionLoop.step s e = some s' → ¬s.InTurn e →
        Run.CanReach step (fun s => ¬s.Graceful) s') ∧
    (memory.outputReader ≠ memory.outputWriter →
      (Buffer.new memory.outputReader memory.outputWriter).readable.isSome →
      Run.CanReachBy step InTurn (fun s => ¬s.Graceful)
        (established memory loop name sockfd localAddr peerAddr : ConnectionLoop τ)) := by
  refine ⟨fun hmemory => ⟨fun hmeets => ?_, fun s e s' hrun hstep hC => ?_⟩, fun hunequal hin => ?_⟩
  · exact .of_meets (I := CloseInv) (fun _ _ _ I hC h => I.step hC h) (fun _ I => I.graceful)
      (closeInv_established hmemory loop name sockfd localAddr peerAddr) hmeets
  · have hplain : Plain s := Run.inv_run (fun _ _ _ I h => I.step h)
      (plain_established hmemory loop name sockfd localAddr peerAddr) hrun
    exact overtakes_of_not_inTurn hplain hstep hC
  · obtain ⟨bytes, hbytes⟩ := Option.isSome_iff_exists.1 hin
    exact loses_of_unequal hunequal hbytes loop name sockfd localAddr peerAddr

/-- A message of another thread and `shutdown()` of the loop thread behind it, in turn; `shutdown()` while
    the other thread is on its way; and a buffer that starts with a byte. -/
theorem graceful_in_turn_queued :
    Run.Along step Graceful
      (established (.asMeant ⟨.zero⟩) 0 "#1" 5 ⟨.zero⟩ ⟨.zero⟩ : ConnectionLoop Unit)
      [.send (some ()) [1], .submit (some ()) (.count 0), .on (.finish (some ())),
        .sendReturned (some ()), .on .loop, .on .clearQuit, .on .test, .on (.poll true),
        .on .handleRead, .on .doPendingFunctors, .on .swap, .call (.count 1), .shutdown none,
        .setState none, .submitShutdown none] ∧
    (∃ s s', Run.run step
      (established (.asMeant ⟨.zero⟩) 0 "#1" 5 ⟨.zero⟩ ⟨.zero⟩ : ConnectionLoop Unit)
      [.send (some ()) [1], .shutdown none, .setState none] = some s ∧
      ConnectionLoop.step s (.submitShutdown none) = some s' ∧ Run.CanReach step (fun s => ¬s.Graceful) s') ∧
    Run.CanReachBy step InTurn (fun s => ¬s.Graceful)
      (established ⟨.kConnecting, ⟨.zero⟩, 8, 8, 8, 9⟩ 0 "#1" 5 ⟨.zero⟩ ⟨.zero⟩ : ConnectionLoop Unit) := by
  refine ⟨?_, ⟨_, _, rfl, rfl, ?_⟩, ?_⟩
  · exact ((graceful_in_turn (.asMeant ⟨.zero⟩) 0 "#1" 5 ⟨.zero⟩ ⟨.zero⟩ _).1 rfl).1
      (by decide)
  · exact ((graceful_in_turn (.asMeant ⟨.zero⟩) 0 "#1" 5 ⟨.zero⟩ ⟨.zero⟩
      [.send (some ()) [1], .shutdown none, .setState none]).1 rfl).2 _ (.submitShutdown none) _ rfl rfl
      (by decide)
  · exact (graceful_in_turn ⟨.kConnecting, ⟨.zero⟩, 8, 8, 8, 9⟩ 0 "#1" 5 ⟨.zero⟩ ⟨.zero⟩ []).2
      (by decide) (by decide +kernel)

/-- The same with `shutdown()` before the loop has come to the message: it half-closes with nothing
    written, and the message is written behind that. -/
theorem half_close_overtakes_send :
    ∃ s, Run.run step
      (established (.asMeant ⟨.zero⟩) 0 "#1" 5 ⟨.zero⟩ ⟨.zero⟩ : ConnectionLoop Unit)
      [.send (some ()) [1], .submit (some ()) (.count 0), .on (.finish (some ())),
        .sendReturned (some ()), .on .loop, .on .clearQuit, .on .test, .on (.poll true),
        .on .handleRead, .shutdown none, .setState none, .submitShutdown none,
        .on .doPendingFunctors, .on .swap, .call (.count 1)] = some s ∧
      s.promised = [⟨0, [1]⟩] ∧
      s.conn.effects = [.updateChannel, .connectionCallback, .shutdownWrite, .write [1]] ∧
      ¬s.Graceful := by
  refine ⟨_, rfl, rfl, rfl, fun hgraceful => ?_⟩
  exact (hgraceful [.updateChannel, .connectionCallback] [.write [1]] rfl).2 [1] List.mem_cons_self

end ConnectionLoop

end WwjMuduo
