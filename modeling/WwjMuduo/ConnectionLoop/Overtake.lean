import WwjMuduo.ConnectionLoop.Shutdown

set_option autoImplicit false

/-! # What a half-close overtakes

A `sendInLoop` that waits when `shutdownWrite` is made is called sooner or later, and so is that of a
`send` on its way. Nothing holds it back: it looks at the channel and the buffer, not at `state_`. So a
half-close out of turn is not just early, there is a `::write` to come after it. -/

namespace WwjMuduo

namespace ConnectionLoop

variable {τ : Type*} {s s' : ConnectionLoop τ}

theorem shutdownInLoop_outputBuffer (c : TcpConnection) :
    c.shutdownInLoop.outputBuffer_ = c.outputBuffer_ := by
  unfold TcpConnection.shutdownInLoop
  split <;> rfl

/-! ## What every run keeps -/

/-- What a run keeps in turn or not: nothing is ever in the output buffer, and a thread on its way to
    `runInLoop` is in no other call. -/
structure Plain (s : ConnectionLoop τ) : Prop where
  drained : s.loop.Drained
  empty : s.conn.outputBuffer_.readableBytes = 0
  idle : ∀ t, (s.calling t).sends = true → s.loop.task t = .idle

theorem plain_established {memory : Uninitialised} (hmemory : memory.outputReader = memory.outputWriter)
    (loop : ℕ) (name : String) (sockfd : ℤ) (localAddr peerAddr : InetAddress) :
    Plain (established memory loop name sockfd localAddr peerAddr : ConnectionLoop τ) where
  drained := Loop.drained_new
  empty := Buffer.readableBytes_eq_zero.2 hmemory
  idle _ _ := rfl

variable [DecidableEq τ]

theorem Plain.setCalling (I : Plain s) (t : Option τ) {c : Calling}
    (hidle : c.sends = true → s.loop.task t = .idle) : Plain (s.setCalling t c) := by
  refine ⟨I.drained, I.empty, fun u h => ?_⟩
  have hcalling : (s.setCalling t c).calling u = if u = t then c else s.calling u :=
    Function.update_apply ..
  rw [hcalling] at h
  split at h
  · next hut =>
      rw [hut]
      exact hidle h
  · exact I.idle u h

/-- A step of the loop, of a thread that is not on its way. -/
theorem Plain.exec_loop (I : Plain s) {e : LoopEvent ConnFunctor τ} (he : s.loop.Enabled e)
    (hthread : (s.calling e.thread).sends = false) : Plain { s with loop := s.loop.exec e } := by
  refine ⟨I.drained.step (Loop.step_eq_some.2 ⟨he, rfl⟩), I.empty, fun u h => ?_⟩
  have hu : u ≠ e.thread := by
    rintro rfl
    exact absurd (h.symm.trans hthread) (by simp)
  show (s.loop.exec e).task u = .idle
  rw [Loop.exec_task_of_ne hu]
  exact I.idle u h

omit [DecidableEq τ] in
theorem Plain.withConn (I : Plain s) {conn : TcpConnection}
    (h : conn.outputBuffer_ = s.conn.outputBuffer_) : Plain (s.withConn conn) :=
  ⟨I.drained, (congrArg Buffer.readableBytes h).trans I.empty, I.idle⟩

omit [DecidableEq τ] in
theorem Plain.sendInLoop (I : Plain s) {m : Message} {outcome : WriteOutcome}
    (h : s.sendInLoop m outcome = some s') : Plain s' := by
  obtain ⟨conn, hconn, rfl⟩ := Option.map_eq_some_iff.1 h
  obtain ⟨hbuf, -⟩ := sendInLoop_of_empty I.empty hconn
  exact ⟨I.drained, (congrArg Buffer.readableBytes hbuf).trans I.empty, I.idle⟩

theorem Plain.step (I : Plain s) {e : ConnectionEvent τ} (h : ConnectionLoop.step s e = some s') :
    Plain s' := by
  obtain ⟨he, h⟩ := Run.restrict_eq_some.1 h
  cases e with
  | send t bytes =>
      obtain rfl := Option.some.inj h
      unfold send
      split
      · exact { I.setCalling t (c := .sending ⟨s.numbers, bytes⟩) fun _ => he.2.1 with }
      · exact I
  | submit t outcome =>
      obtain ⟨m, hcalling, h⟩ := exec_submit.1 h
      unfold submit at h
      split at h
      · obtain ⟨s₁, hsend, rfl⟩ := Option.map_eq_some_iff.1 h
        exact { (I.sendInLoop hsend).setCalling t (c := .no) (by simp [Calling.sends]) with }
      · obtain rfl := Option.some.inj h
        have J := I.setCalling t (c := .submitted m) (by simp [Calling.sends])
        refine J.exec_loop (e := .runInLoop t (.sendInLoop m)) he ?_
        show ((s.setCalling t (.submitted m)).calling t).sends = false
        rw [calling_setCalling]
        rfl
  | sendReturned t =>
      obtain ⟨m, -, rfl⟩ := exec_sendReturned.1 h
      exact { I.setCalling t (c := .no) (by simp [Calling.sends]) with }
  | shutdown t =>
      obtain rfl := Option.some.inj h
      unfold shutdown
      split
      · exact { I.setCalling t (c := .disconnecting) (by simp [Calling.sends]) with }
      · exact I
  | setState t =>
      obtain ⟨-, rfl⟩ := exec_setState.1 h
      have J : Plain (s.withConn (s.conn.setState .kDisconnecting)) := I.withConn rfl
      exact J.setCalling t (c := .shutting) (by simp [Calling.sends])
  | submitShutdown t =>
      obtain ⟨hcalling, rfl⟩ := exec_submitShutdown.1 h
      unfold submitShutdown
      split
      · exact (I.withConn (shutdownInLoop_outputBuffer _)).setCalling t (by simp [Calling.sends])
      · have J := I.exec_loop (e := .runInLoop t .shutdownInLoop) he (by
          show (s.calling t).sends = false
          rw [hcalling]
          rfl)
        exact J.setCalling t (c := .no) (by simp [Calling.sends])
  | call outcome =>
      have J := I.exec_loop (e := .call) he.2 (by
        show (s.calling none).sends = false
        rw [he.1]
        rfl)
      unfold exec call at h
      dsimp only at h
      split at h
      · exact J.sendInLoop h
      · obtain rfl := Option.some.inj h
        exact J.withConn (shutdownInLoop_outputBuffer _)
      · obtain rfl := Option.some.inj h
        exact J
  | on e =>
      obtain rfl := Option.some.inj h
      refine I.exec_loop he.2 ?_
      have hno : ∀ t, s.calling t = .no → (s.calling t).sends = false := by
        intro t ht
        rw [ht]
        rfl
      cases e with
      | call => exact absurd he.1 id
      | queueInLoop t f => exact hno t he.1.2.1
      | runInLoop t f => exact hno t he.1.2.1
      | quit t => exact hno t he.1.1
      | finish t =>
          by_contra hs
          exact he.2 (I.idle t (by simpa [LoopEvent.thread] using hs))
      | _ => exact hno none he.1
  | handleWrite outcome =>
      obtain ⟨conn, hconn, rfl⟩ := Option.map_eq_some_iff.1 h
      rcases handleWrite_of_empty I.empty hconn with ⟨-, rfl⟩ | ⟨-, rfl⟩
      · exact I
      · exact I.withConn rfl

/-! ## The write that is still to come -/

/-- `sendInLoop` writes, whatever the state of the connection. -/
theorem sendInLoop_writes {c : TcpConnection} (h0 : c.outputBuffer_.readableBytes = 0)
    (hw : c.channel_.isWriting = false) (message : List UInt8) :
    ∃ c' more, c.sendInLoop message (.count 0) = some c' ∧
      c'.effects = c.effects ++ .write [] :: more := by
  cases message with
  | nil => exact ⟨c.emit (.write []), [], by
      simp [TcpConnection.sendInLoop, hw, h0, WriteOutcome.Possible, WriteOutcome.accepted], rfl⟩
  | cons x xs =>
      refine ⟨(c.emit (.write [])).withChannel Channel.enableWriting, [.updateChannel], ?_, ?_⟩
      · simp [TcpConnection.sendInLoop, hw, h0, WriteOutcome.Possible, WriteOutcome.accepted,
          TcpConnection.emit]
      · simp [TcpConnection.withChannel, TcpConnection.emit]

/-- The half-close has been made, and the loop thread is in none of its calls. -/
structure Overtaken (s : ConnectionLoop τ) : Prop where
  closed : s.Closed
  empty : s.conn.outputBuffer_.readableBytes = 0
  writing : s.conn.channel_.isWriting = false
  calling : s.calling none = .no
  idle : s.loop.task none = .idle

omit [DecidableEq τ] in
theorem not_graceful_of_write (hclosed : s.Closed) {more : List Effect}
    (h : s'.conn.effects = s.conn.effects ++ .write [] :: more) : ¬s'.Graceful := by
  intro hgraceful
  obtain ⟨pre, post, hsplit⟩ := List.append_of_mem hclosed
  rw [hsplit, List.append_assoc, List.cons_append] at h
  exact (hgraceful pre _ h).2 [] (by simp)

/-- A step of the loop that leaves the loop thread where it makes no call. -/
theorem Overtaken.on (O : Overtaken s) {e : LoopEvent ConnFunctor τ} (hadmits : s.Admits e)
    (he : s.loop.Enabled e) (htask : (s.loop.exec e).task none = s.loop.task none) :
    ConnectionLoop.step s (.on e) = some { s with loop := s.loop.exec e } ∧
      Overtaken { s with loop := s.loop.exec e } :=
  ⟨Run.restrict_eq_some.2 ⟨⟨hadmits, he⟩, rfl⟩, O.closed, O.empty, O.writing, O.calling,
    htask.trans O.idle⟩

/-- In the loop over `functors`, with a `sendInLoop` among them or pending. What comes behind the loop
    is left open. -/
theorem Overtaken.of_calling {pending : List ConnFunctor} {r : Bool}
    (hend : ∀ s : ConnectionLoop τ, Overtaken s → (∃ r, s.loop.place = .calling r) →
      s.loop.functors = [] → s.loop.pendingFunctors_ = pending →
      (∃ m, .sendInLoop m ∈ pending) → Run.CanReach step (fun s => ¬s.Graceful) s)
    (O : Overtaken s) (hplace : s.loop.place = .calling r) (hpending : s.loop.pendingFunctors_ = pending)
    (hsends : ∃ m, .sendInLoop m ∈ s.loop.waiting) :
    Run.CanReach step (fun s => ¬s.Graceful) s := by
  induction hf : s.loop.functors generalizing s r with
  | nil =>
      refine hend s O ⟨r, hplace⟩ hf hpending ?_
      rw [Loop.waiting, hf, hpending] at hsends
      exact hsends
  | cons f functors ih =>
      have hne : s.loop.functors ≠ [] := by simp [hf]
      have he : s.loop.Enabled .call := ⟨⟨r, hplace⟩, O.idle, hne⟩
      have hexec := Loop.call_of_cons hf
      obtain ⟨hwaiting, -⟩ := Loop.waiting_call hf
      have hrest : ∀ s' : ConnectionLoop τ, s'.loop = s.loop.exec .call →
          (∀ m, f ≠ .sendInLoop m) → Overtaken s' → Run.CanReach step (fun s => ¬s.Graceful) s' := by
        intro s' hloop hne O'
        refine ih O' (r := true) ?_ ?_ ?_ ?_
        · rw [hloop, Loop.exec, hexec]
        · rw [hloop, Loop.exec, hexec, ← hpending]
        · obtain ⟨m, hm⟩ := hsends
          rw [hwaiting] at hm
          rw [hloop]
          exact ⟨m, (List.mem_cons.1 hm).resolve_left (hne m).symm⟩
        · rw [hloop, Loop.exec, hexec]
      have htask : (s.loop.exec .call).task none = .idle := by
        rw [Loop.exec, hexec]
        exact O.idle
      have hcall (s' : ConnectionLoop τ) (h : s.call (.count 0) = some s') :
          ConnectionLoop.step s (.call (.count 0)) = some s' :=
        Run.restrict_eq_some.2 ⟨⟨O.calling, he⟩, h⟩
      cases f with
      | sendInLoop m =>
          obtain ⟨c', more, hsend, heffects⟩ := sendInLoop_writes O.empty O.writing m.bytes
          refine .cons (hcall { s with
            loop := s.loop.exec .call, conn := c', sent := s.sent ++ [m] } ?_)
            (.of_self (not_graceful_of_write O.closed heffects))
          simp [ConnectionLoop.call, hf, ConnectionLoop.sendInLoop, hsend]
      | shutdownInLoop =>
          have hemit := TcpConnection.shutdownInLoop_of_not_writing O.writing
          refine .cons (hcall (withConn { s with loop := s.loop.exec .call } s.conn.shutdownInLoop) ?_)
            (hrest _ rfl (by simp) ?_)
          · simp [ConnectionLoop.call, hf]
          · rw [hemit]
            exact ⟨List.mem_append_left _ O.closed, O.empty, O.writing, O.calling, htask⟩
      | other =>
          refine .cons (hcall { s with loop := s.loop.exec .call } ?_) (hrest _ rfl (by simp) ?_)
          · simp [ConnectionLoop.call, hf]
          · exact ⟨O.closed, O.empty, O.writing, O.calling, htask⟩

/-- Before the swap. -/
theorem Overtaken.of_swapping (O : Overtaken s) (hplace : s.loop.place = .swapping)
    (hsends : ∃ m, .sendInLoop m ∈ s.loop.pendingFunctors_) :
    Run.CanReach step (fun s => ¬s.Graceful) s := by
  obtain ⟨hstep, O'⟩ := O.on (e := .swap) O.calling hplace rfl
  refine .cons hstep (O'.of_calling ?_ rfl rfl ?_)
  · rintro s - - - - ⟨m, hm⟩
    exact absurd hm List.not_mem_nil
  · obtain ⟨m, hm⟩ := hsends
    exact ⟨m, List.mem_append_left _ hm⟩

/-- Among the handlers. -/
theorem Overtaken.of_handling (O : Overtaken s) {w : Bool} (hplace : s.loop.place = .handling w)
    (hsends : ∃ m, .sendInLoop m ∈ s.loop.pendingFunctors_) :
    Run.CanReach step (fun s => ¬s.Graceful) s := by
  have hlast (s : ConnectionLoop τ) (O : Overtaken s) (hplace : s.loop.place = .handling false)
      (hsends : ∃ m, .sendInLoop m ∈ s.loop.pendingFunctors_) :
      Run.CanReach step (fun s => ¬s.Graceful) s := by
    obtain ⟨hstep, O'⟩ := O.on (e := .doPendingFunctors) O.calling ⟨hplace, O.idle⟩ rfl
    exact .cons hstep (O'.of_swapping rfl hsends)
  cases w with
  | false => exact hlast s O hplace hsends
  | true =>
      obtain ⟨hstep, O'⟩ := O.on (e := .handleRead) O.calling ⟨hplace, O.idle⟩ rfl
      exact .cons hstep (hlast _ O' rfl hsends)

/-- Before `while(!quit_)`, with the flag clear. -/
theorem Overtaken.of_testing (O : Overtaken s) (hplace : s.loop.place = .testing)
    (hquit : s.loop.quit_ = false) (hsends : ∃ m, .sendInLoop m ∈ s.loop.pendingFunctors_) :
    Run.CanReach step (fun s => ¬s.Graceful) s := by
  have htest := Loop.exec_test hquit
  obtain ⟨hstep, O'⟩ := O.on (e := .test) O.calling hplace (by rw [htest])
  rw [htest] at hstep O'
  obtain ⟨hpoll, O''⟩ := O'.on (e := .poll false) O.calling ⟨rfl, by simp⟩ rfl
  exact .cons hstep (.cons hpoll (O''.of_handling rfl hsends))

/-- Not in `loop()`: it is called again. -/
theorem Overtaken.of_outside (O : Overtaken s) (hplace : s.loop.place = .outside)
    (hsends : ∃ m, .sendInLoop m ∈ s.loop.pendingFunctors_) :
    Run.CanReach step (fun s => ¬s.Graceful) s := by
  obtain ⟨hloop, O'⟩ := O.on (e := .loop) O.calling ⟨hplace, O.idle⟩ rfl
  obtain ⟨hclear, O''⟩ := O'.on (e := .clearQuit) O.calling rfl rfl
  exact .cons hloop (.cons hclear (O''.of_testing rfl rfl hsends))

/-- Behind the loop over `functors`. -/
theorem Overtaken.of_end (O : Overtaken s) (hplace : ∃ r, s.loop.place = .calling r)
    (hempty : s.loop.functors = []) (hsends : ∃ m, .sendInLoop m ∈ s.loop.pendingFunctors_) :
    Run.CanReach step (fun s => ¬s.Graceful) s := by
  obtain ⟨hend, O'⟩ := O.on (e := .endPending) O.calling ⟨hplace, O.idle, hempty⟩ rfl
  refine .cons hend ?_
  cases hquit : s.loop.quit_ with
  | false => exact O'.of_testing rfl hquit hsends
  | true =>
      have htest : (s.loop.exec .endPending).exec .test =
          { s.loop.exec .endPending with looping_ := false, place := .outside } := if_pos hquit
      obtain ⟨hstep, O''⟩ := O'.on (e := .test) O.calling rfl (by rw [htest])
      rw [htest] at hstep O''
      exact .cons hstep (O''.of_outside rfl hsends)

/-- Wherever the loop thread is when it has run `shutdownInLoop`. -/
theorem Overtaken.of_waiting (O : Overtaken s) (D : s.loop.Drained) (huser : s.loop.place.user = true)
    (hsends : ∃ m, .sendInLoop m ∈ s.loop.waiting) :
    Run.CanReach step (fun s => ¬s.Graceful) s := by
  have hpending : (¬ ∃ r, s.loop.place = .calling r) →
      ∃ m, .sendInLoop m ∈ s.loop.pendingFunctors_ := by
    intro hplace
    rw [Loop.waiting, D hplace] at hsends
    exact hsends
  cases hplace : s.loop.place with
  | outside => exact O.of_outside hplace (hpending (by simp [hplace]))
  | handling w => exact O.of_handling hplace (hpending (by simp [hplace]))
  | calling r =>
      refine O.of_calling (fun s O hplace hempty hp hsends => O.of_end hplace hempty ?_) hplace rfl hsends
      rw [hp]
      exact hsends
  | _ => simp [hplace, Place.user] at huser

/-- A `send` on its way pushes its `sendInLoop`. -/
theorem Overtaken.of_sending (O : Overtaken s) (I : Plain s) (huser : s.loop.place.user = true)
    {t : Option τ} {m : Message} (hcalling : s.calling t = .sending m) :
    Run.CanReach step (fun s => ¬s.Graceful) s := by
  cases t with
  | none =>
      rw [O.calling] at hcalling
      exact absurd hcalling (by simp)
  | some t =>
      have hidle := I.idle (some t) (by rw [hcalling]; rfl)
      have hfree : s.loop.Enabled (.runInLoop (some t) (.sendInLoop m)) :=
        ⟨hidle, fun h => absurd h (by simp)⟩
      have hthread : (LoopEvent.runInLoop (some t) (ConnFunctor.sendInLoop m)).thread ≠ none := by
        simp [LoopEvent.thread]
      have hsubmit : ConnectionLoop.step s (.submit (some t) (.count 0)) =
          some ((s.pushed (some t) (.sendInLoop m)).setCalling (some t) (.submitted m)) :=
        Run.restrict_eq_some.2 ⟨hfree, by simp [exec, hcalling, submit]⟩
      have hwaiting := I.drained.waiting_exec hfree (by simp)
      refine .cons hsubmit (Overtaken.of_waiting ⟨O.closed, O.empty, O.writing, ?_, ?_⟩ ?_ ?_ ⟨m, ?_⟩)
      · rw [calling_setCalling_of_ne (by simp)]
        exact O.calling
      · exact (Loop.exec_task_of_ne hthread.symm).trans O.idle
      · exact I.drained.step (Loop.step_eq_some.2 ⟨hfree, rfl⟩)
      · show (s.loop.exec _).place.user = true
        rw [Loop.exec_place_of_thread hthread]
        exact huser
      · show _ ∈ (s.loop.exec _).waiting
        rw [hwaiting]
        exact List.mem_append_right _ List.mem_cons_self

omit [DecidableEq τ] in
/-- What is under way where things are not settled. -/
theorem exists_of_not_settled (h : ¬s.Settled) :
    (∃ m, .sendInLoop m ∈ s.loop.waiting) ∨ ∃ t m, s.calling t = .sending m := by
  by_contra hno
  rw [not_or] at hno
  refine h ⟨fun f hf => ?_, fun t => ?_⟩
  · cases f with
    | sendInLoop m => exact absurd ⟨m, hf⟩ hno.1
    | _ => rfl
  · cases hcalling : s.calling t with
    | sending m => exact absurd ⟨t, m, hcalling⟩ hno.2
    | _ => rfl

/-- A half-close out of turn leads to a `::write` behind it. -/
theorem overtakes_of_not_inTurn (I : Plain s) {e : ConnectionEvent τ}
    (h : ConnectionLoop.step s e = some s') (hC : ¬s.InTurn e) :
    Run.CanReach step (fun s => ¬s.Graceful) s' := by
  have I' := I.step h
  obtain ⟨hshuts, hwriting, hsettled⟩ : s.shuts e = true ∧ s.conn.channel_.isWriting = false ∧
      ¬s.Settled := by
    simpa [InTurn] using hC
  have hemit := TcpConnection.shutdownInLoop_of_not_writing hwriting
  have hclosed : .shutdownWrite ∈ s.conn.shutdownInLoop.effects := by
    rw [hemit]
    exact List.mem_append_right _ List.mem_cons_self
  have hwriting' : s.conn.shutdownInLoop.channel_.isWriting = false := by
    rw [hemit]
    exact hwriting
  obtain ⟨he, hexec⟩ := Run.restrict_eq_some.1 h
  cases e with
  | submitShutdown t =>
      cases t with
      | some t => exact absurd hshuts (by simp [shuts])
      | none =>
          obtain ⟨hshutting, rfl⟩ := exec_submitShutdown.1 hexec
          rw [show s.submitShutdown none = (s.withConn s.conn.shutdownInLoop).setCalling none .no
            from rfl] at I' ⊢
          have O : Overtaken ((s.withConn s.conn.shutdownInLoop).setCalling none .no) :=
            ⟨hclosed, I'.empty, hwriting', calling_setCalling .., he.1⟩
          rcases exists_of_not_settled hsettled with hsends | ⟨t, m, hcalling⟩
          · exact O.of_waiting I.drained (he.2 rfl) hsends
          · have ht : t ≠ none := by
              rintro rfl
              exact absurd (hshutting.symm.trans hcalling) (by simp)
            exact O.of_sending I' (he.2 rfl) ((calling_setCalling_of_ne ht).trans hcalling)
  | call outcome =>
      have hhead : s.loop.functors.head? = some .shutdownInLoop := by simpa [shuts] using hshuts
      obtain ⟨functors, hf⟩ : ∃ functors, s.loop.functors = .shutdownInLoop :: functors := by
        cases hf : s.loop.functors with
        | nil => simp [hf] at hhead
        | cons f functors =>
            rw [hf, List.head?_cons, Option.some.injEq] at hhead
            exact ⟨functors, by rw [hhead]⟩
      have hcall := Loop.call_of_cons hf
      obtain ⟨hwaiting, -⟩ := Loop.waiting_call hf
      obtain rfl : withConn { s with loop := s.loop.exec .call } s.conn.shutdownInLoop = s' := by
        simpa [exec, ConnectionLoop.call, hf] using hexec
      have O : Overtaken (withConn { s with loop := s.loop.exec .call } s.conn.shutdownInLoop) := by
        refine ⟨hclosed, I'.empty, hwriting', he.1, ?_⟩
        show (s.loop.exec .call).task none = .idle
        rw [Loop.exec, hcall]
        exact he.2.2.1
      have huser : (s.loop.exec .call).place.user = true := by rw [Loop.exec, hcall]; rfl
      rcases exists_of_not_settled hsettled with ⟨m, hm⟩ | ⟨t, m, hcalling⟩
      · rw [hwaiting] at hm
        exact O.of_waiting I'.drained huser ⟨m, (List.mem_cons.1 hm).resolve_left (by simp)⟩
      · exact O.of_sending I' huser hcalling
  | _ => exact absurd hshuts (by simp [shuts])

end ConnectionLoop

end WwjMuduo
