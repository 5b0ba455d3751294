import WwjMuduo.Lib.Parts
import WwjMuduo.TcpServer.Balance

set_option autoImplicit false

/-! # The order of the loops does not matter

The threads of the loops take their steps in any order, and other threads call `send` and `shutdown` in
between. But each such step reads and writes one loop and its connections, and nothing else of the
server: a dispatch and a functor those of the loop that runs them, `send` and `shutdown` those of the
connection, whichever thread makes the call. Only `newConnection` concerns all loops, since it decides
whose turn it is.

So a server is the product of its loops. Which order the steps of different loops come in between two
connections does not matter to any of them. -/

namespace WwjMuduo

namespace Polling

variable {ι : Type*} [DecidableEq ι]

/-- `updateChannel` reads the poller and the one channel, and writes to no other. -/
theorem updateChannel_local {p p' q : Polling ι} {c : ι} (hpoller : p'.toPoller = p.toPoller)
    (hchannel : p'.channel c = p.channel c) (h : p.updateChannel c = some q) :
    ∃ q', p'.updateChannel c = some q' ∧ q'.toPoller = q.toPoller ∧ q'.channel c = q.channel c ∧
      ∀ d ≠ c, q'.channel d = p'.channel d := by
  obtain ⟨poller, channel⟩ := p
  obtain ⟨poller', channel'⟩ := p'
  obtain rfl : poller' = poller := hpoller
  have hc : channel' c = channel c := hchannel
  rcases lt_or_ge (channel c).index_ 0 with hneg | hpos
  · rw [updateChannel_new hneg] at h
    obtain rfl := Option.some.inj h
    refine ⟨_, updateChannel_new (by rw [hchannel]; exact hneg), ?_, ?_, fun d hd => ?_⟩
    · simp only [hc]
    · simp only [hc, Function.update_self]
    · exact Function.update_of_ne hd ..
  · obtain ⟨i, hi⟩ := Int.eq_ofNat_of_zero_le hpos
    cases hpfd : poller'.pollfds_[i]? with
    | none =>
        rw [updateChannel_outside hi hpfd] at h
        exact absurd h (by simp)
    | some pfd =>
        rw [updateChannel_old hi hpfd] at h
        obtain rfl := Option.some.inj h
        refine ⟨_, updateChannel_old (by rw [hchannel]; exact hi) hpfd, ?_, hc, fun d _ => rfl⟩
        simp only [hc]

end Polling

namespace TcpServer

/-- Two servers with the same loop `l`: its poller, its functors and its connections are the same, and
    so is all that the server itself knows. -/
structure Agree (l : LoopId) (s s' : TcpServer) : Prop where
  name_ : s'.name_ = s.name_
  threadPool_ : s'.threadPool_ = s.threadPool_
  nextConnId_ : s'.nextConnId_ = s.nextConnId_
  connections_ : s'.connections_ = s.connections_
  made : s'.made = s.made
  loop : s'.loops l = s.loops l
  /-- Whoever the other connections are, they are the same. -/
  who : ∀ c, (s'.conn c).name_ = (s.conn c).name_ ∧ (s'.conn c).loop_ = (s.conn c).loop_ ∧
    (s'.conn c).socket_ = (s.conn c).socket_
  conn : ∀ c, (s.conn c).loop_ = l → s'.conn c = s.conn c
  closed : ∀ c, (s.conn c).loop_ = l → (c ∈ s'.closed ↔ c ∈ s.closed)

/-- The operation reads and writes loop `l` only, and takes `s` to `t`. -/
structure Confined (l : LoopId) (F : TcpServer → Option TcpServer) (s t : TcpServer) : Prop where
  result : F s = some t
  rest : ∀ l' ≠ l, Agree l' s t
  same : ∀ s', Agree l s s' → ∃ t', F s' = some t' ∧ Agree l t t'

namespace Agree

variable {l : LoopId} {s s' s'' : TcpServer}

theorem refl (l : LoopId) (s : TcpServer) : Agree l s s :=
  ⟨rfl, rfl, rfl, rfl, rfl, rfl, fun _ => ⟨rfl, rfl, rfl⟩, fun _ _ => rfl, fun _ _ => Iff.rfl⟩

theorem loop_eq (A : Agree l s s') (c : ConnId) : (s'.conn c).loop_ = (s.conn c).loop_ :=
  (A.who c).2.1

theorem symm (A : Agree l s s') : Agree l s' s where
  name_ := A.name_.symm
  threadPool_ := A.threadPool_.symm
  nextConnId_ := A.nextConnId_.symm
  connections_ := A.connections_.symm
  made := A.made.symm
  loop := A.loop.symm
  who c := ⟨(A.who c).1.symm, (A.who c).2.1.symm, (A.who c).2.2.symm⟩
  conn c hc := (A.conn c ((A.loop_eq c).symm.trans hc)).symm
  closed c hc := (A.closed c ((A.loop_eq c).symm.trans hc)).symm

theorem trans (A : Agree l s s') (A' : Agree l s' s'') : Agree l s s'' where
  name_ := A'.name_.trans A.name_
  threadPool_ := A'.threadPool_.trans A.threadPool_
  nextConnId_ := A'.nextConnId_.trans A.nextConnId_
  connections_ := A'.connections_.trans A.connections_
  made := A'.made.trans A.made
  loop := A'.loop.trans A.loop
  who c := ⟨(A'.who c).1.trans (A.who c).1, (A'.who c).2.1.trans (A.who c).2.1,
    (A'.who c).2.2.trans (A.who c).2.2⟩
  conn c hc := (A'.conn c ((A.loop_eq c).trans hc)).trans (A.conn c hc)
  closed c hc := (A'.closed c ((A.loop_eq c).trans hc)).trans (A.closed c hc)

end Agree

/-! ## The operations on one loop -/

namespace Confined

variable {l l' : LoopId} {F G : TcpServer → Option TcpServer} {s t u : TcpServer} {c : ConnId}

/-- What the operation does elsewhere is of no account. -/
theorem congr (C : Confined l F s t) (h : ∀ s', Agree l s s' → G s' = F s') : Confined l G s t where
  result := (h s (.refl l s)).trans C.result
  rest := C.rest
  same s' A := by
    rw [h s' A]
    exact C.same s' A

theorem trans (C : Confined l F s t) (C' : Confined l G t u) :
    Confined l (fun s => (F s).bind G) s u where
  result := by rw [C.result, Option.bind_some, C'.result]
  rest l' hl := (C.rest l' hl).trans (C'.rest l' hl)
  same s' A := by
    obtain ⟨t', ht', A'⟩ := C.same s' A
    obtain ⟨u', hu', A''⟩ := C'.same t' A'
    exact ⟨u', by rw [ht', Option.bind_some, hu'], A''⟩

theorem id (l : LoopId) (s : TcpServer) : Confined l some s s where
  result := rfl
  rest l' _ := .refl l' s
  same s' A := ⟨s', rfl, A⟩

/-- A connection has one loop everywhere, and so at a loop where nothing happens. -/
theorem loop_eq (C : Confined l F s t) (c : ConnId) : (t.conn c).loop_ = (s.conn c).loop_ :=
  (C.rest (l + 1) (Nat.succ_ne_self l)).loop_eq c

/-- A run of operations that are each confined. -/
theorem run {ε : Type*} {step : TcpServer → ε → Option TcpServer} {C : TcpServer → Prop} {A : ε → Prop}
    (hstep : ∀ s e t, A e → C s → step s e = some t → Confined l (step · e) s t ∧ C t) {es : List ε}
    (hes : ∀ e ∈ es, A e) (hs : C s) (h : Run.run step s es = some t) :
    Confined l (Run.run step · es) s t := by
  induction es generalizing s with
  | nil =>
      obtain rfl := Option.some.inj h
      exact .id l s
  | cons e es ih =>
      obtain ⟨s₁, h₁, hrest⟩ := Run.run_cons_eq_some.1 h
      obtain ⟨C₁, hs₁⟩ := hstep s e s₁ (hes e List.mem_cons_self) hs h₁
      exact C₁.trans (ih (fun e' he' => hes e' (List.mem_cons_of_mem e he')) hs₁ hrest)

theorem setLoop (s : TcpServer) (l : LoopId) (loop : EventLoop) :
    Confined l (fun s => some (s.setLoop l loop)) s (s.setLoop l loop) where
  result := rfl
  rest l' hl := { Agree.refl l' s with loop := setLoop_of_ne s loop hl }
  same s' A := ⟨_, rfl, { A with loop := by rw [setLoop_self, setLoop_self] }⟩

/-- A change of a connection of the loop. -/
theorem setConn {conn : TcpConnection} (hloop : (s.conn c).loop_ = l)
    (hname : conn.name_ = (s.conn c).name_) (hloop' : conn.loop_ = (s.conn c).loop_)
    (hsocket : conn.socket_ = (s.conn c).socket_) :
    Confined l (fun s => some (s.setConn c conn)) s (s.setConn c conn) := by
  have hwho (d : ConnId) : ((s.setConn c conn).conn d).name_ = (s.conn d).name_ ∧
      ((s.setConn c conn).conn d).loop_ = (s.conn d).loop_ ∧
      ((s.setConn c conn).conn d).socket_ = (s.conn d).socket_ := by
    by_cases hd : d = c
    · rw [hd, setConn_self]
      exact ⟨hname, hloop', hsocket⟩
    · rw [setConn_of_ne s conn hd]
      exact ⟨rfl, rfl, rfl⟩
  refine ⟨rfl, fun l' hl => ?_, fun s' A => ⟨_, rfl, ?_⟩⟩
  · refine { Agree.refl l' s with who := hwho, conn := fun d hd => setConn_of_ne s conn ?_ }
    rintro rfl
    exact hl (hd.symm.trans hloop)
  · have hsame (d : ConnId) : (s'.setConn c conn).conn d = (s.setConn c conn).conn d ∨
        d ≠ c ∧ (s'.setConn c conn).conn d = s'.conn d ∧ (s.setConn c conn).conn d = s.conn d := by
      by_cases hd : d = c
      · rw [hd, setConn_self, setConn_self]
        exact .inl rfl
      · exact .inr ⟨hd, setConn_of_ne s' conn hd, setConn_of_ne s conn hd⟩
    refine { A with who := fun d => ?_, conn := fun d hd => ?_, closed := fun d hd => ?_ }
    · rcases hsame d with h | ⟨-, h', h⟩
      · rw [h]
        exact ⟨rfl, rfl, rfl⟩
      · rw [h, h']
        exact A.who d
    · rcases hsame d with h | ⟨-, h', h⟩
      · exact h
      · rw [h] at hd ⊢
        rw [h']
        exact A.conn d hd
    · exact A.closed d ((hwho d).2.1.symm.trans hd)

theorem markClosed (hloop : (s.conn c).loop_ = l) :
    Confined l (fun s => some (s.markClosed c)) s (s.markClosed c) := by
  refine ⟨rfl, fun l' hl => ?_, fun s' A => ⟨_, rfl, ?_⟩⟩
  · refine { Agree.refl l' s with closed := fun d hd => ?_ }
    have hne : d ≠ c := by
      rintro rfl
      exact hl (hd.symm.trans hloop)
    rw [TcpServer.markClosed, List.mem_cons]
    simp [hne]
  · refine { A with closed := fun d hd => ?_ }
    rw [TcpServer.markClosed, TcpServer.markClosed, List.mem_cons, List.mem_cons, A.closed d hd]

/-- An update of the channel of a connection of the loop. -/
theorem updateChannel (hloop : (s.conn c).loop_ = l)
    (h : s.perform l' c .updateChannel = some t) :
    Confined l (fun s => s.perform l' c .updateChannel) s t := by
  obtain ⟨q, hq, rfl⟩ := Option.map_eq_some_iff.1 h
  rw [hloop] at hq ⊢
  have hother {r : TcpServer} {q : Polling ConnId}
      (hq : ∀ d ≠ c, q.channel d = (r.polling l).channel d) (d : ConnId) (hd : d ≠ c) :
      (r.setPolling l q).conn d = r.conn d := by
    show { r.conn d with channel_ := q.channel d } = r.conn d
    rw [hq d hd]
    rfl
  have hkept : ∀ d ≠ c, q.channel d = (s.polling l).channel d := by
    obtain ⟨q', hq', -, -, h⟩ := Polling.updateChannel_local rfl rfl hq
    obtain rfl : q = q' := Option.some.inj (hq.symm.trans hq')
    exact h
  refine ⟨?_, fun m hm => ?_, fun s' A => ?_⟩
  · show Option.map _ _ = _
    rw [hloop, hq]
    rfl
  · refine { Agree.refl m s with
      loop := loops_setPolling_of_ne hm, who := fun _ => ⟨rfl, rfl, rfl⟩
      conn := fun d hd => hother hkept d ?_ }
    rintro rfl
    exact hm (hd.symm.trans hloop)
  · have hconn := A.conn c hloop
    have hpoller' : (s'.polling l).toPoller = (s.polling l).toPoller := by
      rw [polling, polling, A.loop]
    have hchannel' : (s'.polling l).channel c = (s.polling l).channel c :=
      congrArg TcpConnection.channel_ hconn
    obtain ⟨q', hq', hpoller, hchannel, hkept'⟩ :=
      Polling.updateChannel_local hpoller' hchannel' hq
    have hresult : s'.perform l' c .updateChannel = some (s'.setPolling l q') := by
      show Option.map _ _ = _
      rw [hconn, hloop, hq']
      rfl
    refine ⟨_, hresult, { A with loop := ?_, who := fun d => A.who d, conn := fun d hd => ?_ }⟩
    · rw [show (s'.setPolling l q').loops l = _ from setLoop_self ..,
        show (s.setPolling l q).loops l = _ from setLoop_self .., A.loop, hpoller]
    · by_cases hd' : d = c
      · subst hd'
        show { s'.conn d with channel_ := q'.channel d } = { s.conn d with channel_ := q.channel d }
        rw [hconn, hchannel]
      · rw [hother hkept' d hd', hother hkept d hd']
        exact A.conn d hd

/-- What a member does to its surroundings, when it neither closes nor leaves. -/
theorem perform {e : Effect} (hloop : (s.conn c).loop_ = l)
    (he : e ≠ .removeChannel ∧ e ≠ .closeCallback) (h : s.perform l' c e = some t) :
    Confined l (fun s => s.perform l' c e) s t := by
  cases e with
  | updateChannel => exact updateChannel hloop h
  | removeChannel => exact absurd rfl he.1
  | closeCallback => exact absurd rfl he.2
  | _ =>
      obtain rfl := Option.some.inj h
      exact .id l s

/-- A call of a member that keeps the connection where it is. -/
theorem invoke (member : TcpConnection → Option TcpConnection) (hloop : (s.conn c).loop_ = l)
    (hmember : ∀ conn', member (s.conn c) = some conn' → conn'.name_ = (s.conn c).name_ ∧
      conn'.loop_ = (s.conn c).loop_ ∧ conn'.socket_ = (s.conn c).socket_ ∧
      ∀ e ∈ conn'.effects.drop (s.conn c).effects.length, e ≠ .removeChannel ∧ e ≠ .closeCallback)
    (h : s.invoke l' c member = some t) : Confined l (fun s => s.invoke l' c member) s t := by
  obtain ⟨conn', hconn', hrun⟩ := Option.bind_eq_some_iff.1 h
  obtain ⟨hname, hloop', hsocket, heffects⟩ := hmember conn' hconn'
  have hset : Confined l (fun s => some (s.setConn c conn')) s (s.setConn c conn') :=
    setConn hloop hname hloop' hsocket
  have hstays : ((s.setConn c conn').conn c).loop_ = l := by
    rw [setConn_self, hloop', hloop]
  have hperform : Confined l (Run.run (TcpServer.perform l' c) ·
      (conn'.effects.drop (s.conn c).effects.length)) (s.setConn c conn') t := by
    refine Confined.run (C := fun s => (s.conn c).loop_ = l) (fun s e t he hs h => ?_) heffects hstays
      hrun
    have C := Confined.perform hs he h
    exact ⟨C, (C.loop_eq c).trans hs⟩
  refine (hset.trans hperform).congr fun s' A => ?_
  rw [TcpServer.invoke, A.conn c hloop, hconn']
  rfl

/-- A call of a handler. -/
theorem invoke_handles (member : TcpConnection → Option TcpConnection) (closes : Bool)
    (hloop : (s.conn c).loop_ = l)
    (hmember : ∀ conn', member (s.conn c) = some conn' → (s.conn c).Handles closes conn')
    (h : s.invoke l' c member = some t) : Confined l (fun s => s.invoke l' c member) s t := by
  refine invoke member hloop (fun conn' hconn' => ?_) h
  have H := hmember conn' hconn'
  obtain ⟨made, heffects, hmade⟩ := H.effects
  refine ⟨H.place.name, H.place.loop, H.place.socket, fun e he => ?_⟩
  rw [heffects, List.drop_left] at he
  have hleaves := hmade e he
  constructor <;> rintro rfl <;> exact absurd hleaves (by decide)

variable {f : EventLoop.Functor} {write : WriteOutcome} {readv : Buffer.ReadOutcome}

/-- A functor of the loop. -/
theorem call (hf : s.Valid l f) (h : s.call l' f write = some t) :
    Confined l (fun s => s.call l' f write) s t := by
  cases f with
  | connectDestroyed c => exact hf.elim
  | removeConnectionInLoop c => exact hf.elim
  | connectEstablished c =>
      refine invoke (fun conn => some conn.connectEstablished) hf.2.1 ?_ h
      intro conn' hconn'
      obtain rfl := Option.some.inj hconn'
      refine ⟨rfl, rfl, rfl, fun e he => ?_⟩
      change e ∈ ((_ ++ [Effect.updateChannel]) ++ [Effect.connectionCallback]).drop _ at he
      rw [List.append_assoc] at he
      change e ∈ ((s.conn c).effects ++ _).drop (s.conn c).effects.length at he
      rw [List.drop_left] at he
      rcases List.mem_pair.1 he with rfl | rfl <;> decide
  | sendInLoop c message =>
      exact invoke_handles (fun conn => conn.sendInLoop message write) false hf.2.1
        (fun _ => TcpConnection.handles_sendInLoop) h
  | shutdownInLoop c =>
      refine invoke_handles (fun conn => some conn.shutdownInLoop) false hf.2.1
        (fun conn' hconn' => ?_) h
      obtain rfl := Option.some.inj hconn'
      exact TcpConnection.handles_shutdownInLoop _

theorem queueInLoop (s : TcpServer) (l : LoopId) (f : EventLoop.Functor) :
    Confined l (fun s => some (s.queueInLoop l f)) s (s.queueInLoop l f) := by
  refine (setLoop s l _).congr fun s' A => ?_
  rw [TcpServer.queueInLoop, A.loop]

/-- A call on the loop or a push into its queue. -/
theorem runInLoop {thread : Option LoopId} (hf : s.Valid l f)
    (h : s.runInLoop thread l f write = some t) :
    Confined l (fun s => s.runInLoop thread l f write) s t := by
  unfold TcpServer.runInLoop at h ⊢
  split_ifs at h ⊢
  · exact call hf h
  · obtain rfl := Option.some.inj h
    exact queueInLoop s l f

theorem handle {callback : Channel.Callback} (hloop : (s.conn c).loop_ = l)
    (h : s.handle l' c readv write callback = some t) :
    Confined l (fun s => s.handle l' c readv write callback) s t := by
  have hclosed : Confined l (fun s => some (s.markClosed c)) s (s.markClosed c) := markClosed hloop
  cases callback with
  | close =>
      refine hclosed.trans (invoke_handles (fun conn => some conn.handleClose) true hloop
        (fun conn' hconn' => ?_) h)
      obtain rfl := Option.some.inj hconn'
      exact TcpConnection.handles_handleClose _
  | error =>
      refine invoke_handles (fun conn => some conn.handleError) true hloop (fun conn' hconn' => ?_) h
      obtain rfl := Option.some.inj hconn'
      exact .refl _
  | read =>
      unfold TcpServer.handle at h ⊢
      simp only at h ⊢
      split_ifs at h ⊢
      · exact hclosed.trans (invoke_handles (fun conn => conn.handleRead readv) _ hloop
          (fun _ => TcpConnection.handles_handleRead) h)
      · exact invoke_handles (fun conn => conn.handleRead readv) _ hloop
          (fun _ => TcpConnection.handles_handleRead) h
  | write =>
      exact invoke_handles (fun conn => conn.handleWrite write) false hloop
        (fun _ => TcpConnection.handles_handleWrite) h

/-! ## The events -/

theorem dispatch {i : ℕ} {revents : BitVec 16} (S : Sound s s.queue)
    (h : s.dispatch l i revents readv write = some t) :
    Confined l (fun s => s.dispatch l i revents readv write) s t := by
  have hfull := h
  unfold TcpServer.dispatch at h
  obtain ⟨pfd, hpfd, h⟩ := Option.bind_eq_some_iff.1 h
  obtain ⟨c, hc, hrun⟩ := Option.bind_eq_some_iff.1 h
  -- The channel found under the descriptor belongs to a connection of the loop.
  obtain ⟨⟨-, hloop, -⟩, -⟩ := (S.table l).owner _ c hc
  let conn' : TcpConnection :=
    { s.conn c with channel_ := (s.conn c).channel_.set_revents (revents.signExtend 32) }
  have hset : Confined l (fun s => some (s.setConn c conn')) s (s.setConn c conn') :=
    setConn hloop rfl rfl rfl
  have hstays : ((s.setConn c conn').conn c).loop_ = l := by
    rw [setConn_self]
    exact hloop
  have hcallbacks := Confined.run (A := fun _ => True) (C := fun s => (s.conn c).loop_ = l)
    (fun s e t _ hs h => by
      have C := Confined.handle hs h
      exact ⟨C, (C.loop_eq c).trans hs⟩)
    (fun _ _ => trivial) hstays hrun
  refine (hset.trans hcallbacks).congr fun s' A => ?_
  rw [TcpServer.dispatch, A.loop, hpfd, Option.bind_some, hc, Option.bind_some, A.conn c hloop]
  rfl

theorem doPendingFunctors (s : TcpServer) (l : LoopId) :
    Confined l (fun s => some (s.doPendingFunctors l)) s (s.doPendingFunctors l) := by
  refine (setLoop s l _).congr fun s' A => ?_
  rw [TcpServer.doPendingFunctors, A.loop]

theorem callFunctor (S : Sound s s.queue) (h : s.callFunctor l write = some t) :
    Confined l (fun s => s.callFunctor l write) s t := by
  unfold TcpServer.callFunctor at h
  cases hfunctors : (s.loops l).functors with
  | nil =>
      rw [hfunctors] at h
      exact absurd h (by simp)
  | cons f rest =>
      rw [hfunctors] at h
      have hf : s.Valid l f := by
        refine S.valid l f (List.mem_append_left _ ?_)
        rw [hfunctors]
        exact List.mem_cons_self
      have hf' : (s.setLoop l { s.loops l with functors := rest }).Valid l f :=
        Valid.mono hf le_rfl (fun _ _ => rfl) (fun _ _ he => he) fun _ _ _ he => he
      refine ((setLoop s l _).trans (call hf' h)).congr fun s' A => ?_
      rw [TcpServer.callFunctor, A.loop, hfunctors]
      rfl

theorem send {thread : Option LoopId} {message : List UInt8} (S : Sound s s.queue) (hc : c < s.made)
    (hcallback : .connectionCallback ∈ (s.conn c).effects) (hloop : (s.conn c).loop_ = l)
    (h : s.send thread c message write = some t) :
    Confined l (fun s => s.send thread c message write) s t := by
  unfold TcpServer.send at h
  simp only at h
  split_ifs at h with hstate
  · have hf : s.Valid l (.sendInLoop c message) :=
      ⟨hc, hloop, S.established_of_callback hc hcallback⟩
    rw [hloop] at h
    refine (runInLoop hf h).congr fun s' A => ?_
    rw [TcpServer.send, A.conn c hloop]
    simp only [hstate, if_true, hloop]
  · obtain rfl := Option.some.inj h
    refine (Confined.id l s).congr fun s' A => ?_
    rw [TcpServer.send, A.conn c hloop]
    simp only [hstate, if_false]

theorem shutdown {thread : Option LoopId} (S : Sound s s.queue) (hc : c < s.made)
    (hcallback : .connectionCallback ∈ (s.conn c).effects) (hloop : (s.conn c).loop_ = l)
    (h : s.shutdown thread c = some t) :
    Confined l (fun s => s.shutdown thread c) s t := by
  unfold TcpServer.shutdown at h
  simp only at h
  split_ifs at h with hstate
  · rw [hloop] at h
    let conn' := (s.conn c).setState .kDisconnecting
    have hset : Confined l (fun s => some (s.setConn c conn')) s (s.setConn c conn') :=
      setConn hloop rfl rfl rfl
    have hf : (s.setConn c conn').Valid l (.shutdownInLoop c) := by
      refine ⟨hc, ?_, ?_⟩
      · rw [setConn_self]
        exact hloop
      · rw [Established, setConn_self]
        exact S.established_of_callback hc hcallback
    refine (hset.trans (runInLoop hf h)).congr fun s' A => ?_
    rw [TcpServer.shutdown, A.conn c hloop]
    simp only [hstate, if_true, hloop]
    rfl
  · obtain rfl := Option.some.inj h
    refine (Confined.id l s).congr fun s' A => ?_
    rw [TcpServer.shutdown, A.conn c hloop]
    simp only [hstate, if_false]

end Confined

/-- The loop that an event reads and writes, where the pool has `n` threads. -/
def Event.loop (n : ℕ) : Event → LoopId
  | .newConnection .. => baseLoop
  | .dispatch l .. | .doPendingFunctors l | .callFunctor l _ => l
  | .send _ c _ _ | .shutdown _ c => EventLoopThreadPool.loopOf n c

/-- The loops that an event concerns: one, or all if a connection is made. -/
def Event.concerns (n : ℕ) (l : LoopId) (e : Event) : Bool := e.accepts || e.loop n == l

section Exec

variable {name : String} {n : ℕ} {l : LoopId} {s s' t : TcpServer} {e : Event}

theorem Confined.exec (P : Placed name n s) (henabled : s.Enabled e) (he : e.accepts = false)
    (h : s.exec e = some t) : Confined (e.loop n) (·.exec e) s t := by
  cases e with
  | newConnection sockfd peerAddr localAddr memory => exact absurd he (by simp [Event.accepts])
  | dispatch l i revents readv write => exact Confined.dispatch P.sound h
  | doPendingFunctors l =>
      obtain rfl := Option.some.inj h
      exact Confined.doPendingFunctors s l
  | callFunctor l write => exact Confined.callFunctor P.sound h
  | send thread c message write =>
      exact Confined.send P.sound henabled.1 henabled.2 (P.loop c henabled.1) h
  | shutdown thread c => exact Confined.shutdown P.sound henabled.1 henabled.2 (P.loop c henabled.1) h

/-- What can happen on a loop depends on that loop. -/
theorem Agree.enabled (A : Agree (e.loop n) s s') (P : Placed name n s) (he : e.accepts = false)
    (h : s.Enabled e) : s'.Enabled e := by
  have huser {c : ConnId} (hc : c < s.made ∧ .connectionCallback ∈ (s.conn c).effects)
      (A : Agree (EventLoopThreadPool.loopOf n c) s s') :
      c < s'.made ∧ .connectionCallback ∈ (s'.conn c).effects := by
    rw [A.made, A.conn c (P.loop c hc.1)]
    exact hc
  cases e with
  | newConnection sockfd peerAddr localAddr memory => exact absurd he (by simp [Event.accepts])
  | dispatch l i revents readv write =>
      have hloop : s'.loops l = s.loops l := Agree.loop A
      obtain ⟨hidle, hpos, pfd, hpfd, hfd⟩ := h
      rw [← hloop] at hidle hpfd
      exact ⟨hidle, hpos, pfd, hpfd, hfd⟩
  | doPendingFunctors l =>
      have hloop : s'.loops l = s.loops l := Agree.loop A
      show (s'.loops l).functors = []
      rw [hloop]
      exact h
  | callFunctor l write =>
      have hloop : s'.loops l = s.loops l := Agree.loop A
      show (s'.loops l).functors ≠ []
      rw [hloop]
      exact h
  | send thread c message write => exact huser h A
  | shutdown thread c => exact huser h A

/-- A step on one loop. -/
theorem Confined.step (P : Placed name n s) (he : e.accepts = false) (h : step s e = some t) :
    Confined (e.loop n) (TcpServer.step · e) s t := by
  obtain ⟨henabled, hexec⟩ := Run.restrict_eq_some.1 h
  have C := Confined.exec P henabled he hexec
  refine ⟨h, C.rest, fun s' A => ?_⟩
  obtain ⟨t', ht', A'⟩ := C.same s' A
  exact ⟨t', Run.restrict_eq_some.2 ⟨A.enabled P he henabled, ht'⟩, A'⟩

/-! ## Accepting -/

variable {sockfd : ℤ} {peerAddr localAddr : InetAddress} {memory : Uninitialised}

/-- The same connection is made for the same loop. -/
theorem Agree.newConnection (A : Agree l s s') (P : Placed name n s) (P' : Placed name n s')
    (h : s.newConnection sockfd peerAddr localAddr memory = some t) :
    ∃ t', s'.newConnection sockfd peerAddr localAddr memory = some t' ∧ Agree l t t' := by
  have hk := P.accepted.room h
  have hk' : s'.made + 1 < 2 ^ 31 - 1 := by
    rw [A.made]
    exact hk
  obtain ⟨pool, hpool, -⟩ := EventLoopThreadPool.getNextLoop_eq P.accepted.loops_ P.accepted.next_
  obtain ⟨t', ht', -⟩ := P'.accepted.newConnection hk' sockfd peerAddr localAddr memory
  refine ⟨t', ht', ?_⟩
  rw [P.accepted.newConnection_eq hk hpool] at h
  rw [P'.accepted.newConnection_eq hk' (by rw [A.threadPool_, A.made]; exact hpool), A.made] at ht'
  let ioLoop := EventLoopThreadPool.loopOf n s.made
  let conn := TcpConnection.new memory ioLoop (connName name (s.made + 1)) sockfd localAddr peerAddr
  -- The new connection is the same, and so are the others.
  have hwith : Agree l (s.withNew name s.made pool conn) (s'.withNew name s.made pool conn) := by
    have hself (r : TcpServer) : (r.withNew name s.made pool conn).conn s.made = conn :=
      Function.update_self ..
    have hother (r : TcpServer) {c : ConnId} (hc : c ≠ s.made) :
        (r.withNew name s.made pool conn).conn c = r.conn c := Function.update_of_ne hc ..
    refine ⟨A.name_, rfl, ?_, ?_, ?_, A.loop, fun c => ?_, fun c hc => ?_, fun c hc => ?_⟩
    · show s'.nextConnId_ + 1 = s.nextConnId_ + 1
      rw [A.nextConnId_]
    · show s'.connections_.insert _ _ = s.connections_.insert _ _
      rw [A.connections_]
    · show s'.made + 1 = s.made + 1
      rw [A.made]
    · by_cases hne : c = s.made
      · rw [hne, hself, hself]
        exact ⟨rfl, rfl, rfl⟩
      · rw [hother s hne, hother s' hne]
        exact A.who c
    · by_cases hne : c = s.made
      · rw [hne, hself, hself]
      · rw [hother s hne] at hc ⊢
        rw [hother s' hne]
        exact A.conn c hc
    · by_cases hne : c = s.made
      · subst hne
        refine iff_of_false (fun h => ?_) fun h => absurd (P.sound.closed _ h) (Nat.lt_irrefl _)
        have hlt := P'.sound.closed _ h
        rw [A.made] at hlt
        exact absurd hlt (Nat.lt_irrefl _)
      · rw [hother s hne] at hc
        exact A.closed c hc
  have hvalid {r : TcpServer} (hmade : r.made = s.made) :
      (r.withNew name s.made pool conn).Valid ioLoop (.connectEstablished s.made) := by
    have hself : (r.withNew name s.made pool conn).conn s.made = conn := Function.update_self ..
    refine ⟨?_, by rw [hself]; rfl, ?_⟩
    · show s.made < r.made + 1
      rw [hmade]
      exact Nat.lt_succ_self _
    · rw [Established, hself]
      show ¬ (0 : ℤ) ≤ -1
      decide
  have C := Confined.runInLoop (hvalid rfl) h
  by_cases hl : l = ioLoop
  · subst hl
    obtain ⟨t₁, ht₁, A'⟩ := C.same _ hwith
    obtain rfl : t₁ = t' := Option.some.inj (ht₁.symm.trans ht')
    exact A'
  · have C' := Confined.runInLoop (hvalid A.made) ht'
    exact ((C.rest l hl).symm.trans hwith).trans (C'.rest l hl)

/-- A new descriptor is new wherever the connections are the same. -/
theorem Agree.enabled_newConnection (A : Agree l s s') (hidle : (s'.loops baseLoop).functors = [])
    (h : s.Enabled (.newConnection sockfd peerAddr localAddr memory)) :
    s'.Enabled (.newConnection sockfd peerAddr localAddr memory) := by
  refine ⟨hidle, h.2.1, fun c hc hlookup => ?_⟩
  obtain ⟨hname, -, hsocket⟩ := A.who c
  rw [A.made] at hc
  rw [A.connections_, hname] at hlookup
  rw [hsocket]
  exact h.2.2 c hc hlookup

/-- Making a connection calls no functor that waits. -/
theorem functors_newConnection (l : LoopId)
    (h : s.newConnection sockfd peerAddr localAddr memory = some t) :
    (t.loops l).functors = (s.loops l).functors := by
  obtain ⟨ioLoop, r, A, hrun⟩ := newConnection_eq_some h
  rw [← A.loops]
  have hset {r : TcpServer} {loop : EventLoop} (hfunctors : loop.functors = (r.loops ioLoop).functors) :
      ((r.setLoop ioLoop loop).loops l).functors = (r.loops l).functors := by
    by_cases hl : l = ioLoop
    · rw [hl, setLoop_self, hfunctors]
    · rw [setLoop_of_ne r loop hl]
  unfold runInLoop at hrun
  split_ifs at hrun with hbase
  · obtain ⟨memory', localAddr', peerAddr', hself⟩ := A.new
    have hloop : (r.conn s.made).loop_ = ioLoop := by
      rw [hself]
      rfl
    rw [call_connectEstablished, hloop] at hrun
    obtain ⟨p, -, rfl⟩ := Option.map_eq_some_iff.1 hrun
    exact hset rfl
  · obtain rfl := Option.some.inj hrun
    exact hset rfl

end Exec

/-! ## The loops as parts of the server -/

/-- A server in which only loop `l` has run, while connections were made. -/
structure OnlyLoop (name : String) (n : ℕ) (l : LoopId) (w : TcpServer) : Prop where
  placed : Placed name n w
  idle : ∀ l' ≠ l, (w.loops l').functors = []

theorem Event.concerns_of_accepts {n : ℕ} {l : LoopId} {e : Event} (h : e.accepts = true) :
    e.concerns n l = true := by
  rw [concerns, h, Bool.true_or]

theorem Event.loop_of_concerns {n : ℕ} {l : LoopId} {e : Event} (haccepts : e.accepts = false)
    (h : e.concerns n l = true) : e.loop n = l := by
  simpa [concerns, haccepts] using h

/-- A connection made in one server can be made in the other. -/
theorem Agree.step_accepts {name : String} {n : ℕ} {l : LoopId} {s s' t : TcpServer} {e : Event}
    (A : Agree l s s') (P : Placed name n s) (P' : Placed name n s') (he : e.accepts = true)
    (hidle : (s.loops baseLoop).functors = [] → (s'.loops baseLoop).functors = [])
    (h : s.step e = some t) : ∃ t', s'.step e = some t' ∧ Agree l t t' := by
  cases e with
  | newConnection sockfd peerAddr localAddr memory =>
      obtain ⟨henabled, hexec⟩ := Run.restrict_eq_some.1 h
      obtain ⟨t', ht', A'⟩ := A.newConnection P P' hexec
      exact ⟨t', Run.restrict_eq_some.2 ⟨A.enabled_newConnection (hidle henabled.1) henabled, ht'⟩, A'⟩
  | _ => exact absurd he (by simp [Event.accepts])

theorem functors_step_accepts {s t : TcpServer} {e : Event} (he : e.accepts = true) (l : LoopId)
    (h : s.step e = some t) : (t.loops l).functors = (s.loops l).functors := by
  cases e with
  | newConnection sockfd peerAddr localAddr memory =>
      exact functors_newConnection l (Run.restrict_eq_some.1 h).2
  | _ => exact absurd he (by simp [Event.accepts])

theorem parts (name : String) (n : ℕ) :
    Run.Parts step (Event.concerns n) Agree (Placed name n) (OnlyLoop name n) where
  whole s e s' P h := P.step h
  alone l w e w' B he h := by
    refine ⟨B.placed.step h, fun l' hl => ?_⟩
    cases haccepts : e.accepts with
    | false =>
        have hloop : e.loop n = l := Event.loop_of_concerns haccepts he
        rw [((Confined.step B.placed haccepts h).rest l' (hloop.symm ▸ hl)).loop]
        exact B.idle l' hl
    | true =>
        rw [functors_step_accepts haccepts l' h]
        exact B.idle l' hl
  rest l s e s' w P A he h := by
    obtain ⟨haccepts, hloop⟩ := Bool.or_eq_false_iff.1 he
    have C := Confined.step P haccepts h
    exact (C.rest l (Ne.symm (ne_of_beq_false hloop))).symm.trans A
  follow l s e s' w P B A he h := by
    cases haccepts : e.accepts with
    | false =>
        obtain rfl := Event.loop_of_concerns haccepts he
        exact (Confined.step P haccepts h).same w A
    | true =>
        refine A.step_accepts P B.placed haccepts (fun hidle => ?_) h
        -- Where the base loop is not the one that runs, nothing waits in it.
        by_cases hl : baseLoop = l
        · subst hl
          rw [A.loop]
          exact hidle
        · exact B.idle baseLoop hl
  lead s e w P B A h := by
    cases haccepts : e.accepts with
    | false =>
        have hself : e.concerns n (e.loop n) = true := by simp [Event.concerns]
        obtain ⟨w', hw'⟩ := h _ hself
        obtain ⟨s', hs', -⟩ := (Confined.step (B _).placed haccepts hw').same s (A _).symm
        exact ⟨s', hs'⟩
    | true =>
        obtain ⟨w', hw'⟩ := h baseLoop (Event.concerns_of_accepts haccepts)
        have A' := (A baseLoop).symm
        obtain ⟨s', hs', -⟩ := A'.step_accepts (B baseLoop).placed P haccepts
          (fun hidle => A'.loop ▸ hidle) hw'
        exact ⟨s', hs'⟩

theorem onlyLoop_start (name : String) (n : ℕ) (l : LoopId) : OnlyLoop name n l (start name n) where
  placed := placed_start name n
  idle _ _ := rfl

/-- **A server is the product of its loops.** A server with `n` threads can run a list of events, of
    whatever threads, exactly if for each loop it can run those of them that concern the loop; and
    each loop, with its connections, ends as it does when the other loops do nothing. -/
theorem product_of_loops (name : String) (n : ℕ) (events : List Event) :
    ((∃ s, Run.run step (start name n) events = some s) ↔
      ∀ l, ∃ w, Run.run step (start name n) (events.filter (Event.concerns n l)) = some w) ∧
    ∀ s l w, Run.run step (start name n) events = some s →
      Run.run step (start name n) (events.filter (Event.concerns n l)) = some w → Agree l s w := by
  have P := parts name n
  refine ⟨P.run_iff (placed_start name n) (onlyLoop_start name n) fun l => .refl l _, ?_⟩
  exact fun s l w h hw =>
    P.agree_run (placed_start name n) (onlyLoop_start name n l) (.refl l _) h hw

/-- Of two connections on two loops, the first loop sees its own established. -/
theorem product_of_loops_two :
    let events : List Event := [.newConnection 7 ⟨.zero⟩ ⟨.zero⟩ (.asMeant ⟨.zero⟩),
      .newConnection 8 ⟨.zero⟩ ⟨.zero⟩ (.asMeant ⟨.zero⟩),
      .doPendingFunctors 2, .doPendingFunctors 1, .callFunctor 1 (.count 0), .callFunctor 2 (.count 0)]
    ∃ s w, Run.run step (start "s" 2) events = some s ∧
      Run.run step (start "s" 2) (events.filter (Event.concerns 2 1)) = some w ∧ Agree 1 s w := by
  intro events
  exact ⟨_, _, rfl, rfl, (product_of_loops "s" 2 events).2 _ 1 _ rfl rfl⟩

/-- **The order of the loops does not matter.** If two lists of events have, for each loop, the same
    events that concern it in the same order, then a server can run the one as well as the other, and
    ends in the same state: the loops and their pollers, the connections with their buffers and all
    that they have done, the names and the counters. -/
theorem order_of_loops {name : String} {n : ℕ} {events events' : List Event} {s : TcpServer}
    (hsame : ∀ l, events.filter (Event.concerns n l) = events'.filter (Event.concerns n l))
    (h : Run.run step (start name n) events = some s) :
    ∃ s', Run.run step (start name n) events' = some s' ∧
      { s' with closed := s.closed } = s ∧ ∀ c, c ∈ s'.closed ↔ c ∈ s.closed := by
  obtain ⟨s', hs', hagree⟩ := (parts name n).reorder (placed_start name n) (onlyLoop_start name n)
    (fun l => .refl l _) hsame h
  have A (l : LoopId) : Agree l s s' := by
    obtain ⟨w, Aw, Aw'⟩ := hagree l
    exact Aw.trans Aw'.symm
  refine ⟨s', hs', ?_, fun c => (A (s.conn c).loop_).closed c rfl⟩
  have hloops : s'.loops = s.loops := funext fun l => (A l).loop
  have hconn : s'.conn = s.conn := funext fun c => (A (s.conn c).loop_).conn c rfl
  obtain ⟨name_, threadPool_, nextConnId_, connections_, loops, conn, made, closed⟩ := s'
  obtain ⟨hname, hpool, hnext, hmap, hmade, -⟩ := A baseLoop
  simp only at hname hpool hnext hmap hmade hloops hconn
  simp only [hname, hpool, hnext, hmap, hmade, hloops, hconn]

/-- Two connections, whose loops take their turns in either order. -/
theorem order_of_loops_two :
    let accepts : List Event := [7, 8].map fun fd =>
      .newConnection fd ⟨.zero⟩ ⟨.zero⟩ (.asMeant ⟨.zero⟩)
    let turn (l : LoopId) : List Event := [.doPendingFunctors l, .callFunctor l (.count 0)]
    ∃ s s', Run.run step (start "s" 2) (accepts ++ (turn 1 ++ turn 2)) = some s ∧
      Run.run step (start "s" 2) (accepts ++ (turn 2 ++ turn 1)) = some s' ∧
      { s' with closed := s.closed } = s := by
  intro accepts turn
  have hother {l m : LoopId} (h : m ≠ l) : (turn m).filter (Event.concerns 2 l) = [] := by
    simp [turn, Event.concerns, Event.accepts, Event.loop, h]
  have hsame (l : LoopId) : (accepts ++ (turn 1 ++ turn 2)).filter (Event.concerns 2 l) =
      (accepts ++ (turn 2 ++ turn 1)).filter (Event.concerns 2 l) := by
    simp only [List.filter_append]
    by_cases hl : 1 = l
    · have hne : 2 ≠ l := fun h => absurd (hl.trans h.symm) (by decide)
      rw [hother hne, List.append_nil, List.nil_append]
    · rw [hother hl, List.append_nil, List.nil_append]
  obtain ⟨s, hs⟩ : ∃ s, Run.run step (start "s" 2) (accepts ++ (turn 1 ++ turn 2)) = some s :=
    ⟨_, rfl⟩
  obtain ⟨s', hs', heq, -⟩ := order_of_loops hsame hs
  exact ⟨s, s', hs, hs', heq⟩

end TcpServer

end WwjMuduo
