import WwjMuduo.Poller.Stale
import WwjMuduo.TcpServer.LifeCycle
import WwjMuduo.TcpServer.Registry
import WwjMuduo.TcpServer.Traffic

set_option autoImplicit false

/-! # Connections do not touch each other

Each event of a server constructs connections and calls members of them (`calls`). The connections
share the server, its loops and their pollers, and yet each is what the calls on it alone have made of
it since it was constructed. All that others change in it is the place that the poller gives its
channel.

So what holds of a connection on its own holds of each connection of a server, whatever the others
do. -/

namespace WwjMuduo

/-! ## The calls of an event -/

/-- A call of the constructor, with the connection it has made, or of a member. -/
inductive ConnectionCall where
  | new (conn : TcpConnection)
  | member (m : MemberCall)

/-- What the call is asked to send. -/
def ConnectionCall.message : ConnectionCall → List UInt8
  | .new _ => []
  | .member m => m.message

/-- The calls of members that a functor makes. -/
def EventLoop.Functor.memberCalls (write : WriteOutcome) :
    EventLoop.Functor → List (ConnId × MemberCall)
  | .connectEstablished c => [(c, .connectEstablished)]
  | .connectDestroyed c => [(c, .connectDestroyed)]
  | .removeConnectionInLoop _ => []
  | .sendInLoop c message => [(c, .sendInLoop message write)]
  | .shutdownInLoop c => [(c, .shutdownInLoop)]

/-- The member that is bound to a callback of the channel. -/
def Channel.Callback.memberCall (readv : Buffer.ReadOutcome) (write : WriteOutcome) :
    Channel.Callback → MemberCall
  | .close => .handleClose
  | .error => .handleError
  | .read => .handleRead readv
  | .write => .handleWrite write

/-- The connection without what the poller writes into its channel. -/
def TcpConnection.own (conn : TcpConnection) : TcpConnection :=
  { conn with channel_ := (conn.channel_.set_index (-1)).set_revents 0 }

namespace TcpServer

/-- The calls of members that an event makes, in order. -/
def memberCalls (s : TcpServer) : Event → List (ConnId × MemberCall)
  | .newConnection .. =>
    match s.threadPool_.getNextLoop with
    | some (ioLoop, _) => if ioLoop = baseLoop then [(s.made, .connectEstablished)] else []
    | none => []
  | .dispatch l i revents readv write =>
    match (s.loops l).poller_.pollfds_[i]?.bind fun pfd =>
      (s.loops l).poller_.channels_.lookup pfd.fd with
    | some c => (((s.conn c).channel_.set_revents (revents.signExtend 32)).handleEvent
        fun _ => true).map fun callback => (c, callback.memberCall readv write)
    | none => []
  | .doPendingFunctors _ => []
  | .callFunctor l write =>
    match (s.loops l).functors with
    | f :: _ => f.memberCalls write
    | [] => []
  | .send thread c message write =>
    if (s.conn c).state_ = .kConnected ∧ thread = some (s.conn c).loop_ then
      [(c, .sendInLoop message write)]
    else []
  | .shutdown thread c =>
    if (s.conn c).state_ = .kConnected then
      (c, .setState .kDisconnecting) ::
        if thread = some (s.conn c).loop_ then [(c, .shutdownInLoop)] else []
    else []

/-- The connections that an event constructs. -/
def constructed (s : TcpServer) : Event → List (ConnId × TcpConnection)
  | .newConnection sockfd peerAddr localAddr memory =>
    match s.threadPool_.getNextLoop with
    | some (ioLoop, _) => [(s.made,
        .new memory ioLoop (connName s.name_ s.nextConnId_) sockfd localAddr peerAddr)]
    | none => []
  | _ => []

/-- All calls that an event makes, in order. -/
def calls (s : TcpServer) (e : Event) : List (ConnId × ConnectionCall) :=
  (s.constructed e).map (fun call => (call.1, .new call.2)) ++
    (s.memberCalls e).map fun call => (call.1, .member call.2)

/-- Of the calls on connections those on one of them. -/
def share {γ : Type*} (c : ConnId) (calls : List (ConnId × γ)) : List γ :=
  calls.filterMap fun call => if call.1 = c then some call.2 else none

section Share

variable {γ δ : Type*}

theorem mem_of_mem_share {c : ConnId} {call : γ} {calls : List (ConnId × γ)}
    (h : call ∈ share c calls) : (c, call) ∈ calls := by
  obtain ⟨⟨d, call'⟩, hcall, heq⟩ := List.mem_filterMap.1 h
  simp only at heq
  split_ifs at heq with hd
  obtain rfl := Option.some.inj heq
  rwa [hd] at hcall

@[simp]
theorem share_nil (c : ConnId) : share c ([] : List (ConnId × γ)) = [] := rfl

@[simp]
theorem share_append (c : ConnId) (calls calls' : List (ConnId × γ)) :
    share c (calls ++ calls') = share c calls ++ share c calls' := List.filterMap_append

theorem share_self (c : ConnId) (m : γ) : share c [(c, m)] = [m] := by
  simp [share]

theorem share_of_ne {c d : ConnId} (h : d ≠ c) (m : γ) : share c [(d, m)] = [] := by
  simp [share, h]

theorem share_eq_nil {c : ConnId} {calls : List (ConnId × γ)} (h : ∀ call ∈ calls, call.1 ≠ c) :
    share c calls = [] := by
  rw [share, List.filterMap_eq_nil_iff]
  exact fun call hcall => if_neg (h call hcall)

theorem share_map (c : ConnId) (f : γ → δ) (calls : List (ConnId × γ)) :
    share c (calls.map fun call => (call.1, f call.2)) = (share c calls).map f := by
  rw [share, share, List.filterMap_map, List.map_filterMap]
  congr 1
  funext call
  simp only [Function.comp_apply]
  split_ifs <;> rfl

end Share

/-! ## What the poller writes does not matter -/

theorem own_shutdownInLoop (conn : TcpConnection) :
    conn.own.shutdownInLoop = conn.shutdownInLoop.own := by
  rw [TcpConnection.shutdownInLoop, TcpConnection.shutdownInLoop, apply_ite TcpConnection.own]
  exact if_congr Iff.rfl rfl rfl

theorem own_handleRead (conn : TcpConnection) (readv : Buffer.ReadOutcome) :
    conn.own.handleRead readv = (conn.handleRead readv).map TcpConnection.own := by
  have hbuffer : conn.own.inputBuffer_ = conn.inputBuffer_ := rfl
  rw [TcpConnection.handleRead, TcpConnection.handleRead, hbuffer, Option.map_map]
  congr 1
  funext ⟨b, n, e⟩
  cases readv <;> simp only [Function.comp_apply] <;> split_ifs <;> rfl

theorem own_handleWrite (conn : TcpConnection) (write : WriteOutcome) :
    conn.own.handleWrite write = (conn.handleWrite write).map TcpConnection.own := by
  have hwriting : conn.own.channel_.isWriting = conn.channel_.isWriting := rfl
  have hbuffer : conn.own.outputBuffer_ = conn.outputBuffer_ := rfl
  unfold TcpConnection.handleWrite
  rw [hwriting, hbuffer]
  split_ifs
  · cases conn.outputBuffer_.readable with
    | none => rfl
    | some offered =>
        rw [Option.bind_some, Option.bind_some]
        split_ifs
        · let conn₁ := conn.emit (.write (offered.take write.accepted))
          let conn₂ : TcpConnection := { conn₁ with
            outputBuffer_ := conn₁.outputBuffer_.retrieve (UInt64.ofNat write.accepted) }
          let conn₃ := conn₂.withChannel Channel.disableWriting
          have hshutdown : conn₃.own.shutdownInLoop = conn₃.shutdownInLoop.own :=
            own_shutdownInLoop conn₃
          show (if 0 < write.accepted then
              if conn₂.outputBuffer_.readableBytes = 0 then
                some (if conn₃.state_ = .kDisconnecting then conn₃.own.shutdownInLoop else conn₃.own)
              else some conn₂.own
            else some conn₁.own) =
            Option.map TcpConnection.own (if 0 < write.accepted then
              if conn₂.outputBuffer_.readableBytes = 0 then
                some (if conn₃.state_ = .kDisconnecting then conn₃.shutdownInLoop else conn₃)
              else some conn₂
            else some conn₁)
          rw [hshutdown]
          split_ifs <;> rfl
        · rfl
  · rfl

theorem own_sendInLoop (conn : TcpConnection) (message : List UInt8) (write : WriteOutcome) :
    conn.own.sendInLoop message write =
      (conn.sendInLoop message write).map TcpConnection.own := by
  have hdirect : (!conn.own.channel_.isWriting && conn.own.outputBuffer_.readableBytes == 0) =
      (!conn.channel_.isWriting && conn.outputBuffer_.readableBytes == 0) := rfl
  have hwriting : conn.own.channel_.isWriting = conn.channel_.isWriting := rfl
  unfold TcpConnection.sendInLoop
  simp only [hdirect, Buffer.append_eq]
  cases hd : (!conn.channel_.isWriting && conn.outputBuffer_.readableBytes == 0) with
  | false =>
      simp only [Bool.false_eq_true, false_and, if_false, hwriting]
      split_ifs <;> rfl
  | true =>
      have hemit (bytes : List UInt8) :
          (conn.own.emit (.write bytes)).channel_.isWriting = conn.channel_.isWriting := rfl
      have hemit' (bytes : List UInt8) :
          (conn.emit (.write bytes)).channel_.isWriting = conn.channel_.isWriting := rfl
      simp only [true_and, if_true, hemit, hemit']
      split_ifs <;> rfl

/-- A member does the same wherever the channel stands in its poller. -/
theorem call_own (m : MemberCall) (conn : TcpConnection) :
    m.call conn.own = (m.call conn).map TcpConnection.own := by
  cases m with
  | sendInLoop message write => exact own_sendInLoop conn message write
  | handleRead readv => exact own_handleRead conn readv
  | handleWrite write => exact own_handleWrite conn write
  | shutdownInLoop => exact congrArg some (own_shutdownInLoop conn)
  | _ => rfl

section Own

variable {s s' : TcpServer} {l : LoopId} {c d : ConnId}

theorem own_channel {conn : TcpConnection} {channel : Channel} (hfd : channel.fd_ = conn.channel_.fd_)
    (hevents : channel.events_ = conn.channel_.events_) :
    { conn with channel_ := channel }.own = conn.own := by
  simp only [TcpConnection.own, Channel.set_index, Channel.set_revents, hfd, hevents]

/-- Whatever a member does to its surroundings leaves every connection what it is. -/
theorem own_perform {e : Effect} (h : s.perform l d e = some s') (c : ConnId) :
    (s'.conn c).own = (s.conn c).own := by
  have hpoller {ioLoop : LoopId} {p : Polling ConnId}
      (hchannel : p.channel = (s.polling ioLoop).channel ∨ ∃ x i, p.channel =
        Function.update (s.polling ioLoop).channel x (((s.polling ioLoop).channel x).set_index i)) :
      ((s.setPolling ioLoop p).conn c).own = (s.conn c).own := by
    show ({ s.conn c with channel_ := p.channel c } : TcpConnection).own = _
    rcases hchannel with heq | ⟨x, i, heq⟩
    · rw [heq]
      exact own_channel rfl rfl
    · rw [heq]
      by_cases hx : c = x
      · subst hx
        rw [Function.update_self]
        exact own_channel rfl rfl
      · rw [Function.update_of_ne hx]
        exact own_channel rfl rfl
  cases e with
  | updateChannel =>
      obtain ⟨p, hp, rfl⟩ := Option.map_eq_some_iff.1 h
      rcases Polling.updateChannel_eq_some hp with ⟨-, -, heq⟩ | ⟨-, -, heq⟩
      · exact hpoller (.inr ⟨_, _, heq⟩)
      · exact hpoller (.inl heq)
  | removeChannel =>
      obtain ⟨p, hp, rfl⟩ := Option.map_eq_some_iff.1 h
      obtain ⟨-, -, heq | ⟨x, heq⟩⟩ := Polling.removeChannel_eq_some hp
      · exact hpoller (.inl heq)
      · exact hpoller (.inr ⟨_, _, heq⟩)
  | closeCallback =>
      rw [← Option.some.inj h]
      unfold removeConnection
      split_ifs <;> rfl
  | _ => rw [← Option.some.inj h]

/-- A call of a member changes one connection, as on its own. -/
theorem own_invoke {member : TcpConnection → Option TcpConnection}
    (h : s.invoke l d member = some s') :
    (∃ conn', member (s.conn d) = some conn' ∧ (s'.conn d).own = conn'.own) ∧
      ∀ c ≠ d, (s'.conn c).own = (s.conn c).own := by
  obtain ⟨conn', hmember, hrun⟩ := Option.bind_eq_some_iff.1 h
  have hown (c : ConnId) : (s'.conn c).own = ((s.setConn d conn').conn c).own :=
    Run.inv_run (I := fun t => (t.conn c).own = ((s.setConn d conn').conn c).own)
      (fun t e t' ht he => (own_perform he c).trans ht) rfl hrun
  refine ⟨⟨conn', hmember, ?_⟩, fun c hc => ?_⟩
  · rw [hown, setConn_self]
  · rw [hown, setConn_of_ne _ _ hc]

end Own

/-! ## The account of a connection -/

/-- The account is that of the connection. -/
structure Matches (s : TcpServer) (c : ConnId) (t : Traffic) : Prop where
  conn : t.conn = (s.conn c).own
  disabled : t.disabled = true ↔ c ∈ s.closed

/-- What happens to a server between two states is to connection `c` what the calls on it do. -/
def Goes (c : ConnId) (s : TcpServer) (calls : List (ConnId × MemberCall)) (s' : TcpServer) : Prop :=
  ∀ t, s.Matches c t →
    ∃ t', Run.run Traffic.step t (share c calls) = some t' ∧ s'.Matches c t'

namespace Goes

variable {s s' s'' : TcpServer} {l : LoopId} {c d : ConnId} {f : EventLoop.Functor}
  {write : WriteOutcome} {readv : Buffer.ReadOutcome} {calls calls' : List (ConnId × MemberCall)}

theorem of_own (hconn : (s'.conn c).own = (s.conn c).own) (hclosed : s'.closed = s.closed) :
    Goes c s [] s' := by
  intro t M
  refine ⟨t, rfl, ?_, ?_⟩
  · rw [M.conn, hconn]
  · rw [hclosed]
    exact M.disabled

theorem trans (h : Goes c s calls s') (h' : Goes c s' calls' s'') :
    Goes c s (calls ++ calls') s'' := by
  intro t M
  obtain ⟨t₁, h₁, M₁⟩ := h t M
  obtain ⟨t₂, h₂, M₂⟩ := h' t₁ M₁
  refine ⟨t₂, ?_, M₂⟩
  rw [share_append]
  exact Run.run_append_eq_some.2 ⟨t₁, h₁, h₂⟩

/-- The server may have marked the connection as closed before the call, if the call clears the
    interest. -/
theorem invoke {s₀ : TcpServer} {m : MemberCall} (h : s.invoke l d (fun conn => m.call conn) = some s')
    (hconn : s.conn = s₀.conn)
    (hclosed : ∀ c, c ∈ s.closed ↔ c ∈ s₀.closed ∨ c = d ∧ m.disables = true) :
    Goes c s₀ [(d, m)] s' := by
  intro t M
  obtain ⟨⟨conn', hcall, hself⟩, hother⟩ := own_invoke h
  have hclosed' : s'.closed = s.closed := closed_invoke h
  by_cases hc : d = c
  · subst hc
    have hcall' : m.call t.conn = some conn'.own := by
      rw [M.conn, call_own, ← hconn, hcall, Option.map_some]
    refine ⟨{ conn := conn'.own, given := t.given ++ m.message,
              disabled := t.disabled || m.disables }, ?_, hself.symm, ?_⟩
    · rw [share_self, Run.run_singleton]
      exact Traffic.step_eq_some.2 ⟨hcall', rfl, rfl⟩
    · rw [hclosed', hclosed, Bool.or_eq_true, M.disabled]
      simp
  · refine ⟨t, ?_, ?_, ?_⟩
    · rw [share_of_ne hc]
      rfl
    · rw [M.conn, hother c (Ne.symm hc), hconn]
    · rw [hclosed', hclosed, M.disabled]
      simp [Ne.symm hc]

/-- A call that leaves the interest alone. -/
theorem invoke_open {m : MemberCall} (h : s.invoke l d (fun conn => m.call conn) = some s')
    (hm : m.disables = false) : Goes c s [(d, m)] s' :=
  invoke h rfl fun c => by simp [hm]

/-- A call that clears it. -/
theorem invoke_closed {m : MemberCall}
    (h : (s.markClosed d).invoke l d (fun conn => m.call conn) = some s') (hm : m.disables = true) :
    Goes c s [(d, m)] s' := by
  refine invoke h rfl fun c => ?_
  rw [markClosed, List.mem_cons, hm]
  tauto

/-- A functor on its loop. None of those that wait there takes a channel out. -/
theorem call (hf : ∀ d, f ≠ .connectDestroyed d) (h : s.call l f write = some s') :
    Goes c s (f.memberCalls write) s' := by
  cases f with
  | connectDestroyed d => exact absurd rfl (hf d)
  | connectEstablished d => exact invoke_open h rfl
  | sendInLoop d message => exact invoke_open h rfl
  | shutdownInLoop d => exact invoke_open h rfl
  | removeConnectionInLoop d =>
      rw [← Option.some.inj h]
      exact of_own rfl rfl

theorem runInLoop {thread : Option LoopId} (hf : ∀ d, f ≠ .connectDestroyed d)
    (h : s.runInLoop thread l f write = some s') :
    Goes c s (if thread = some l then f.memberCalls write else []) s' := by
  unfold TcpServer.runInLoop at h
  split_ifs at h ⊢
  · exact call hf h
  · rw [← Option.some.inj h]
    exact of_own rfl rfl

theorem handle {callback : Channel.Callback} (h : s.handle l d readv write callback = some s') :
    Goes c s [(d, callback.memberCall readv write)] s' := by
  unfold TcpServer.handle at h
  cases callback with
  | close => exact invoke_closed h rfl
  | error => exact invoke_open h rfl
  | write => exact invoke_open h rfl
  | read =>
      cases heof : eof readv with
      | true =>
          rw [heof] at h
          exact invoke_closed h heof
      | false =>
          rw [heof] at h
          exact invoke_open h heof

/-- The callbacks of one `handleEvent`. -/
theorem handles {callbacks : List Channel.Callback}
    (h : Run.run (TcpServer.handle l d readv write) s callbacks = some s') :
    Goes c s (callbacks.map fun callback => (d, callback.memberCall readv write)) s' := by
  induction callbacks generalizing s with
  | nil =>
      obtain rfl : s = s' := Option.some.inj h
      exact of_own rfl rfl
  | cons callback callbacks ih =>
      obtain ⟨s₁, h₁, hrest⟩ := Run.run_cons_eq_some.1 h
      exact (handle h₁).trans (ih hrest)

theorem dispatch {i : ℕ} {revents : BitVec 16} (h : s.dispatch l i revents readv write = some s') :
    Goes c s (s.memberCalls (.dispatch l i revents readv write)) s' := by
  unfold TcpServer.dispatch at h
  rw [← Option.bind_assoc] at h
  obtain ⟨d, hd, hrun⟩ := Option.bind_eq_some_iff.1 h
  let conn' : TcpConnection :=
    { s.conn d with channel_ := (s.conn d).channel_.set_revents (revents.signExtend 32) }
  have hset : Goes c s [] (s.setConn d conn') := by
    refine of_own ?_ rfl
    by_cases hc : c = d
    · subst hc
      rw [setConn_self]
      exact own_channel rfl rfl
    · rw [setConn_of_ne _ _ hc]
  simp only [memberCalls, hd]
  exact hset.trans (handles hrun)

theorem callFunctor (S : Sound s s.queue) (h : s.callFunctor l write = some s') :
    Goes c s (s.memberCalls (.callFunctor l write)) s' := by
  unfold TcpServer.callFunctor at h
  cases hfunctors : (s.loops l).functors with
  | nil =>
      rw [hfunctors] at h
      exact absurd h (by simp)
  | cons f rest =>
      rw [hfunctors] at h
      have hf : ∀ d, f ≠ .connectDestroyed d := by
        rintro d rfl
        refine S.valid l (.connectDestroyed d) (List.mem_append_left _ ?_)
        rw [hfunctors]
        exact List.mem_cons_self
      simp only [memberCalls, hfunctors]
      have htake : Goes c s [] (s.setLoop l { s.loops l with functors := rest }) := of_own rfl rfl
      exact htake.trans (call hf h)

theorem send {thread : Option LoopId} {message : List UInt8}
    (h : s.send thread d message write = some s') :
    Goes c s (s.memberCalls (.send thread d message write)) s' := by
  unfold TcpServer.send at h
  simp only [memberCalls] at h ⊢
  by_cases hstate : (s.conn d).state_ = .kConnected
  · rw [if_pos hstate] at h
    simp only [hstate, true_and]
    exact runInLoop (fun _ => by simp) h
  · rw [if_neg hstate] at h
    rw [if_neg fun hand => hstate hand.1, ← Option.some.inj h]
    exact of_own rfl rfl

theorem shutdown {thread : Option LoopId} (h : s.shutdown thread d = some s') :
    Goes c s (s.memberCalls (.shutdown thread d)) s' := by
  unfold TcpServer.shutdown at h
  simp only [memberCalls] at h ⊢
  by_cases hstate : (s.conn d).state_ = .kConnected
  · rw [if_pos hstate] at h ⊢
    have hset : Goes c s [(d, .setState .kDisconnecting)]
        (s.setConn d ((s.conn d).setState .kDisconnecting)) := by
      refine invoke_open (l := baseLoop) (m := .setState .kDisconnecting) ?_ rfl
      show Run.run (perform baseLoop d) _ ((s.conn d).effects.drop (s.conn d).effects.length) = _
      rw [List.drop_length]
      rfl
    exact hset.trans (runInLoop (fun _ => by simp) h)
  · rw [if_neg hstate] at h ⊢
    rw [← Option.some.inj h]
    exact of_own rfl rfl

/-- Every event but `newConnection`. -/
theorem exec {e : Event} (S : Sound s s.queue) (he : e.accepts = false) (h : s.exec e = some s') :
    Goes c s (s.memberCalls e) s' := by
  cases e with
  | newConnection sockfd peerAddr localAddr memory => exact absurd he (by simp [Event.accepts])
  | dispatch l i revents readv write => exact dispatch h
  | doPendingFunctors l =>
      rw [← Option.some.inj h]
      exact of_own rfl rfl
  | callFunctor l write => exact callFunctor S h
  | send thread d message write => exact send h
  | shutdown thread d => exact shutdown h

end Goes

/-! ## Whole runs -/

/-- The calls on a connection are its constructor and then members, and those alone lead to what it
    is. -/
def Alone (c : ConnId) (history : List (ConnId × ConnectionCall)) (s : TcpServer) : Prop :=
  ∃ conn ms t, share c history = .new conn :: ms.map .member ∧
    Run.run Traffic.step (.new conn) ms = some t ∧ s.Matches c t

/-- Nobody has called a connection that has not been made, and the others are alone. -/
structure Apart (history : List (ConnId × ConnectionCall)) (s : TcpServer) : Prop where
  sound : Sound s s.queue
  made : ∀ call ∈ history, call.1 < s.made
  alone : ∀ c < s.made, Alone c history s

section Apart

variable {s s' : TcpServer} {c : ConnId} {history : List (ConnId × ConnectionCall)} {e : Event}

/-- Members are called on connections that have been made. -/
theorem memberCalls_lt (S : Sound s s.queue) (henabled : s.Enabled e) (he : e.accepts = false) :
    ∀ call ∈ s.memberCalls e, call.1 < s.made := by
  intro call hcall
  cases e with
  | newConnection sockfd peerAddr localAddr memory => exact absurd he (by simp [Event.accepts])
  | dispatch l i revents readv write =>
      simp only [memberCalls] at hcall
      split at hcall
      · rename_i d hd
        obtain ⟨pfd, -, hlookup⟩ := Option.bind_eq_some_iff.1 hd
        obtain ⟨callback, -, rfl⟩ := List.mem_map.1 hcall
        exact ((S.table l).owner _ d hlookup).1.1
      · exact absurd hcall List.not_mem_nil
  | doPendingFunctors l => exact absurd hcall List.not_mem_nil
  | callFunctor l write =>
      simp only [memberCalls] at hcall
      split at hcall
      · rename_i f rest hfunctors
        have hvalid : s.Valid l f := by
          refine S.valid l f (List.mem_append_left _ ?_)
          rw [hfunctors]
          exact List.mem_cons_self
        cases f with
        | connectDestroyed d => exact hvalid.elim
        | removeConnectionInLoop d => exact hvalid.elim
        | _ =>
            obtain rfl := List.mem_singleton.1 hcall
            exact hvalid.1
      · exact absurd hcall List.not_mem_nil
  | send thread d message write =>
      simp only [memberCalls] at hcall
      split_ifs at hcall
      · obtain rfl := List.mem_singleton.1 hcall
        exact henabled.1
      · exact absurd hcall List.not_mem_nil
  | shutdown thread d =>
      simp only [memberCalls] at hcall
      split_ifs at hcall
      · have hd : call.1 = d := by
          rcases List.mem_cons.1 hcall with rfl | hcall
          · rfl
          · rw [List.mem_singleton.1 hcall]
        rw [hd]
        exact henabled.1
      · rw [List.mem_singleton.1 hcall]
        exact henabled.1
      · exact absurd hcall List.not_mem_nil

/-- Members go on being called on a connection alone. -/
theorem Alone.goes {calls : List (ConnId × MemberCall)} (A : Alone c history s)
    (h : Goes c s calls s') :
    Alone c (history ++ calls.map fun call => (call.1, .member call.2)) s' := by
  obtain ⟨conn, ms, t, hshare, hrun, M⟩ := A
  obtain ⟨t', hrun', M'⟩ := h t M
  refine ⟨conn, ms ++ share c calls, t', ?_, Run.run_append_eq_some.2 ⟨t, hrun, hrun'⟩, M'⟩
  rw [share_append, hshare, share_map, List.map_append, List.cons_append]

theorem Apart.exec (A : Apart history s) (henabled : s.Enabled e) (he : e.accepts = false)
    (h : s.exec e = some s') (S' : Sound s' s'.queue) : Apart (history ++ s.calls e) s' := by
  have hmade : s'.made = s.made := (exec_frames he h).made
  have hcalls : s.calls e = (s.memberCalls e).map fun call => (call.1, .member call.2) := by
    have hnone : s.constructed e = [] := by
      cases e with
      | newConnection sockfd peerAddr localAddr memory => exact absurd he (by simp [Event.accepts])
      | _ => rfl
    rw [calls, hnone, List.map_nil, List.nil_append]
  rw [hcalls]
  refine ⟨S', ?_, ?_⟩
  · intro call hcall
    rw [hmade]
    rcases List.mem_append.1 hcall with hcall | hcall
    · exact A.made call hcall
    · obtain ⟨member, hmember, rfl⟩ := List.mem_map.1 hcall
      exact memberCalls_lt A.sound henabled he member hmember
  · intro c hc
    rw [hmade] at hc
    exact (A.alone c hc).goes (Goes.exec A.sound he h)

theorem made_newConnection {sockfd : ℤ} {peerAddr localAddr : InetAddress} {memory : Uninitialised}
    (h : s.newConnection sockfd peerAddr localAddr memory = some s') : s'.made = s.made + 1 := by
  unfold TcpServer.newConnection at h
  split_ifs at h
  obtain ⟨⟨ioLoop, pool⟩, -, hrun⟩ := Option.bind_eq_some_iff.1 h
  exact (Frames.runInLoop hrun).made

/-- A new connection has been constructed, and perhaps established at once. -/
theorem Apart.newConnection {sockfd : ℤ} {peerAddr localAddr : InetAddress}
    {memory : Uninitialised} (A : Apart history s)
    (h : s.newConnection sockfd peerAddr localAddr memory = some s') (S' : Sound s' s'.queue) :
    Apart (history ++ s.calls (.newConnection sockfd peerAddr localAddr memory)) s' := by
  have hmade := made_newConnection h
  unfold TcpServer.newConnection at h
  split_ifs at h
  obtain ⟨⟨ioLoop, pool⟩, hpool, hrun⟩ := Option.bind_eq_some_iff.1 h
  let name := connName s.name_ s.nextConnId_
  let conn : TcpConnection := .new memory ioLoop name sockfd localAddr peerAddr
  let t : TcpServer := { s with
    nextConnId_ := s.nextConnId_ + 1
    threadPool_ := pool
    made := s.made + 1
    connections_ := s.connections_.insert name s.made }.setConn s.made conn
  let members : List (ConnId × MemberCall) :=
    if ioLoop = baseLoop then [(s.made, .connectEstablished)] else []
  have hcalls : s.calls (.newConnection sockfd peerAddr localAddr memory) =
      (s.made, .new conn) :: members.map fun call => (call.1, .member call.2) := by
    simp only [calls, constructed, memberCalls, hpool]
    rfl
  have hgoes (c : ConnId) : Goes c t members s' := by
    have hmembers := Goes.runInLoop (c := c) (fun _ => by simp) hrun
    simp only [Option.some.injEq, eq_comm (a := baseLoop)] at hmembers
    exact hmembers
  have hmembers : ∀ call ∈ members, call.1 = s.made := by
    intro call hcall
    simp only [members] at hcall
    split_ifs at hcall
    · rw [List.mem_singleton.1 hcall]
    · exact absurd hcall List.not_mem_nil
  have hshare (c : ConnId) : share c (s.calls (.newConnection sockfd peerAddr localAddr memory)) =
      share c [(s.made, .new conn)] ++ (share c members).map .member := by
    rw [hcalls, ← List.singleton_append, share_append, share_map]
  refine ⟨S', ?_, ?_⟩
  · intro call hcall
    rw [hmade]
    rcases List.mem_append.1 hcall with hcall | hcall
    · exact Nat.lt_succ_of_lt (A.made call hcall)
    · rw [hcalls] at hcall
      rcases List.mem_cons.1 hcall with rfl | hcall
      · exact Nat.lt_succ_self _
      · obtain ⟨member, hmember, rfl⟩ := List.mem_map.1 hcall
        rw [hmembers member hmember]
        exact Nat.lt_succ_self _
  · intro c hc
    rw [hmade] at hc
    rcases Nat.lt_succ_iff_lt_or_eq.1 hc with hlt | rfl
    · -- The others are what they were.
      obtain ⟨conn₀, ms, t₀, hconn₀, hrun₀, M⟩ := A.alone c hlt
      have hset : Goes c s [] t := by
        refine Goes.of_own ?_ rfl
        rw [show t.conn c = s.conn c from Function.update_of_ne (Nat.ne_of_lt hlt) ..]
      obtain ⟨t', hrun', M'⟩ := (hset.trans (hgoes c)) t₀ M
      refine ⟨conn₀, ms ++ share c members, t', ?_, Run.run_append_eq_some.2 ⟨t₀, hrun₀, hrun'⟩, M'⟩
      rw [share_append, hshare, hconn₀, share_of_ne (Nat.ne_of_gt hlt), List.nil_append,
        List.map_append, List.cons_append]
    · have hfresh : share s.made history = [] :=
        share_eq_nil fun call hcall => Nat.ne_of_lt (A.made call hcall)
      have M : t.Matches s.made (.new conn) := by
        refine ⟨?_, iff_of_false Bool.false_ne_true fun hclosed => ?_⟩
        · rw [show t.conn s.made = conn from Function.update_self ..]
          rfl
        · exact Nat.lt_irrefl _ (A.sound.closed s.made hclosed)
      obtain ⟨t', hrun', M'⟩ := hgoes s.made _ M
      refine ⟨conn, share s.made members, t', ?_, hrun', M'⟩
      rw [share_append, hfresh, hshare, share_self, List.nil_append, List.singleton_append]

theorem Apart.step (A : Apart history s) (h : step s e = some s') :
    Apart (history ++ s.calls e) s' := by
  have S' : Sound s' s'.queue := A.sound.step h
  obtain ⟨henabled, hexec⟩ := Run.restrict_eq_some.1 h
  cases e with
  | newConnection sockfd peerAddr localAddr memory => exact A.newConnection hexec S'
  | _ => exact A.exec henabled rfl hexec S'

end Apart

variable {name : String} {numThreads : ℕ} {events : List Event} {s : TcpServer} {c : ConnId}

/-- The calls that a run makes, in order. -/
def history (name : String) (numThreads : ℕ) (events : List Event) : List (ConnId × ConnectionCall) :=
  Run.image step calls (start name numThreads) events

theorem apart_run (hrun : Run.run step (start name numThreads) events = some s) :
    Apart (history name numThreads events) s := by
  refine Run.trace_run (P := fun _ history s => Apart history s) ?_ (fun _ _ _ _ _ A h => A.step h)
    hrun
  exact ⟨sound_start name numThreads, fun call hcall => absurd hcall List.not_mem_nil,
    fun c hc => absurd hc (Nat.not_lt_zero c)⟩

/-- **Connections are isolated.** For every server and every order of events, the calls on each
    connection are its constructor and then members of it, and the connection is what these calls
    make of it by themselves, up to what the poller has written into its channel. The members clear
    the interest of the channel exactly if the server has the connection as closed. -/
theorem connections_isolated (hrun : Run.run step (start name numThreads) events = some s)
    (hc : c < s.made) :
    ∃ conn ms t, share c (history name numThreads events) = .new conn :: ms.map .member ∧
      Run.run Traffic.step (.new conn) ms = some t ∧
      t.conn = (s.conn c).own ∧ (t.disabled = true ↔ c ∈ s.closed) := by
  obtain ⟨conn, ms, t, hshare, hms, M⟩ := (apart_run hrun).alone c hc
  exact ⟨conn, ms, t, hshare, hms, M.conn, M.disabled⟩

/-- Two connections take turns on the base loop: of the first one only its own calls are left. -/
theorem connections_isolated_two :
    let events : List Event := [.newConnection 5 ⟨.zero⟩ ⟨.zero⟩ (.asMeant ⟨.zero⟩),
      .newConnection 6 ⟨.zero⟩ ⟨.zero⟩ (.asMeant ⟨.zero⟩),
      .send (some 0) 1 [7] (.count 1), .dispatch 0 0 0x10 (.err 0) (.count 0)]
    ∃ s, Run.run step (start "s" 0) events = some s ∧
      ∃ conn ms t, share 0 (history "s" 0 events) = .new conn :: ms.map .member ∧
        Run.run Traffic.step (.new conn) ms = some t ∧
        t.conn = (s.conn 0).own ∧ (t.disabled = true ↔ 0 ∈ s.closed) := by
  intro events
  exact ⟨_, rfl, connections_isolated rfl (by decide)⟩

/-! ## What comes through -/

/-- The memory over which an event constructs a connection. -/
def Event.memory : Event → Option Uninitialised
  | .newConnection _ _ _ memory => some memory
  | _ => none

/-- The memory over which connection `c` is constructed. -/
def memoryOf (events : List Event) (c : ConnId) : Option Uninitialised :=
  (events.filterMap Event.memory)[c]?

theorem made_step {e : Event} {s' : TcpServer} (h : step s e = some s') :
    s'.made = s.made + ([e].filterMap Event.memory).length := by
  obtain ⟨-, hexec⟩ := Run.restrict_eq_some.1 h
  cases e with
  | newConnection sockfd peerAddr localAddr memory => exact made_newConnection hexec
  | _ => exact (exec_frames rfl hexec).made

/-- The connection has just been constructed over the memory. -/
def ConstructedOver (memory : Uninitialised) (conn : TcpConnection) : Prop :=
  ∃ loop name sockfd localAddr peerAddr, conn = .new memory loop name sockfd localAddr peerAddr

theorem lawful_of_constructedOver {memory : Uninitialised} {conn : TcpConnection}
    (hempty : Traffic.EmptyBuffers memory) (h : ConstructedOver memory conn) :
    (Traffic.new conn).Lawful := by
  obtain ⟨loop, name, sockfd, localAddr, peerAddr, rfl⟩ := h
  exact Traffic.lawful_new hempty ..

/-- An event constructs one connection at most, the next one. -/
theorem eq_made_of_constructs {e : Event} {conn : TcpConnection} (h : (c, .new conn) ∈ s.calls e) :
    c = s.made ∧ ∃ memory, e.memory = some memory ∧ ConstructedOver memory conn := by
  rcases List.mem_append.1 h with h | h
  · obtain ⟨⟨d, conn'⟩, hmade, heq⟩ := List.mem_map.1 h
    simp only [Prod.mk.injEq, ConnectionCall.new.injEq] at heq
    obtain ⟨rfl, rfl⟩ := heq
    cases e with
    | newConnection sockfd peerAddr localAddr memory =>
        simp only [constructed] at hmade
        split at hmade
        · obtain ⟨rfl, rfl⟩ := Prod.mk.inj (List.mem_singleton.1 hmade)
          exact ⟨rfl, memory, rfl, _, _, _, _, _, rfl⟩
        · exact absurd hmade List.not_mem_nil
    | _ => exact absurd hmade List.not_mem_nil
  · obtain ⟨call, -, heq⟩ := List.mem_map.1 h
    exact absurd (Prod.mk.inj heq).2 (by simp)

/-- Each connection is constructed over memory of its own. -/
theorem exists_memoryOf (hrun : Run.run step (start name numThreads) events = some s)
    {conn : TcpConnection} (hconn : (c, .new conn) ∈ history name numThreads events) :
    ∃ memory, memoryOf events c = some memory ∧ ConstructedOver memory conn := by
  have htrace := Run.trace_run (g := calls) (P := fun es ms s =>
    s.made = (es.filterMap Event.memory).length ∧ ∀ c conn, (c, ConnectionCall.new conn) ∈ ms →
      ∃ memory, memoryOf es c = some memory ∧ ConstructedOver memory conn) ?_ ?_ hrun
  · exact htrace.2 c conn hconn
  · exact ⟨rfl, fun c conn h => absurd h List.not_mem_nil⟩
  · rintro es ms s e s' ⟨hmade, ih⟩ h
    refine ⟨?_, fun c conn hmem => ?_⟩
    · rw [made_step h, hmade, List.filterMap_append, List.length_append]
    · simp only [memoryOf, List.filterMap_append]
      rcases List.mem_append.1 hmem with hmem | hmem
      · obtain ⟨memory, hmemory, hconn⟩ := ih c conn hmem
        have hlt := (List.getElem?_eq_some_iff.1 hmemory).1
        exact ⟨memory, (List.getElem?_append_left hlt).trans hmemory, hconn⟩
      · obtain ⟨rfl, memory, hmemory, hconn⟩ := eq_made_of_constructs hmem
        refine ⟨memory, ?_, hconn⟩
        rw [List.filterMap_cons_some hmemory, List.filterMap_nil, hmade]
        exact List.getElem?_concat_length

/-- **What comes through a connection.** For every server, every order of events and each connection
    whose buffers start empty: the input buffer holds the first of the bytes that have arrived, as
    many as it has room for behind its reader index; nothing waits to be written; and the bytes
    written are some of those given to `sendInLoop` of that connection, in order. Unless `handleClose`
    has run they are the first of them, and the channel waits to write exactly if some are missing. -/
theorem streams_of_connections (hrun : Run.run step (start name numThreads) events = some s)
    (hc : c < s.made) (hempty : ∀ memory, memoryOf events c = some memory →
      Traffic.EmptyBuffers memory) :
    let conn := s.conn c
    let given := (share c (history name numThreads events)).flatMap ConnectionCall.message
    conn.inputBuffer_.readable =
        some ((arrived conn.effects).take (1032 - conn.inputBuffer_.readerIndex_.toNat)) ∧
      conn.outputBuffer_.readable = some [] ∧
      (written conn.effects).Sublist given ∧
      (c ∉ s.closed → written conn.effects <+: given ∧
        (conn.channel_.isWriting = true ↔ written conn.effects ≠ given)) := by
  obtain ⟨conn₀, ms, t, hshare, hms, M⟩ := (apart_run hrun).alone c hc
  have hmem : (c, ConnectionCall.new conn₀) ∈ history name numThreads events :=
    mem_of_mem_share (by rw [hshare]; exact List.mem_cons_self)
  obtain ⟨memory, hmemory, hconn⟩ := exists_memoryOf hrun hmem
  have L : t.Lawful := (lawful_of_constructedOver (hempty memory hmemory) hconn).run hms
  have hgiven : t.given =
      (share c (history name numThreads events)).flatMap ConnectionCall.message := by
    rw [Traffic.given_run hms, hshare, List.flatMap_cons, List.flatMap_map]
    rfl
  have hinput := L.keeps.readable
  have hnothing := Buffer.readable_of_empty L.flows.empty
  have hsublist := L.flows.sublist
  have hopen (hclosed : c ∉ s.closed) : t.disabled = false :=
    Bool.eq_false_iff.2 (mt M.disabled.1 hclosed)
  have hflows (hclosed : c ∉ s.closed) :=
    And.intro (L.flows.no_gap (hopen hclosed)) (L.flows.writing (hopen hclosed))
  rw [M.conn] at hinput hnothing hsublist hflows
  rw [hgiven] at hsublist hflows
  exact ⟨hinput, hnothing, hsublist, hflows⟩

/-- The peer hangs up after a write that fell short: what is sent next comes out behind the gap. The
    buffers of the next connection start with something in them. -/
theorem streams_of_connections_gap :
    let events : List Event := [.newConnection 5 ⟨.zero⟩ ⟨.zero⟩ (.asMeant ⟨.zero⟩),
      .newConnection 6 ⟨.zero⟩ ⟨.zero⟩ ⟨.kConnecting, ⟨.zero⟩, 0, 4, 0, 4⟩,
      .send (some 0) 0 [1, 2, 3] (.count 1), .dispatch 0 0 0x10 (.err 0) (.count 0),
      .send (some 0) 0 [4, 5] (.count 2)]
    ∃ s, Run.run step (start "s" 0) events = some s ∧ written (s.conn 0).effects = [1, 4, 5] ∧
      (written (s.conn 0).effects).Sublist
        ((share 0 (history "s" 0 events)).flatMap ConnectionCall.message) := by
  intro events
  have hempty : ∀ memory, memoryOf events 0 = some memory → Traffic.EmptyBuffers memory := by
    rintro memory hmemory
    obtain rfl := Option.some.inj hmemory
    exact ⟨rfl, rfl⟩
  exact ⟨_, rfl, rfl, (streams_of_connections rfl (by decide) hempty).2.2.1⟩

end TcpServer

end WwjMuduo
