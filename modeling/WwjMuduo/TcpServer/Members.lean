import WwjMuduo.TcpServer

set_option autoImplicit false

/-! # What the members of a connection leave alone

The handlers of a connection, and the members that write, keep its name, loop, socket and state and
its place in the poller, and have no effect on the server: none calls the close callback. All but
`handleClose` keep the interest in reading. -/

namespace WwjMuduo

namespace Effect

/-- The effects that reach the server or the user's `connectionCallback`, or remove the channel. -/
def leavesConnection : Effect → Bool
  | .connectionCallback | .removeChannel | .closeCallback => true
  | _ => false

end Effect

namespace Channel

/-- The channel asks for `POLLIN`. -/
def Reads (c : Channel) : Prop := c.events_.getLsbD 0 = true

theorem Reads.isNoneEvent {c : Channel} (h : c.Reads) : c.isNoneEvent = false :=
  isNoneEvent_eq_false_of_bit 0 h

theorem reads_enableReading (c : Channel) : c.enableReading.Reads := by
  rw [Reads, enableReading, BitVec.getLsbD_or]
  exact Bool.or_true _

theorem Reads.enableWriting {c : Channel} (h : c.Reads) : c.enableWriting.Reads := by
  rw [Reads] at h
  rw [Reads, Channel.enableWriting, BitVec.getLsbD_or, h]
  exact Bool.true_or _

theorem Reads.disableWriting {c : Channel} (h : c.Reads) : c.disableWriting.Reads := by
  rw [Reads] at h
  rw [Reads, Channel.disableWriting, BitVec.getLsbD_and, h]
  rfl

end Channel

/-- The same connection, on the same loop, at the same place in the poller. -/
structure TcpConnection.SamePlace (conn conn' : TcpConnection) : Prop where
  name : conn'.name_ = conn.name_
  loop : conn'.loop_ = conn.loop_
  socket : conn'.socket_ = conn.socket_
  fd : conn'.channel_.fd_ = conn.channel_.fd_
  index : conn'.channel_.index_ = conn.channel_.index_

/-- What a handler keeps of its connection, and which effects it has; `closes` tells whether it may
    drop the interest in reading. -/
structure TcpConnection.Handles (closes : Bool) (conn conn' : TcpConnection) : Prop where
  place : conn.SamePlace conn'
  state : conn'.state_ = conn.state_
  reads : closes = false → conn.channel_.Reads → conn'.channel_.Reads
  effects : ∃ made, conn'.effects = conn.effects ++ made ∧ ∀ e ∈ made, e.leavesConnection = false

namespace TcpConnection

namespace SamePlace

variable {conn conn' conn'' : TcpConnection}

theorem refl (conn : TcpConnection) : SamePlace conn conn := ⟨rfl, rfl, rfl, rfl, rfl⟩

theorem trans (h : SamePlace conn conn') (h' : SamePlace conn' conn'') : SamePlace conn conn'' :=
  ⟨h'.name.trans h.name, h'.loop.trans h.loop, h'.socket.trans h.socket, h'.fd.trans h.fd,
    h'.index.trans h.index⟩

end SamePlace

namespace Handles

variable {closes : Bool} {conn conn' conn'' : TcpConnection}

theorem refl (conn : TcpConnection) : Handles closes conn conn := by
  refine ⟨.refl conn, rfl, fun _ h => h, [], ?_, ?_⟩
  · simp
  · simp

theorem trans (h : Handles closes conn conn') (h' : Handles closes conn' conn'') :
    Handles closes conn conn'' := by
  obtain ⟨made, hmade, hleaves⟩ := h.effects
  obtain ⟨made', hmade', hleaves'⟩ := h'.effects
  refine ⟨h.place.trans h'.place, h'.state.trans h.state, fun hc hr => h'.reads hc (h.reads hc hr),
    made ++ made', ?_, ?_⟩
  · rw [hmade', hmade, List.append_assoc]
  · intro e he
    rcases List.mem_append.1 he with he | he
    · exact hleaves e he
    · exact hleaves' e he

theorem emit (h : Handles closes conn conn') {e : Effect} (he : e.leavesConnection = false) :
    Handles closes conn (conn'.emit e) := by
  refine h.trans ⟨⟨rfl, rfl, rfl, rfl, rfl⟩, rfl, fun _ hr => hr, [e], rfl, ?_⟩
  intro e' he'
  rw [List.mem_singleton.1 he']
  exact he

theorem withChannel (h : Handles closes conn conn') {f : Channel → Channel}
    (hfd : (f conn'.channel_).fd_ = conn'.channel_.fd_)
    (hindex : (f conn'.channel_).index_ = conn'.channel_.index_)
    (hreads : closes = false → conn'.channel_.Reads → (f conn'.channel_).Reads) :
    Handles closes conn (conn'.withChannel f) := by
  have h₁ : Handles closes conn { conn' with channel_ := f conn'.channel_ } :=
    { h with
      place := h.place.trans ⟨rfl, rfl, rfl, hfd, hindex⟩
      reads := fun hc hr => hreads hc (h.reads hc hr) }
  exact h₁.emit rfl

theorem inputBuffer (h : Handles closes conn conn') (b : Buffer) :
    Handles closes conn { conn' with inputBuffer_ := b } :=
  { h with place := h.place.trans ⟨rfl, rfl, rfl, rfl, rfl⟩ }

theorem outputBuffer (h : Handles closes conn conn') (b : Buffer) :
    Handles closes conn { conn' with outputBuffer_ := b } :=
  { h with place := h.place.trans ⟨rfl, rfl, rfl, rfl, rfl⟩ }

/-- No handler invokes the `connectionCallback`. -/
theorem count_connectionCallback (h : Handles closes conn conn') :
    conn'.effects.count .connectionCallback = conn.effects.count .connectionCallback := by
  obtain ⟨made, hmade, hleaves⟩ := h.effects
  have hnone : Effect.connectionCallback ∉ made := fun hmem =>
    absurd (hleaves _ hmem) (by decide)
  rw [hmade, List.count_append, List.count_eq_zero.2 hnone, Nat.add_zero]

end Handles

variable {closes : Bool} {conn conn' : TcpConnection}

theorem handles_handleClose (conn : TcpConnection) : Handles true conn conn.handleClose :=
  (Handles.refl conn).withChannel rfl rfl fun h => absurd h (by decide)

/-- `handleRead` closes the connection at the end of the stream, and then only. -/
theorem handles_handleRead {readv : Buffer.ReadOutcome} (h : conn.handleRead readv = some conn') :
    Handles (TcpServer.eof readv) conn conn' := by
  unfold handleRead at h
  obtain ⟨⟨b, n, e⟩, hread, rfl⟩ := Option.map_eq_some_iff.1 h
  have hinput {closes : Bool} : Handles closes conn { conn with inputBuffer_ := b } :=
    (Handles.refl conn).inputBuffer b
  cases readv with
  | bytes chunk =>
      obtain ⟨rfl, rfl⟩ := Buffer.readFd_bytes hread
      cases chunk with
      | nil => exact (hinput.emit rfl).trans (handles_handleClose _)
      | cons byte chunk =>
          have hpos : (0 : ℤ) < (byte :: chunk).length := by simp
          simp only [if_pos hpos]
          exact hinput.emit rfl
  | err errno =>
      obtain ⟨rfl, rfl, rfl⟩ : conn.inputBuffer_ = b ∧ -1 = n ∧ some errno = e := by
        simpa [Buffer.readFd] using hread
      exact hinput

theorem handles_shutdownInLoop (conn : TcpConnection) :
    Handles closes conn conn.shutdownInLoop := by
  unfold shutdownInLoop
  split_ifs
  · exact (Handles.refl conn).emit rfl
  · exact Handles.refl conn

theorem handles_handleWrite {write : WriteOutcome} (h : conn.handleWrite write = some conn') :
    Handles closes conn conn' := by
  unfold handleWrite at h
  by_cases hwriting : conn.channel_.isWriting = true
  · rw [if_pos hwriting] at h
    obtain ⟨offered, -, h⟩ := Option.bind_eq_some_iff.1 h
    let conn₁ := conn.emit (.write (offered.take write.accepted))
    let conn₂ := { conn₁ with
      outputBuffer_ := conn₁.outputBuffer_.retrieve (UInt64.ofNat write.accepted) }
    have h₁ : Handles closes conn conn₁ := (Handles.refl conn).emit rfl
    have h₂ : Handles closes conn conn₂ := h₁.outputBuffer _
    have h₃ : Handles closes conn (conn₂.withChannel Channel.disableWriting) :=
      h₂.withChannel rfl rfl fun _ => Channel.Reads.disableWriting
    simp only at h
    split_ifs at h
    all_goals rw [← Option.some.inj h]
    · exact h₃.trans (handles_shutdownInLoop _)
    · exact h₃
    · exact h₂
    · exact h₁
  · rw [if_neg hwriting] at h
    rw [← Option.some.inj h]
    exact Handles.refl conn

theorem handles_sendInLoop {message : List UInt8} {write : WriteOutcome}
    (h : conn.sendInLoop message write = some conn') : Handles closes conn conn' := by
  unfold sendInLoop at h
  have hwrite (bytes : List UInt8) : Handles closes conn (conn.emit (.write bytes)) :=
    (Handles.refl conn).emit rfl
  have henable {c : TcpConnection} (hc : Handles closes conn c) :
      Handles closes conn (c.withChannel Channel.enableWriting) :=
    hc.withChannel rfl rfl fun _ => Channel.Reads.enableWriting
  simp only [Buffer.append_eq] at h
  split_ifs at h
  all_goals rw [← Option.some.inj h]
  · exact henable ((hwrite _).outputBuffer _)
  · exact (hwrite _).outputBuffer _
  · exact hwrite _
  · exact henable ((Handles.refl conn).outputBuffer _)
  · exact (Handles.refl conn).outputBuffer _
  · exact Handles.refl conn

end TcpConnection

end WwjMuduo
