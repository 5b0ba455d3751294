import WwjMuduo.TcpConnection.Receive
import WwjMuduo.TcpConnection.Send
import WwjMuduo.TcpServer

set_option autoImplicit false

/-! # The traffic of one connection

A connection on its own: the calls of its members, in any order, with whatever the system answers.
`Traffic` keeps the account of them: the bytes that `sendInLoop` was given, and whether the interest of
the channel has been cleared.

Neither buffer ever holds more than the first bytes. The input buffer keeps what fits behind its reader
index and drops the rest; the output buffer stays empty, so that of what is sent only the part comes
out that a direct `::write` accepts. A connection that has lost bytes writes no others until its
interest is cleared. -/

namespace WwjMuduo

/-- A call of a member of a connection, with the outcome of the system call it may make. -/
inductive MemberCall where
  | connectEstablished
  | connectDestroyed
  | setState (state : StateE)
  | sendInLoop (message : List UInt8) (write : WriteOutcome)
  | shutdownInLoop
  | handleRead (readv : Buffer.ReadOutcome)
  | handleWrite (write : WriteOutcome)
  | handleClose
  | handleError

namespace MemberCall

def call (conn : TcpConnection) : MemberCall → Option TcpConnection
  | .connectEstablished => some conn.connectEstablished
  | .connectDestroyed => some conn.connectDestroyed
  | .setState state => some (conn.setState state)
  | .sendInLoop message write => conn.sendInLoop message write
  | .shutdownInLoop => some conn.shutdownInLoop
  | .handleRead readv => conn.handleRead readv
  | .handleWrite write => conn.handleWrite write
  | .handleClose => some conn.handleClose
  | .handleError => some conn.handleError

/-- What the call is asked to send. -/
def message : MemberCall → List UInt8
  | .sendInLoop message _ => message
  | _ => []

/-- The call clears the interest of the channel: it runs `handleClose`, or takes the channel out. -/
def disables : MemberCall → Bool
  | .handleClose | .connectDestroyed => true
  | .handleRead readv => TcpServer.eof readv
  | _ => false

end MemberCall

/-- A connection and the account of the calls on it. -/
structure Traffic where
  conn : TcpConnection
  /-- What `sendInLoop` has been given, in order. -/
  given : List UInt8
  /-- The interest of the channel has been cleared. -/
  disabled : Bool

/-- The chunks that `readv` has returned, in order. -/
def arrived : List Effect → List UInt8
  | [] => []
  | .readv chunk :: es => chunk ++ arrived es
  | _ :: es => arrived es

@[simp]
theorem arrived_append (es fs : List Effect) : arrived (es ++ fs) = arrived es ++ arrived fs := by
  induction es with
  | nil => rfl
  | cons e es ih =>
      cases e with
      | readv chunk => simp [arrived, ih]
      | _ => simpa [arrived] using ih

namespace Traffic

/-- A connection that has just been constructed. -/
def new (conn : TcpConnection) : Traffic := { conn := conn, given := [], disabled := false }

def step (t : Traffic) (m : MemberCall) : Option Traffic :=
  (m.call t.conn).map fun conn =>
    { conn := conn, given := t.given ++ m.message, disabled := t.disabled || m.disables }

theorem step_eq_some {t t' : Traffic} {m : MemberCall} : t.step m = some t' ↔
    m.call t.conn = some t'.conn ∧ t'.given = t.given ++ m.message ∧
      t'.disabled = (t.disabled || m.disables) := by
  obtain ⟨conn', given', disabled'⟩ := t'
  constructor
  · intro h
    obtain ⟨conn, hcall, heq⟩ := Option.map_eq_some_iff.1 h
    obtain ⟨rfl, rfl, rfl⟩ := Traffic.mk.inj heq
    exact ⟨hcall, rfl, rfl⟩
  · rintro ⟨hcall, hgiven, hdisabled⟩
    exact Option.map_eq_some_iff.2 ⟨conn', hcall, by rw [← hgiven, ← hdisabled]⟩

/-! ## The input -/

/-- What a call does to the side that reads: nothing, unless it reads. -/
structure SameInput (c c' : TcpConnection) : Prop where
  buffer : c'.inputBuffer_ = c.inputBuffer_
  arrived : arrived c'.effects = arrived c.effects

namespace SameInput

variable {c c' : TcpConnection}

theorem refl (c : TcpConnection) : SameInput c c := ⟨rfl, rfl⟩

theorem emit (h : SameInput c c') {e : Effect} (he : WwjMuduo.arrived [e] = []) :
    SameInput c (c'.emit e) := by
  refine ⟨h.buffer, ?_⟩
  rw [TcpConnection.emit, arrived_append, he, List.append_nil, h.arrived]

theorem withChannel (h : SameInput c c') (f : Channel → Channel) :
    SameInput c (c'.withChannel f) := by
  have h₁ : SameInput c { c' with channel_ := f c'.channel_ } := ⟨h.buffer, h.arrived⟩
  exact h₁.emit rfl

theorem outputBuffer (h : SameInput c c') (b : Buffer) :
    SameInput c { c' with outputBuffer_ := b } := ⟨h.buffer, h.arrived⟩

theorem shutdownInLoop (h : SameInput c c') : SameInput c c'.shutdownInLoop := by
  unfold TcpConnection.shutdownInLoop
  split_ifs
  · exact h.emit rfl
  · exact h

theorem sendInLoop {message : List UInt8} {write : WriteOutcome}
    (h : c.sendInLoop message write = some c') : SameInput c c' := by
  unfold TcpConnection.sendInLoop at h
  have hwrite (bytes : List UInt8) : SameInput c (c.emit (.write bytes)) := (refl c).emit rfl
  simp only at h
  split_ifs at h
  all_goals rw [← Option.some.inj h]
  · exact ((hwrite _).outputBuffer _).withChannel _
  · exact (hwrite _).outputBuffer _
  · exact hwrite _
  · exact ((refl c).outputBuffer _).withChannel _
  · exact (refl c).outputBuffer _
  · exact refl c

theorem handleWrite {write : WriteOutcome} (h : c.handleWrite write = some c') :
    SameInput c c' := by
  unfold TcpConnection.handleWrite at h
  split_ifs at h
  · obtain ⟨offered, -, h⟩ := Option.bind_eq_some_iff.1 h
    have hwrite : SameInput c (c.emit (.write (offered.take write.accepted))) := (refl c).emit rfl
    simp only at h
    split_ifs at h
    all_goals rw [← Option.some.inj h]
    · exact ((hwrite.outputBuffer _).withChannel _).shutdownInLoop
    · exact (hwrite.outputBuffer _).withChannel _
    · exact hwrite.outputBuffer _
    · exact hwrite
  · rw [← Option.some.inj h]
    exact refl c

end SameInput

/-- What the input buffer holds when `bytes` have arrived: those for which there is room behind its
    reader index. With the index outside the vector nothing can arrive. -/
structure Keeps (b : Buffer) (bytes : List UInt8) : Prop where
  size : b.buffer_.data.length = 1032
  readable : b.readable = some (bytes.take (1032 - b.readerIndex_.toNat))
  inside : b.WellFormed ∨
    1032 < b.readerIndex_.toNat ∧ b.writerIndex_ = b.readerIndex_ ∧ bytes = []

/-- `readv` never returns more than it has room for. -/
theorem length_le_of_readFd {b b' : Buffer} {chunk : List UInt8} {n : ℤ} {e : Option ℤ}
    (h : b.readFd (.bytes chunk) = some (b', n, e)) :
    chunk.length ≤ b.writableBytes.toNat + Buffer.extrabufSize := by
  unfold Buffer.readFd at h
  simp only at h
  by_contra hlt
  rw [if_neg hlt] at h
  exact absurd h (by simp)

theorem readFd_nil (b : Buffer) : b.readFd (.bytes []) = some (b, 0, none) := by
  unfold Buffer.readFd
  simp [CharVec.write_nil]

/-- One `readv`, whatever part of its chunk there is room for. -/
theorem Keeps.readFd {b b' : Buffer} {bytes chunk : List UInt8} {n : ℤ} {e : Option ℤ}
    (K : Keeps b bytes) (h : b.readFd (.bytes chunk) = some (b', n, e)) :
    Keeps b' (bytes ++ chunk) ∧ b'.readerIndex_ = b.readerIndex_ := by
  by_cases hnil : chunk = []
  · subst hnil
    rw [readFd_nil, Option.some.injEq, Prod.mk.injEq] at h
    obtain ⟨rfl, -⟩ := h
    rw [List.append_nil]
    exact ⟨K, rfl⟩
  · have hsize := K.size
    rcases K.inside with hwf | ⟨houtside, hwriter, -⟩
    · obtain ⟨b₁, hread, hwf', hreadable, hreader, hsize'⟩ :=
        hwf.readFd K.readable (length_le_of_readFd h)
      rw [h, Option.some.injEq, Prod.mk.injEq] at hread
      obtain ⟨rfl, -⟩ := hread
      refine ⟨⟨hsize'.trans hsize, ?_, .inl hwf'⟩, hreader⟩
      -- What is free is the room less what is there.
      have hlen := Buffer.length_readable K.readable
      have hr := hwf.reader_le
      have hw := hwf.writer_le
      rw [Buffer.toNat_readableBytes hr, List.length_take] at hlen
      have hfree : b.writableBytes.toNat = 1032 - b.readerIndex_.toNat - bytes.length := by
        rw [Buffer.toNat_writableBytes hw]
        omega
      rw [hreadable, hreader, hfree, List.take_append]
    · have houtside' : b.buffer_.data.length < b.writerIndex_.toNat := by
        rw [hsize, hwriter]
        exact houtside
      rw [Buffer.readFd_outside houtside' hnil] at h
      exact absurd h (by simp)

/-- `handleRead`, on the side that reads. -/
theorem Keeps.handleRead {c c' : TcpConnection} {readv : Buffer.ReadOutcome}
    (K : Keeps c.inputBuffer_ (arrived c.effects)) (h : c.handleRead readv = some c') :
    Keeps c'.inputBuffer_ (arrived c'.effects) ∧
      c'.inputBuffer_.readerIndex_ = c.inputBuffer_.readerIndex_ := by
  obtain ⟨⟨b, n, e⟩, hread, hc⟩ := Option.map_eq_some_iff.1 h
  cases readv with
  | err errno =>
      obtain ⟨rfl, rfl, rfl⟩ : c.inputBuffer_ = b ∧ -1 = n ∧ some errno = e := by
        simpa [Buffer.readFd] using hread
      rw [← hc]
      exact ⟨K, rfl⟩
  | bytes chunk =>
      obtain ⟨hkeeps, hreader⟩ := K.readFd hread
      let c₁ : TcpConnection := { c with inputBuffer_ := b }.emit (.readv chunk)
      have harrived : arrived c₁.effects = arrived c.effects ++ chunk := by
        show arrived (c.effects ++ [.readv chunk]) = _
        rw [arrived_append, arrived, arrived, List.append_nil]
      have hsame : SameInput c₁ c' := by
        rw [← hc]
        simp only
        split_ifs
        · exact .refl c₁
        · exact (SameInput.refl c₁).withChannel _
        · exact .refl c₁
      rw [hsame.buffer, hsame.arrived, harrived]
      exact ⟨hkeeps, hreader⟩

/-- No call touches the input but `handleRead`. -/
theorem Keeps.call {c c' : TcpConnection} {m : MemberCall}
    (K : Keeps c.inputBuffer_ (arrived c.effects)) (h : m.call c = some c') :
    Keeps c'.inputBuffer_ (arrived c'.effects) ∧
      c'.inputBuffer_.readerIndex_ = c.inputBuffer_.readerIndex_ := by
  have hsame (hs : SameInput c c') : Keeps c'.inputBuffer_ (arrived c'.effects) ∧
      c'.inputBuffer_.readerIndex_ = c.inputBuffer_.readerIndex_ := by
    rw [hs.buffer, hs.arrived]
    exact ⟨K, rfl⟩
  cases m with
  | handleRead readv => exact K.handleRead h
  | sendInLoop message write => exact hsame (.sendInLoop h)
  | handleWrite write => exact hsame (.handleWrite h)
  | connectEstablished =>
      rw [← Option.some.inj h] at hsame ⊢
      have hstate : SameInput c (c.setState .kConnected) := ⟨rfl, rfl⟩
      exact hsame ((hstate.withChannel _).emit rfl)
  | connectDestroyed =>
      rw [← Option.some.inj h] at hsame ⊢
      have hstate : SameInput c (c.setState .kDisconnected) := ⟨rfl, rfl⟩
      exact hsame (((hstate.withChannel _).emit rfl).emit rfl)
  | setState state =>
      rw [← Option.some.inj h] at hsame ⊢
      exact hsame ⟨rfl, rfl⟩
  | shutdownInLoop =>
      rw [← Option.some.inj h] at hsame ⊢
      exact hsame (SameInput.refl c).shutdownInLoop
  | handleClose =>
      rw [← Option.some.inj h] at hsame ⊢
      exact hsame ((SameInput.refl c).withChannel _)
  | handleError =>
      rw [← Option.some.inj h] at hsame ⊢
      exact hsame (.refl c)

/-! ## The output -/

/-- What has come out of `::write`. Nothing waits, and what was given comes out in order and with
    nothing in between; unless the interest of the channel has been cleared it comes out without a
    gap, and the channel waits to write exactly if some of it was lost. -/
structure Flows (t : Traffic) : Prop where
  empty : t.conn.outputBuffer_.readableBytes = 0
  sublist : (written t.conn.effects).Sublist t.given
  no_gap : t.disabled = false → written t.conn.effects <+: t.given
  writing : t.disabled = false →
    (t.conn.channel_.isWriting = true ↔ written t.conn.effects ≠ t.given)

/-- What a call does to the side that writes: nothing, unless it writes or clears the interest. -/
structure SameOutput (c c' : TcpConnection) : Prop where
  buffer : c'.outputBuffer_ = c.outputBuffer_
  written : written c'.effects = written c.effects

theorem SameOutput.emit {c c' : TcpConnection} (h : SameOutput c c') {e : Effect}
    (he : WwjMuduo.written [e] = []) : SameOutput c (c'.emit e) := by
  refine ⟨h.buffer, ?_⟩
  rw [TcpConnection.emit, written_append, he, List.append_nil, h.written]

theorem SameOutput.withChannel {c c' : TcpConnection} (h : SameOutput c c')
    (f : Channel → Channel) : SameOutput c (c'.withChannel f) := by
  have h₁ : SameOutput c { c' with channel_ := f c'.channel_ } := ⟨h.buffer, h.written⟩
  exact h₁.emit rfl

/-- `handleRead`, on the side that writes. -/
theorem SameOutput.handleRead {c c' : TcpConnection} {readv : Buffer.ReadOutcome}
    (h : c.handleRead readv = some c') : SameOutput c c' ∧
      (TcpServer.eof readv = false → c'.channel_ = c.channel_) := by
  obtain ⟨⟨b, n, e⟩, hread, hc⟩ := Option.map_eq_some_iff.1 h
  have hinput : SameOutput c { c with inputBuffer_ := b } := ⟨rfl, rfl⟩
  cases readv with
  | err errno =>
      obtain ⟨rfl, rfl, rfl⟩ : c.inputBuffer_ = b ∧ -1 = n ∧ some errno = e := by
        simpa [Buffer.readFd] using hread
      rw [← hc]
      exact ⟨hinput, fun _ => rfl⟩
  | bytes chunk =>
      obtain ⟨rfl, rfl⟩ := Buffer.readFd_bytes hread
      cases chunk with
      | nil =>
          rw [← hc]
          exact ⟨(hinput.emit rfl).withChannel _, fun h => absurd h (by decide)⟩
      | cons byte chunk =>
          have hpos : (0 : ℤ) < (byte :: chunk).length := by simp
          simp only [if_pos hpos] at hc
          rw [← hc]
          exact ⟨hinput.emit rfl, fun _ => rfl⟩

/-- A `handleWrite` without bytes to write writes none. -/
theorem handleWrite_of_empty {c c' : TcpConnection} {write : WriteOutcome}
    (hempty : c.outputBuffer_.readableBytes = 0) (h : c.handleWrite write = some c') :
    SameOutput c c' ∧ c'.channel_ = c.channel_ := by
  unfold TcpConnection.handleWrite at h
  rw [Buffer.readable_of_empty hempty, Option.bind_some] at h
  by_cases hwriting : c.channel_.isWriting = true
  · have hzero (hposs : write.Possible []) : ¬ 0 < write.accepted := by
      cases write with
      | count n =>
          have hle : n ≤ 0 := hposs
          exact Nat.not_lt.2 hle
      | err errno => exact Nat.lt_irrefl 0
    rw [if_pos hwriting] at h
    by_cases hposs : write.Possible []
    · simp only [if_pos hposs, if_neg (hzero hposs), List.take_nil, Option.some.injEq] at h
      rw [← h]
      exact ⟨SameOutput.emit ⟨rfl, rfl⟩ rfl, rfl⟩
    · rw [if_neg hposs] at h
      exact absurd h (by simp)
  · rw [if_neg hwriting, Option.some.injEq] at h
    rw [← h]
    exact ⟨⟨rfl, rfl⟩, rfl⟩

/-- While the channel waits to write, `sendInLoop` hands its message to `append`. -/
theorem sendInLoop_of_writing {c c' : TcpConnection} {message : List UInt8} {write : WriteOutcome}
    (hwriting : c.channel_.isWriting = true) (h : c.sendInLoop message write = some c') :
    c' = c := by
  unfold TcpConnection.sendInLoop at h
  simp only [hwriting, Bool.not_true, Bool.false_and, Bool.false_eq_true, false_and, if_false,
    Buffer.append_eq] at h
  split_ifs at h
  · exact (Option.some.inj h).symm
  · exact (Option.some.inj h).symm

/-- Every call but `sendInLoop` is given nothing and writes nothing. -/
theorem SameOutput.call {c c' : TcpConnection} {m : MemberCall}
    (hempty : c.outputBuffer_.readableBytes = 0) (hm : ∀ message write, m ≠ .sendInLoop message write)
    (h : m.call c = some c') : m.message = [] ∧ SameOutput c c' ∧
      (m.disables = false → c'.channel_.isWriting = c.channel_.isWriting) := by
  have hsame : SameOutput c c := ⟨rfl, rfl⟩
  have hstate (state : StateE) : SameOutput c (c.setState state) := ⟨rfl, rfl⟩
  cases m with
  | sendInLoop message write => exact absurd rfl (hm message write)
  | handleWrite write =>
      obtain ⟨hout, hchannel⟩ := handleWrite_of_empty hempty h
      exact ⟨rfl, hout, fun _ => congrArg Channel.isWriting hchannel⟩
  | handleRead readv =>
      obtain ⟨hout, hchannel⟩ := SameOutput.handleRead h
      exact ⟨rfl, hout, fun heof => congrArg Channel.isWriting (hchannel heof)⟩
  | connectEstablished =>
      rw [← Option.some.inj h]
      exact ⟨rfl, ((hstate _).withChannel _).emit rfl, fun _ => Channel.isWriting_enableReading _⟩
  | connectDestroyed =>
      rw [← Option.some.inj h]
      exact ⟨rfl, (((hstate _).withChannel _).emit rfl).emit rfl, fun h => absurd h (by decide)⟩
  | handleClose =>
      rw [← Option.some.inj h]
      exact ⟨rfl, hsame.withChannel _, fun h => absurd h (by decide)⟩
  | setState state =>
      rw [← Option.some.inj h]
      exact ⟨rfl, hstate _, fun _ => rfl⟩
  | shutdownInLoop =>
      rw [← Option.some.inj h, TcpConnection.shutdownInLoop]
      split_ifs
      · exact ⟨rfl, hsame.emit rfl, fun _ => rfl⟩
      · exact ⟨rfl, hsame, fun _ => rfl⟩
  | handleError =>
      rw [← Option.some.inj h]
      exact ⟨rfl, hsame, fun _ => rfl⟩

/-- `sendInLoop` writes at once what it can, or nothing. -/
theorem Flows.sendInLoop {t t' : Traffic} {message : List UInt8} {write : WriteOutcome}
    (F : t.Flows) (h : t.step (.sendInLoop message write) = some t') : t'.Flows := by
  obtain ⟨hcall, hgiven, hdisabled⟩ := step_eq_some.1 h
  change t'.given = t.given ++ message at hgiven
  change t'.disabled = (t.disabled || false) at hdisabled
  rw [Bool.or_false] at hdisabled
  cases hwriting : t.conn.channel_.isWriting with
  | true =>
      have hsame : t'.conn = t.conn := sendInLoop_of_writing hwriting hcall
      refine ⟨?_, ?_, ?_, ?_⟩
      · rw [hsame]
        exact F.empty
      · rw [hsame, hgiven]
        exact F.sublist.trans (List.sublist_append_left ..)
      · rw [hsame, hgiven, hdisabled]
        exact fun hd => (F.no_gap hd).trans (List.prefix_append ..)
      · rw [hsame, hgiven, hdisabled]
        intro hd
        refine iff_of_true hwriting fun heq => ?_
        -- Something was lost before, and nothing is written now.
        have hne := (F.writing hd).1 hwriting
        have hle := (F.no_gap hd).length_le
        rw [heq, List.length_append] at hle
        have hnil : message = [] := List.length_eq_zero_iff.1 (by omega)
        rw [hnil, List.append_nil] at heq
        exact hne heq
  | false =>
      have hidle : Sending.Idle ⟨t.conn, t.given⟩ := ⟨hwriting, F.empty⟩
      have hstep : Sending.step ⟨t.conn, t.given⟩ (.sendInLoop message write) =
          some ⟨t'.conn, t.given ++ message⟩ := Option.map_eq_some_iff.2 ⟨t'.conn, hcall, rfl⟩
      obtain ⟨hbuffer, -, hwritten, hwriting', hle⟩ := Sending.step_sendInLoop hidle hstep
      simp only at hbuffer hwritten hwriting'
      have hfull (hd : t.disabled = false) : written t.conn.effects = t.given := by
        by_contra hne
        rw [(F.writing hd).2 hne] at hwriting
        exact absurd hwriting (by simp)
      refine ⟨?_, ?_, ?_, ?_⟩
      · rw [hbuffer]
        exact F.empty
      · rw [hwritten, hgiven]
        exact F.sublist.append (List.take_sublist ..)
      · rw [hwritten, hgiven, hdisabled]
        intro hd
        rw [hfull hd]
        exact (List.prefix_append_right_inj _).2 (List.take_prefix ..)
      · rw [hwritten, hgiven, hdisabled, hwriting']
        intro hd
        rw [hfull hd, ne_eq, List.append_cancel_left_eq, List.take_eq_self_iff]
        omega

/-- One call. -/
theorem Flows.step {t t' : Traffic} {m : MemberCall} (F : t.Flows) (h : t.step m = some t') :
    t'.Flows := by
  by_cases hsend : ∃ message write, m = .sendInLoop message write
  · obtain ⟨message, write, rfl⟩ := hsend
    exact F.sendInLoop h
  · obtain ⟨hcall, hgiven, hdisabled⟩ := step_eq_some.1 h
    obtain ⟨hmessage, hout, hwriting⟩ :=
      SameOutput.call F.empty (fun message write heq => hsend ⟨message, write, heq⟩) hcall
    rw [hmessage, List.append_nil] at hgiven
    have hbefore (hd : t'.disabled = false) : t.disabled = false ∧ m.disables = false := by
      rwa [hdisabled, Bool.or_eq_false_iff] at hd
    refine ⟨?_, ?_, ?_, ?_⟩
    · rw [hout.buffer]
      exact F.empty
    · rw [hout.written, hgiven]
      exact F.sublist
    · rw [hout.written, hgiven]
      exact fun hd => F.no_gap (hbefore hd).1
    · rw [hout.written, hgiven]
      intro hd
      rw [hwriting (hbefore hd).2]
      exact F.writing (hbefore hd).1

/-! ## Whole runs -/

/-- Both sides of a connection. -/
structure Lawful (t : Traffic) : Prop where
  keeps : Keeps t.conn.inputBuffer_ (arrived t.conn.effects)
  flows : t.Flows

/-- The memory of a connection whose buffers start empty. -/
structure EmptyBuffers (memory : Uninitialised) : Prop where
  input : memory.inputReader = memory.inputWriter
  output : memory.outputReader = memory.outputWriter

/-- A buffer that starts empty has kept all of nothing. -/
theorem keeps_new {reader writer : UInt64} (h : reader = writer) :
    Keeps (Buffer.new reader writer) [] := by
  have hsize : (Buffer.new reader writer).buffer_.data.length = 1032 := List.length_replicate
  refine ⟨hsize, ?_, ?_⟩
  · rw [List.take_nil]
    exact Buffer.readable_of_empty (Buffer.readableBytes_eq_zero.2 h)
  · rcases Nat.lt_or_ge 1032 reader.toNat with houtside | hinside
    · exact .inr ⟨houtside, h.symm, rfl⟩
    · refine .inl ⟨?_, ?_⟩
      · show reader.toNat ≤ writer.toNat
        rw [h]
      · rw [hsize]
        show writer.toNat ≤ 1032
        rw [← h]
        exact hinside

theorem lawful_new {memory : Uninitialised} (h : EmptyBuffers memory) (loop : ℕ) (name : String)
    (sockfd : ℤ) (localAddr peerAddr : InetAddress) :
    (new (TcpConnection.new memory loop name sockfd localAddr peerAddr)).Lawful where
  keeps := keeps_new h.input
  flows :=
    { empty := Buffer.readableBytes_eq_zero.2 h.output
      sublist := List.Sublist.refl []
      no_gap := fun _ => List.prefix_rfl
      writing := by
        refine fun _ => iff_of_false ?_ fun h => h rfl
        show ¬ (Channel.new sockfd).isWriting = true
        rw [Channel.isWriting_new]
        exact Bool.false_ne_true }

theorem Lawful.step {t t' : Traffic} {m : MemberCall} (L : t.Lawful) (h : t.step m = some t') :
    t'.Lawful :=
  ⟨(L.keeps.call (step_eq_some.1 h).1).1, L.flows.step h⟩

/-- Any calls, in any order. -/
theorem Lawful.run {t t' : Traffic} {ms : List MemberCall} (L : t.Lawful)
    (h : Run.run Traffic.step t ms = some t') : t'.Lawful :=
  Run.inv_run (fun _ _ _ L h => L.step h) L h

/-- What was given is what the calls were asked to send. -/
theorem given_run {t t' : Traffic} {ms : List MemberCall}
    (h : Run.run Traffic.step t ms = some t') :
    t'.given = t.given ++ ms.flatMap MemberCall.message := by
  induction ms generalizing t with
  | nil =>
      obtain rfl : t = t' := Option.some.inj h
      exact (List.append_nil _).symm
  | cons m ms ih =>
      obtain ⟨t₁, h₁, hrest⟩ := Run.run_cons_eq_some.1 h
      rw [ih hrest, (step_eq_some.1 h₁).2.1, List.flatMap_cons, List.append_assoc]

end Traffic

end WwjMuduo
