import WwjMuduo.Lib.Run
import WwjMuduo.TcpConnection

set_option autoImplicit false

/-! # The send path

A run of an established connection is a sequence of `sendInLoop` and `handleWrite` calls, each with the
outcome of its `::write`. What is sent should come out of `::write` or wait in the output buffer, and
the channel should ask for write events exactly while something waits.

`Buffer::append` stores nothing. So the bytes that a direct `::write` does not take are lost, the
channel is left waiting for an empty buffer, and the run is right exactly if no direct `::write` ever
falls short. It also has to start right: the output buffer starts empty only if the two words of
memory its indices are made of happened to be equal. -/

namespace WwjMuduo

/-- A connection and the concatenation of the messages sent on it. -/
structure Sending where
  conn : TcpConnection
  sent : List UInt8

/-- A step of the send path, with the outcome of its `::write`. -/
inductive SendStep where
  | sendInLoop (message : List UInt8) (outcome : WriteOutcome)
  | handleWrite (outcome : WriteOutcome)

/-- The bytes that `::write` has accepted, in order. -/
def written : List Effect → List UInt8
  | [] => []
  | .write accepted :: es => accepted ++ written es
  | _ :: es => written es

@[simp]
theorem written_append (es fs : List Effect) : written (es ++ fs) = written es ++ written fs := by
  induction es with
  | nil => rfl
  | cons e es ih =>
      cases e with
      | write accepted => simp [written, ih]
      | _ => simpa [written] using ih

namespace Sending

/-- A connection just established, over whatever its constructor found in memory. -/
def established (memory : Uninitialised) (loop : ℕ) (name : String) (sockfd : ℤ)
    (localAddr peerAddr : InetAddress) : Sending :=
  { conn := (TcpConnection.new memory loop name sockfd localAddr peerAddr).connectEstablished
    sent := [] }

def step (s : Sending) : SendStep → Option Sending
  | .sendInLoop message outcome =>
    (s.conn.sendInLoop message outcome).map fun c => { conn := c, sent := s.sent ++ message }
  | .handleWrite outcome => (s.conn.handleWrite outcome).map fun c => { s with conn := c }

/-- No byte is lost, duplicated or reordered, and the channel wants write events exactly while the
    output buffer holds bytes. -/
def Delivers (s : Sending) : Prop :=
  (∃ waiting, s.conn.outputBuffer_.readable = some waiting ∧
    written s.conn.effects ++ waiting = s.sent) ∧
  (s.conn.channel_.isWriting = true ↔ s.conn.outputBuffer_.readableBytes ≠ 0)

/-- The `::write` of a `sendInLoop` accepts its whole message. -/
def Complete (_ : Sending) : SendStep → Prop
  | .sendInLoop message outcome => outcome.accepted = message.length
  | .handleWrite _ => True

/-- Nothing waits, and the channel does not want write events. -/
def Idle (s : Sending) : Prop :=
  s.conn.channel_.isWriting = false ∧ s.conn.outputBuffer_.readableBytes = 0

theorem Idle.delivers_iff {s : Sending} (h : s.Idle) :
    s.Delivers ↔ written s.conn.effects = s.sent := by
  unfold Delivers
  rw [Buffer.readable_of_empty h.2, h.1, h.2]
  simp

/-! ## One step from an idle connection -/

/-- A `handleWrite` that finds nothing to do changes nothing. -/
theorem step_handleWrite {s : Sending} (h : s.Idle) (outcome : WriteOutcome) :
    s.step (.handleWrite outcome) = some s := by
  unfold step TcpConnection.handleWrite
  rw [h.1]
  rfl

/-- From an idle connection `sendInLoop` writes directly. If the whole message is accepted the
    connection is idle again, and if not, its channel wants write events while nothing waits. -/
theorem step_sendInLoop {s s' : Sending} (h : s.Idle) {message : List UInt8} {outcome : WriteOutcome}
    (hs : s.step (.sendInLoop message outcome) = some s') :
    s'.conn.outputBuffer_ = s.conn.outputBuffer_ ∧ s'.sent = s.sent ++ message ∧
      written s'.conn.effects = written s.conn.effects ++ message.take outcome.accepted ∧
      (s'.conn.channel_.isWriting = true ↔ outcome.accepted < message.length) ∧
      outcome.accepted ≤ message.length := by
  unfold step TcpConnection.sendInLoop at hs
  simp only [h.1, h.2, Bool.not_false, BEq.rfl, Bool.and_true, true_and, if_true] at hs
  by_cases hposs : outcome.Possible message
  · have hle : outcome.accepted ≤ message.length := by
      cases outcome with
      | count n => exact hposs
      | err errno => exact Nat.zero_le _
    rw [if_neg (not_not.2 hposs)] at hs
    by_cases hlt : outcome.accepted < message.length
    · rw [if_pos hlt] at hs
      simp only [TcpConnection.emit, h.1, Option.map_some, Option.some.injEq] at hs
      subst hs
      simp [TcpConnection.withChannel, TcpConnection.emit, written, hlt, hle]
    · rw [if_neg hlt] at hs
      simp only [TcpConnection.emit, Option.map_some, Option.some.injEq] at hs
      subst hs
      simp [written, h.1, hlt, hle]
  · rw [if_pos hposs] at hs
    exact absurd hs (by simp)

/-- One step of an idle connection that has delivered everything goes on delivering exactly if it
    meets `Complete`. -/
theorem delivers_step_iff {s s' : Sending} {e : SendStep} (h : s.Idle) (hd : s.Delivers)
    (hs : s.step e = some s') : s'.Delivers ↔ s.Complete e := by
  cases e with
  | handleWrite outcome =>
      rw [step_handleWrite h, Option.some.injEq] at hs
      subst hs
      exact ⟨fun _ => trivial, fun _ => hd⟩
  | sendInLoop message outcome =>
      obtain ⟨hbuf, hsent, hwritten, hwriting, hle⟩ := step_sendInLoop h hs
      have hzero : s'.conn.outputBuffer_.readableBytes = 0 := by
        rw [hbuf]
        exact h.2
      have hw := h.delivers_iff.1 hd
      show s'.Delivers ↔ outcome.accepted = message.length
      constructor
      · intro hd'
        have hfull : ¬ outcome.accepted < message.length :=
          fun hlt => hd'.2.1 (hwriting.2 hlt) hzero
        omega
      · intro hfull
        have hidle : s'.Idle := by
          refine ⟨?_, hzero⟩
          rw [← Bool.not_eq_true, hwriting]
          omega
        rw [hidle.delivers_iff, hwritten, hsent, hw, hfull, List.take_length]

/-- A connection that delivers after a step from an idle one is idle. -/
theorem idle_step {s s' : Sending} {e : SendStep} (h : s.Idle) (hs : s.step e = some s')
    (hd' : s'.Delivers) : s'.Idle := by
  cases e with
  | handleWrite outcome =>
      rw [step_handleWrite h, Option.some.injEq] at hs
      exact hs ▸ h
  | sendInLoop message outcome =>
      obtain ⟨hbuf, -⟩ := step_sendInLoop h hs
      have hzero : s'.conn.outputBuffer_.readableBytes = 0 := by
        rw [hbuf]
        exact h.2
      refine ⟨?_, hzero⟩
      rw [← Bool.not_eq_true, hd'.2]
      exact not_not.2 hzero

/-! ## Whole runs -/

/-- A new connection has delivered what was sent, nothing, exactly if its output buffer is empty. -/
theorem established_delivers_iff (memory : Uninitialised) (loop : ℕ) (name : String) (sockfd : ℤ)
    (localAddr peerAddr : InetAddress) :
    (established memory loop name sockfd localAddr peerAddr).Delivers ↔
      memory.outputReader = memory.outputWriter := by
  let s := established memory loop name sockfd localAddr peerAddr
  have hwriting : s.conn.channel_.isWriting = false := TcpConnection.isWriting_established ..
  have hempty : s.conn.outputBuffer_.readableBytes = 0 ↔
      memory.outputReader = memory.outputWriter := Buffer.readableBytes_eq_zero
  rw [← hempty]
  constructor
  · intro hd
    by_contra hne
    rw [hd.2.2 hne] at hwriting
    exact Bool.noConfusion hwriting
  · intro hzero
    exact (Idle.delivers_iff ⟨hwriting, hzero⟩).2 rfl

/-- **Send path.** For every established connection and every run of `sendInLoop` and `handleWrite`,
    the bytes written and the bytes waiting are the bytes sent in every state, and the channel wants
    write events exactly while bytes wait, exactly if the memory of the output buffer's two indices
    held equal values and the `::write` of every `sendInLoop` accepts its whole message. -/
theorem delivers_along_iff (memory : Uninitialised) (loop : ℕ) (name : String) (sockfd : ℤ)
    (localAddr peerAddr : InetAddress) (es : List SendStep) :
    Run.Along step Delivers (established memory loop name sockfd localAddr peerAddr) es ↔
      memory.outputReader = memory.outputWriter ∧
        Run.Meets step Complete (established memory loop name sockfd localAddr peerAddr) es := by
  let s := established memory loop name sockfd localAddr peerAddr
  have hd := established_delivers_iff memory loop name sockfd localAddr peerAddr
  by_cases hmem : memory.outputReader = memory.outputWriter
  · have hidle : s.Idle :=
      ⟨TcpConnection.isWriting_established .., Buffer.readableBytes_eq_zero.2 hmem⟩
    rw [Run.along_iff_meets (I := Idle) (fun _ _ _ h _ hs hd' => idle_step h hs hd')
      (fun _ _ _ h hd hs => delivers_step_iff h hd hs) hidle, hd]
  · constructor
    · intro h
      exact absurd (hd.1 h.head) hmem
    · intro h
      exact absurd h.1 hmem

/-- Two bytes of a five-byte message are accepted: the other three are in no buffer, and the channel
    waits for write events with nothing to write. -/
theorem delivers_fails_on_short_write :
    ∃ s, Run.run step
      (established (.asMeant ⟨.zero⟩) 0 "#1" 5 ⟨.zero⟩ ⟨.zero⟩)
      [.sendInLoop [1, 2, 3, 4, 5] (.count 2)] = some s ∧
      written s.conn.effects = [1, 2] ∧ s.conn.outputBuffer_.readable = some [] ∧
      s.conn.channel_.isWriting = true ∧ ¬ s.Delivers := by
  refine ⟨_, rfl, rfl, rfl, rfl, fun hd => ?_⟩
  exact hd.2.1 rfl rfl

end Sending

end WwjMuduo
