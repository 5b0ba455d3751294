import Mathlib.Data.Int.CardIntervalMod
import WwjMuduo.TcpServer.Isolation

set_option autoImplicit false

/-! # The loops of the connections

`getNextLoop()` goes round the loops of the pool, and a connection stays on the loop that it was given.
So at any time the connections that a server has made are spread over its loops as evenly as their
number allows, and the base loop has none but where there is no other. -/

namespace WwjMuduo

/-- A member leaves the connection on its loop. -/
theorem MemberCall.loop_of_call {m : MemberCall} {conn conn' : TcpConnection}
    (h : m.call conn = some conn') : conn'.loop_ = conn.loop_ := by
  cases m with
  | connectEstablished | connectDestroyed | setState state =>
      obtain rfl := Option.some.inj h
      rfl
  | sendInLoop message write =>
      have H : conn.Handles false conn' := TcpConnection.handles_sendInLoop h
      exact H.place.loop
  | shutdownInLoop =>
      obtain rfl := Option.some.inj h
      have H : conn.Handles false conn.shutdownInLoop := TcpConnection.handles_shutdownInLoop conn
      exact H.place.loop
  | handleRead readv => exact (TcpConnection.handles_handleRead h).place.loop
  | handleWrite write =>
      have H : conn.Handles false conn' := TcpConnection.handles_handleWrite h
      exact H.place.loop
  | handleClose | handleError =>
      obtain rfl := Option.some.inj h
      rfl

namespace TcpServer

variable {s s' : TcpServer}

theorem Goes.loop {c : ConnId} {calls : List (ConnId × MemberCall)} (h : Goes c s calls s') :
    (s'.conn c).loop_ = (s.conn c).loop_ := by
  let t : Traffic := { conn := (s.conn c).own, given := [], disabled := decide (c ∈ s.closed) }
  obtain ⟨t', hrun, M⟩ := h t ⟨rfl, decide_eq_true_iff⟩
  have hloop : t'.conn.loop_ = t.conn.loop_ :=
    Run.inv_run (I := fun u => u.conn.loop_ = t.conn.loop_)
      (fun u m u' hu hm => (MemberCall.loop_of_call (Traffic.step_eq_some.1 hm).1).trans hu) rfl hrun
  rw [M.conn] at hloop
  exact hloop

/-- The counter has room for a connection that is accepted. -/
theorem Accepted.room {name : String} {n k : ℕ} {sockfd : ℤ} {peerAddr localAddr : InetAddress}
    {memory : Uninitialised} (A : Accepted name n k s)
    (h : s.newConnection sockfd peerAddr localAddr memory = some s') : k + 1 < 2 ^ 31 - 1 := by
  by_contra hfull
  rw [TcpServer.newConnection, if_pos (by rw [A.nextConnId_]; omega)] at h
  exact absurd h (by simp)

/-- The connections are on the loops that the pool's round gave them. -/
structure Placed (name : String) (n : ℕ) (s : TcpServer) : Prop where
  sound : Sound s s.queue
  accepted : Accepted name n s.made s
  loop : ∀ c < s.made, (s.conn c).loop_ = EventLoopThreadPool.loopOf n c

theorem placed_start (name : String) (n : ℕ) : Placed name n (start name n) where
  sound := sound_start name n
  accepted := accepted_start name n
  loop c hc := absurd hc (Nat.not_lt_zero c)

theorem Placed.step {name : String} {n : ℕ} {e : Event} (P : Placed name n s)
    (h : step s e = some s') : Placed name n s' := by
  have S' := P.sound.step h
  obtain ⟨henabled, hexec⟩ := Run.restrict_eq_some.1 h
  have A' := P.accepted.exec hexec
  rw [← A'.made] at A'
  refine ⟨S', A', fun c hc => ?_⟩
  cases haccepts : e.accepts with
  | false =>
      rw [(exec_frames haccepts hexec).made] at hc
      exact (Goes.exec P.sound haccepts hexec).loop.trans (P.loop c hc)
  | true =>
      cases e with
      | newConnection sockfd peerAddr localAddr memory =>
          have hroom := P.accepted.room hexec
          obtain ⟨s₁, hs₁, A₁, D⟩ :=
            P.accepted.newConnection hroom sockfd peerAddr localAddr memory
          obtain rfl : s₁ = s' := Option.some.inj (hs₁.symm.trans hexec)
          rw [A₁.made] at hc
          rcases Nat.lt_succ_iff_lt_or_eq.1 hc with hlt | rfl
          · rw [D.others c hlt]
            exact P.loop c hlt
          · exact D.loop
      | _ => exact absurd haccepts (by simp [Event.accepts])

theorem placed_run {name : String} {n : ℕ} {events : List Event}
    (h : Run.run step (start name n) events = some s) : Placed name n s :=
  Run.inv_run (I := Placed name n) (fun _ _ _ P hs => P.step hs) (placed_start name n) h

/-- How many of the connections that were made are on a loop. -/
def load (s : TcpServer) (l : LoopId) : ℕ := s.made.count fun c => (s.conn c).loop_ = l

end TcpServer

namespace EventLoopThreadPool

theorem loopOf_eq_iff {n v c : ℕ} (hv : v < n) : loopOf n c = v + 1 ↔ c ≡ v [MOD n] := by
  have hlt := Nat.mod_lt c (Nat.lt_of_le_of_lt (Nat.zero_le v) hv)
  have hloop : loopOf n c = c % n + 1 := by simp [loopOf, start, hlt]
  rw [hloop, Nat.ModEq, Nat.mod_eq_of_lt hv]
  exact Nat.succ_inj

end EventLoopThreadPool

namespace TcpServer

/-- **The load of the loops.** In every state that a server with `n` threads can reach, the `v`-th of
    its loops has an `n`-th of the connections made so far, and one more if it is among the first
    that the rest is dealt to; the base loop has none. So two loops differ by one at most. Each
    connection is still on the loop that `getNextLoop` dealt it to. -/
theorem loads {name : String} {n : ℕ} {events : List Event} {s : TcpServer}
    (h : Run.run step (start name n) events = some s) (hn : n ≠ 0) :
    (∀ v < n, s.load (v + 1) = s.made / n + if v < s.made % n then 1 else 0) ∧
      s.load baseLoop = 0 ∧ ∀ c < s.made, (s.conn c).loop_ = EventLoopThreadPool.loopOf n c := by
  have P := placed_run h
  refine ⟨?_, ?_, P.loop⟩
  · intro v hv
    have hmod {c : ℕ} (hc : c < s.made) : (s.conn c).loop_ = v + 1 ↔ c ≡ v [MOD n] := by
      rw [P.loop c hc]
      exact EventLoopThreadPool.loopOf_eq_iff hv
    have hcount : s.load (v + 1) = s.made.count (· ≡ v [MOD n]) :=
      Nat.le_antisymm (Nat.count_mono_left fun _ hc => (hmod hc).1)
        (Nat.count_mono_left fun _ hc => (hmod hc).2)
    rw [hcount, Nat.count_modEq_card _ (Nat.pos_of_ne_zero hn), Nat.mod_eq_of_lt hv]
  · refine Nat.count_of_forall_not fun c hc => ?_
    rw [P.loop c hc]
    exact EventLoopThreadPool.loopOf_ne_baseLoop hn c

/-- Three connections on two loops. -/
theorem loads_three : ∃ s, Run.run step (start "server" 2)
    ([7, 8, 9].map fun fd =>
      .newConnection fd ⟨.zero⟩ ⟨.zero⟩ (.asMeant ⟨.zero⟩)) = some s ∧
    s.load 1 = 2 ∧ s.load 2 = 1 ∧ s.load baseLoop = 0 ∧
    ∀ c < 3, (s.conn c).loop_ = EventLoopThreadPool.loopOf 2 c := by
  have hrun : ((Run.run step (start "server" 2) ([7, 8, 9].map fun fd =>
      .newConnection fd ⟨.zero⟩ ⟨.zero⟩ (.asMeant ⟨.zero⟩))).map
        TcpServer.made) = some 3 := by decide +kernel
  obtain ⟨s, hs, hmade⟩ := Option.map_eq_some_iff.1 hrun
  obtain ⟨hloads, hbase, hloop⟩ := loads hs (by decide)
  have hone := hloads 0 (by decide)
  have htwo := hloads 1 (by decide)
  rw [hmade] at hone htwo hloop
  exact ⟨s, hs, hone, htwo, hbase, hloop⟩

end TcpServer

end WwjMuduo
