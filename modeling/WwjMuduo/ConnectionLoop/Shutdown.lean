import Mathlib.Data.Fintype.Option
import WwjMuduo.ConnectionLoop

set_option autoImplicit false

/-! # Shutdown

`shutdownWrite` should find everything written that had been sent before, and nothing should be
written after it. While nothing waits in the output buffer, what has been sent waits in the loop's
functors or is on its way there from a `send` call. A `shutdownInLoop` that was queued has those that
were queued before it behind it. One that the loop thread runs at once has not, and neither kind knows of
a `send` that has looked at `state_` and not yet come to its `runInLoop`. -/

namespace WwjMuduo

def ConnFunctor.sends : ConnFunctor → Bool
  | .sendInLoop _ => true
  | _ => false

def Calling.sends : Calling → Bool
  | .sending _ => true
  | _ => false

namespace ConnectionLoop

variable {τ : Type*}

/-- At each `shutdownWrite` the messages whose `send` had returned before `shutdown` was called have been
    through `sendInLoop`, and `::write` has accepted them and all before them to the last byte; after it
    there is no `::write`. -/
def Graceful (s : ConnectionLoop τ) : Prop :=
  ∀ pre post, s.conn.effects = pre ++ .shutdownWrite :: post →
    (∃ k, (∀ m ∈ s.promised, m ∈ s.sent.take k) ∧
      (s.sent.take k).flatMap Message.bytes <+: written pre) ∧
    ∀ accepted, Effect.write accepted ∉ post

/-- No `sendInLoop` waits, and no `send` is on its way to its `runInLoop`. -/
def Settled (s : ConnectionLoop τ) : Prop :=
  (∀ f ∈ s.loop.waiting, f.sends = false) ∧ ∀ t, (s.calling t).sends = false

/-- The event runs `shutdownInLoop`. -/
def shuts (s : ConnectionLoop τ) : ConnectionEvent τ → Bool
  | .submitShutdown none => true
  | .call _ => s.loop.functors.head? = some .shutdownInLoop
  | _ => false

/-- `shutdownInLoop` finds the channel writing, or no `send` under way. -/
def InTurn (s : ConnectionLoop τ) (e : ConnectionEvent τ) : Prop :=
  s.shuts e = true → s.conn.channel_.isWriting = false → s.Settled

instance [Fintype τ] (s : ConnectionLoop τ) : Decidable s.Settled :=
  inferInstanceAs (Decidable (_ ∧ _))

instance [Fintype τ] (s : ConnectionLoop τ) (e : ConnectionEvent τ) : Decidable (s.InTurn e) :=
  inferInstanceAs (Decidable (_ → _))

/-! ## The connection with an empty output buffer -/

section Connection

variable {c c' : TcpConnection}

/-- `sendInLoop`: if the channel is not writing afterwards, it was not before, and all of the message is
    accepted. -/
theorem sendInLoop_of_empty (h0 : c.outputBuffer_.readableBytes = 0) {message : List UInt8}
    {outcome : WriteOutcome} (h : c.sendInLoop message outcome = some c') :
    c'.outputBuffer_ = c.outputBuffer_ ∧ c'.state_ = c.state_ ∧
      (∃ more, c'.effects = c.effects ++ more ∧ Effect.shutdownWrite ∉ more) ∧
      (c'.channel_.isWriting = false → c.channel_.isWriting = false ∧
        written c'.effects = written c.effects ++ message) := by
  unfold TcpConnection.sendInLoop at h
  cases hw : c.channel_.isWriting with
  | true =>
      simp only [hw, h0, Bool.not_true, Bool.false_and, Bool.false_eq_true, false_and, if_false] at h
      split at h
      · obtain rfl := Option.some.inj h
        exact ⟨rfl, rfl, ⟨[], by simp⟩, fun h => absurd (hw.symm.trans h) (by simp)⟩
      · obtain rfl := Option.some.inj h
        exact ⟨rfl, rfl, ⟨[], by simp⟩, fun h => absurd (hw.symm.trans h) (by simp)⟩
  | false =>
      simp only [hw, h0, Bool.not_false, BEq.rfl, Bool.and_true, true_and, if_true] at h
      split at h
      · exact absurd h (by simp)
      · next hposs =>
          have hposs := not_not.1 hposs
          split at h
          · next hlt =>
              simp only [TcpConnection.emit, hw, Bool.not_false, if_true] at h
              obtain rfl := Option.some.inj h
              refine ⟨rfl, rfl, ⟨[.write (message.take outcome.accepted), .updateChannel], ?_, ?_⟩, ?_⟩
              · simp [TcpConnection.withChannel, TcpConnection.emit]
              · simp
              · intro h
                simp [TcpConnection.withChannel, TcpConnection.emit] at h
          · next hge =>
              obtain rfl := Option.some.inj h
              refine ⟨rfl, rfl, ⟨[.write (message.take outcome.accepted)], rfl, by simp⟩, fun _ => ?_⟩
              refine ⟨rfl, ?_⟩
              rw [show (c.emit (.write (message.take outcome.accepted))).effects =
                c.effects ++ [.write (message.take outcome.accepted)] from rfl, written_append]
              rw [List.take_of_length_le (by omega)]
              simp [written]

/-- `handleWrite` has nothing to write. -/
theorem handleWrite_of_empty (h0 : c.outputBuffer_.readableBytes = 0) {outcome : WriteOutcome}
    (h : c.handleWrite outcome = some c') :
    (c.channel_.isWriting = false ∧ c' = c) ∨
      (c.channel_.isWriting = true ∧ c' = c.emit (.write [])) := by
  unfold TcpConnection.handleWrite at h
  rw [Buffer.readable_of_empty h0] at h
  cases hw : c.channel_.isWriting with
  | false =>
      rw [hw] at h
      exact .inl ⟨rfl, (Option.some.inj h).symm⟩
  | true =>
      rw [hw] at h
      simp only [if_true, Option.bind_some, List.take_nil] at h
      split at h
      · next hposs =>
          have hzero : outcome.accepted = 0 := by
            cases outcome with
            | count n => exact Nat.le_zero.1 hposs
            | err errno => rfl
          simp only [hzero, Nat.lt_irrefl, if_false] at h
          exact .inr ⟨rfl, (Option.some.inj h).symm⟩
      · exact absurd h (by simp)

end Connection

/-! ## The invariant -/

/-- The half-close has been made. -/
def Closed (s : ConnectionLoop τ) : Prop := .shutdownWrite ∈ s.conn.effects

/-- The message has been through `sendInLoop`, or waits for it. -/
def Handed (s : ConnectionLoop τ) (m : Message) : Prop :=
  m ∈ s.sent ∨ .sendInLoop m ∈ s.loop.waiting

structure CloseInv (s : ConnectionLoop τ) : Prop where
  drained : s.loop.Drained
  empty : s.conn.outputBuffer_.readableBytes = 0
  accepted : s.conn.channel_.isWriting = false →
    written s.conn.effects = s.sent.flatMap Message.bytes
  submitted : ∀ t m, s.calling t = .submitted m → s.Handed m
  returned : ∀ m ∈ s.returned, s.Handed m
  promised : ∀ m ∈ s.promised, m ∈ s.returned
  shutting : ∀ t, s.calling t = .shutting → s.conn.state_ ≠ .kConnected
  queued : .shutdownInLoop ∈ s.loop.waiting → s.conn.state_ ≠ .kConnected
  closed : s.Closed → s.conn.state_ ≠ .kConnected ∧ s.conn.channel_.isWriting = false ∧ s.Settled
  graceful : s.Graceful

variable {s s' : ConnectionLoop τ}

theorem graceful_of_not_closed (h : ¬s.Closed) : s.Graceful := by
  intro pre post hsplit
  exact absurd (by rw [Closed, hsplit]; simp) h

/-- A `send` under way is under way before the half-close. -/
theorem CloseInv.not_closed_of_sending (I : CloseInv s) {t : Option τ}
    (h : (s.calling t).sends = true) : ¬s.Closed := by
  intro hc
  rw [(I.closed hc).2.2.2 t] at h
  exact absurd h (by simp)

theorem CloseInv.not_closed_of_waiting (I : CloseInv s) {m : Message}
    (h : .sendInLoop m ∈ s.loop.waiting) : ¬s.Closed := by
  intro hc
  have hsends := (I.closed hc).2.2.1 _ h
  exact absurd hsends (by simp [ConnFunctor.sends])

theorem CloseInv.not_closed_of_connected (I : CloseInv s) (h : s.conn.state_ = .kConnected) :
    ¬s.Closed := fun hc => (I.closed hc).1 h

/-- Another state of the loop: what waits is allowed to, and no message has been dropped. -/
theorem CloseInv.withLoop (I : CloseInv s) {loop : Loop ConnFunctor τ} (D : loop.Drained)
    (hnew : ∀ f ∈ loop.waiting, f ∈ s.loop.waiting ∨
      ((f = .shutdownInLoop → s.conn.state_ ≠ .kConnected) ∧ (f.sends = true → ¬s.Closed)))
    (hkeep : ∀ m, .sendInLoop m ∈ s.loop.waiting → .sendInLoop m ∈ loop.waiting ∨ m ∈ s.sent) :
    CloseInv { s with loop := loop } := by
  have hhanded : ∀ m, s.Handed m → Handed { s with loop := loop } m := by
    rintro m (h | h)
    · exact .inl h
    · exact (hkeep m h).symm
  refine ⟨D, I.empty, I.accepted, fun t m h => hhanded m (I.submitted t m h),
    fun m h => hhanded m (I.returned m h), I.promised, I.shutting, fun h => ?_, fun hc => ?_, I.graceful⟩
  · rcases hnew _ h with h | h
    · exact I.queued h
    · exact h.1 rfl
  · obtain ⟨hstate, hwriting, hwaiting, hcalling⟩ := I.closed hc
    refine ⟨hstate, hwriting, fun f hf => ?_, hcalling⟩
    rcases hnew f hf with h | h
    · exact hwaiting f h
    · by_contra hs
      exact h.2 (by simpa using hs) hc

variable [DecidableEq τ]

omit [DecidableEq τ] in
theorem closed_append {more : List Effect} {conn : TcpConnection}
    (h : conn.effects = s.conn.effects ++ more) (hmore : .shutdownWrite ∉ more) :
    (s.withConn conn).Closed ↔ s.Closed := by
  show _ ∈ conn.effects ↔ _
  rw [h, List.mem_append]
  exact or_iff_left hmore

omit [DecidableEq τ] in
/-- `sendInLoop`, before the half-close. -/
theorem CloseInv.sendInLoop (I : CloseInv s) (hopen : ¬s.Closed) {message : Message}
    {outcome : WriteOutcome} (h : s.sendInLoop message outcome = some s') :
    CloseInv s' ∧ s'.loop = s.loop ∧ s'.sent = s.sent ++ [message] ∧ s'.calling = s.calling ∧
      ¬s'.Closed := by
  obtain ⟨conn, hconn, rfl⟩ := Option.map_eq_some_iff.1 h
  obtain ⟨hbuf, hstate, ⟨more, hmore, hshut⟩, hacc⟩ := sendInLoop_of_empty I.empty hconn
  have hopen' : ¬Closed { s with conn := conn, sent := s.sent ++ [message] } :=
    fun hc => hopen ((closed_append hmore hshut).1 hc)
  have hhanded : ∀ m, s.Handed m → Handed { s with conn := conn, sent := s.sent ++ [message] } m :=
    fun m h => h.imp_left (List.mem_append_left _)
  refine ⟨⟨I.drained, ?_, fun hw => ?_, fun t m h => hhanded m (I.submitted t m h),
    fun m h => hhanded m (I.returned m h), I.promised, fun t h => ?_, fun h => ?_,
    fun hc => absurd hc hopen', graceful_of_not_closed hopen'⟩, rfl, rfl, rfl, hopen'⟩
  · show conn.outputBuffer_.readableBytes = 0
    rw [hbuf]
    exact I.empty
  · obtain ⟨hw', hwritten⟩ := hacc hw
    show written conn.effects = _
    rw [hwritten, I.accepted hw', List.flatMap_append]
    simp
  · show conn.state_ ≠ .kConnected
    rw [hstate]
    exact I.shutting t h
  · show conn.state_ ≠ .kConnected
    rw [hstate]
    exact I.queued h

/-- Another place of one thread. -/
theorem CloseInv.setCalling (I : CloseInv s) (t : Option τ) {c : Calling}
    (hsubmitted : ∀ m, c = .submitted m → s.Handed m)
    (hshutting : c = .shutting → s.conn.state_ ≠ .kConnected)
    (hsends : c.sends = true → ¬s.Closed) : CloseInv (s.setCalling t c) := by
  have hcalling : ∀ u, (s.setCalling t c).calling u = if u = t then c else s.calling u :=
    fun u => Function.update_apply ..
  refine ⟨I.drained, I.empty, I.accepted, fun u m h => ?_, I.returned, I.promised, fun u h => ?_,
    I.queued, fun hc => ?_, I.graceful⟩
  · rw [hcalling] at h
    split at h
    · exact hsubmitted m h
    · exact I.submitted u m h
  · rw [hcalling] at h
    split at h
    · exact hshutting h
    · exact I.shutting u h
  · obtain ⟨hstate, hwriting, hwaiting, hidle⟩ := I.closed hc
    refine ⟨hstate, hwriting, hwaiting, fun u => ?_⟩
    rw [hcalling]
    split
    · by_contra hs
      exact hsends (by simpa using hs) hc
    · exact hidle u

/-- `send` returns: its message has been handed over. -/
theorem CloseInv.returns (I : CloseInv s) (t : Option τ) {m : Message} (hm : s.Handed m) :
    CloseInv (s.returns t m) := by
  have J := I.setCalling t (c := .no) (by simp) (by simp) (by simp [Calling.sends])
  refine ⟨J.drained, J.empty, J.accepted, J.submitted, fun m' h => ?_, fun m' h => ?_,
    J.shutting, J.queued, J.closed, J.graceful⟩
  · rcases List.mem_append.1 h with h | h
    · exact I.returned m' h
    · rw [List.mem_singleton.1 h]
      exact hm
  · exact List.mem_append_left _ (I.promised m' h)

omit [DecidableEq τ] in
/-- With no `send` under way, all that has returned has been written. -/
theorem CloseInv.all_accepted (I : CloseInv s) (hwriting : s.conn.channel_.isWriting = false)
    (hsettled : s.Settled) : ∃ k, (∀ m ∈ s.promised, m ∈ s.sent.take k) ∧
      (s.sent.take k).flatMap Message.bytes <+: written s.conn.effects := by
  refine ⟨s.sent.length, fun m hm => ?_, ?_⟩
  · rw [List.take_length]
    rcases I.returned m (I.promised m hm) with h | h
    · exact h
    · exact absurd (hsettled.1 _ h) (by simp [ConnFunctor.sends])
  · rw [List.take_length, I.accepted hwriting]

omit [DecidableEq τ] in
/-- `shutdownInLoop`, with no `send` under way if it is going to half-close. -/
theorem CloseInv.shutdownInLoop (I : CloseInv s) (hstate : s.conn.state_ ≠ .kConnected)
    (hC : s.conn.channel_.isWriting = false → s.Settled) :
    CloseInv (s.withConn s.conn.shutdownInLoop) := by
  cases hw : s.conn.channel_.isWriting with
  | true =>
      rw [TcpConnection.shutdownInLoop_of_writing hw]
      exact I
  | false =>
      have hsettled := hC hw
      have hemit := TcpConnection.shutdownInLoop_of_not_writing hw
      have heffects : (s.conn.emit .shutdownWrite).effects = s.conn.effects ++ [.shutdownWrite] := rfl
      rw [hemit]
      refine ⟨I.drained, I.empty, fun hw' => ?_, I.submitted, I.returned, I.promised, I.shutting,
        I.queued, fun _ => ⟨hstate, hw, hsettled⟩, fun pre post hsplit => ?_⟩
      · show written (s.conn.emit .shutdownWrite).effects = _
        rw [heffects, written_append, I.accepted hw]
        exact List.append_nil _
      · have hsplit : s.conn.effects ++ [.shutdownWrite] = pre ++ .shutdownWrite :: post := hsplit
        rcases List.eq_nil_or_concat post with rfl | ⟨init, last, rfl⟩
        · obtain ⟨rfl, -⟩ := List.append_inj' hsplit rfl
          exact ⟨I.all_accepted hw hsettled, fun accepted => List.not_mem_nil⟩
        · -- an earlier one, with this one behind it
          rw [List.concat_eq_append, ← List.cons_append, ← List.append_assoc] at hsplit
          obtain ⟨hinit, hlast⟩ := List.append_inj' hsplit rfl
          obtain ⟨hacc, hno⟩ := I.graceful pre init hinit
          refine ⟨hacc, fun accepted hmem => ?_⟩
          rw [List.concat_eq_append, List.mem_append] at hmem
          rcases hmem with hmem | hmem
          · exact hno accepted hmem
          · rw [← List.singleton_inj.1 hlast, List.mem_singleton] at hmem
            exact absurd hmem (by simp)

/-! ## The steps -/

/-- The loop has taken the functor it calls from its batch. -/
theorem CloseInv.taken (I : CloseInv s) (he : s.loop.Enabled .call) {f : ConnFunctor}
    {functors : List ConnFunctor} (hf : s.loop.functors = f :: functors)
    (hsent : ∀ m, f = .sendInLoop m → m ∈ s.sent) :
    CloseInv { s with loop := s.loop.exec .call } := by
  obtain ⟨hwaiting, -⟩ := Loop.waiting_call hf
  have D := I.drained.step (Loop.step_eq_some.2 ⟨he, rfl⟩)
  refine I.withLoop D (fun g hg => .inl ?_) fun m hm => ?_
  · rw [hwaiting]
    exact List.mem_cons_of_mem _ hg
  · rw [hwaiting] at hm
    rcases List.mem_cons.1 hm with hm | hm
    · exact .inr (hsent m hm.symm)
    · exact .inl hm

/-- `functors[i]()`. -/
theorem CloseInv.call (I : CloseInv s) {outcome : WriteOutcome} (he : s.loop.Enabled .call)
    (hC : s.InTurn (.call outcome)) (h : s.call outcome = some s') : CloseInv s' := by
  obtain ⟨f, functors, hf⟩ := List.exists_cons_of_ne_nil he.2.2
  have hwaiting := (Loop.waiting_call hf).1
  unfold ConnectionLoop.call at h
  simp only [hf] at h
  cases f with
  | sendInLoop m =>
      have hmem : .sendInLoop m ∈ s.loop.waiting := by
        rw [hwaiting]
        exact List.mem_cons_self
      obtain ⟨conn, hconn, rfl⟩ := Option.map_eq_some_iff.1 h
      have hsend : s.sendInLoop m outcome = some { s with conn := conn, sent := s.sent ++ [m] } :=
        Option.map_eq_some_iff.2 ⟨conn, hconn, rfl⟩
      obtain ⟨J, -⟩ := I.sendInLoop (I.not_closed_of_waiting hmem) hsend
      refine J.taken he hf fun m' hm' => ?_
      obtain rfl := ConnFunctor.sendInLoop.inj hm'
      exact List.mem_append_right _ List.mem_cons_self
  | shutdownInLoop =>
      obtain rfl := Option.some.inj h
      have hmem : .shutdownInLoop ∈ s.loop.waiting := by
        rw [hwaiting]
        exact List.mem_cons_self
      have J := I.taken he hf (by simp)
      refine J.shutdownInLoop (I.queued hmem) fun hw => ?_
      obtain ⟨hsettled, hcalling⟩ := hC (by simp [shuts, hf]) hw
      refine ⟨fun g hg => hsettled g ?_, hcalling⟩
      rw [hwaiting]
      exact List.mem_cons_of_mem _ hg
  | other =>
      obtain rfl := Option.some.inj h
      exact I.taken he hf (by simp)

/-- A push by another thread. -/
theorem CloseInv.pushed (I : CloseInv s) {t : τ} (hfree : s.loop.Free (some t)) (f : ConnFunctor)
    (hshut : f = .shutdownInLoop → s.conn.state_ ≠ .kConnected)
    (hsends : f.sends = true → ¬s.Closed) :
    CloseInv (s.pushed (some t) f) ∧ f ∈ (s.pushed (some t) f).loop.waiting := by
  have hwaiting := I.drained.waiting_exec (e := .runInLoop (some t) f) hfree (by simp)
  have D := I.drained.step (e := .runInLoop (some t) f) (Loop.step_eq_some.2 ⟨hfree, rfl⟩)
  constructor
  · refine I.withLoop D (fun g hg => ?_) fun m hm => .inl ?_
    · rw [hwaiting] at hg
      rcases List.mem_append.1 hg with hg | hg
      · exact .inl hg
      · rw [List.mem_singleton.1 hg]
        exact .inr ⟨hshut, hsends⟩
    · rw [hwaiting]
      exact List.mem_append_left _ hm
  · show f ∈ (s.loop.exec (.runInLoop (some t) f)).waiting
    rw [hwaiting]
    exact List.mem_append_right _ List.mem_cons_self

/-- The other steps of the loop. -/
theorem CloseInv.on (I : CloseInv s) {e : LoopEvent ConnFunctor τ} (hadmits : s.Admits e)
    (he : s.loop.Enabled e) : CloseInv { s with loop := s.loop.exec e } := by
  have hcall : e ≠ .call := by
    rintro rfl
    exact hadmits
  have hwaiting := I.drained.waiting_exec he hcall
  have hother : ∀ f ∈ e.pushes, f = .other := by
    intro f hf
    cases e with
    | queueInLoop t g =>
        rw [List.mem_singleton.1 hf]
        exact hadmits.1
    | runInLoop t g =>
        cases t with
        | none => simp [LoopEvent.pushes] at hf
        | some t =>
            rw [List.mem_singleton.1 hf]
            exact hadmits.1
    | _ => simp [LoopEvent.pushes] at hf
  refine I.withLoop (I.drained.step (Loop.step_eq_some.2 ⟨he, rfl⟩)) (fun f hf => ?_)
    fun m hm => .inl ?_
  · rw [hwaiting] at hf
    rcases List.mem_append.1 hf with hf | hf
    · exact .inl hf
    · rw [hother f hf]
      exact .inr ⟨by simp, by simp [ConnFunctor.sends]⟩
  · rw [hwaiting]
    exact List.mem_append_left _ hm

/-- The rest of `send`. -/
theorem CloseInv.submit (I : CloseInv s) {t : Option τ} {m : Message} {outcome : WriteOutcome}
    (hfree : s.loop.Free t) (hcalling : s.calling t = .sending m)
    (h : s.submit t m outcome = some s') : CloseInv s' := by
  have hopen : ¬s.Closed := I.not_closed_of_sending (t := t) (by rw [hcalling]; rfl)
  unfold ConnectionLoop.submit at h
  cases t with
  | none =>
      simp only [if_true] at h
      obtain ⟨s₁, hsend, rfl⟩ := Option.map_eq_some_iff.1 h
      obtain ⟨J, -, hsent, -, -⟩ := I.sendInLoop hopen hsend
      refine J.returns none (.inl ?_)
      rw [hsent]
      exact List.mem_append_right _ List.mem_cons_self
  | some t =>
      simp only [reduceCtorEq, if_false] at h
      obtain rfl := Option.some.inj h
      obtain ⟨J, hmem⟩ := I.pushed hfree (.sendInLoop m) (by simp) fun _ => hopen
      refine J.setCalling (some t) (fun m' hm' => ?_) (by simp) (by simp [Calling.sends])
      obtain rfl := Calling.submitted.inj hm'
      exact .inr hmem

/-- The rest of `shutdown`. -/
theorem CloseInv.submitShutdown (I : CloseInv s) {t : Option τ} (hfree : s.loop.Free t)
    (hcalling : s.calling t = .shutting) (hC : s.InTurn (.submitShutdown t)) :
    CloseInv (s.submitShutdown t) := by
  have hstate := I.shutting t hcalling
  have hno {s : ConnectionLoop τ} (J : CloseInv s) (t : Option τ) : CloseInv (s.setCalling t .no) :=
    J.setCalling t (by simp) (by simp) (by simp [Calling.sends])
  unfold ConnectionLoop.submitShutdown
  cases t with
  | none => exact hno (I.shutdownInLoop hstate (hC rfl)) none
  | some t =>
      obtain ⟨J, -⟩ := I.pushed hfree .shutdownInLoop (fun _ => hstate) (by simp [ConnFunctor.sends])
      exact hno J (some t)

/-- **One step in turn keeps the invariant.** -/
theorem CloseInv.step (I : CloseInv s) {e : ConnectionEvent τ} (hC : s.InTurn e)
    (h : ConnectionLoop.step s e = some s') : CloseInv s' := by
  obtain ⟨he, h⟩ := Run.restrict_eq_some.1 h
  cases e with
  | send t bytes =>
      obtain rfl := Option.some.inj h
      unfold ConnectionLoop.send
      split
      · next hconnected =>
          have J := I.setCalling t (c := .sending ⟨s.numbers, bytes⟩) (by simp) (by simp)
            fun _ => I.not_closed_of_connected hconnected
          exact { J with }
      · exact I
  | submit t outcome =>
      obtain ⟨m, hcalling, h⟩ := exec_submit.1 h
      exact I.submit he hcalling h
  | sendReturned t =>
      obtain ⟨m, hcalling, rfl⟩ := exec_sendReturned.1 h
      exact I.returns t (I.submitted t m hcalling)
  | shutdown t =>
      obtain rfl := Option.some.inj h
      unfold ConnectionLoop.shutdown
      split
      · next hconnected =>
          have hopen := I.not_closed_of_connected hconnected
          have J := I.setCalling t (c := .disconnecting) (by simp) (by simp) (by simp [Calling.sends])
          exact { J with promised := fun _ hm => hm, graceful := graceful_of_not_closed hopen }
      · exact I
  | setState t =>
      obtain ⟨-, rfl⟩ := exec_setState.1 h
      have J : CloseInv (s.withConn (s.conn.setState .kDisconnecting)) :=
        { I with
          shutting := fun _ _ => by simp [withConn, TcpConnection.setState]
          queued := fun _ => by simp [withConn, TcpConnection.setState]
          closed := fun hc =>
            ⟨by simp [withConn, TcpConnection.setState], (I.closed hc).2.1, (I.closed hc).2.2⟩ }
      exact J.setCalling t (by simp) (fun _ => by simp [withConn, TcpConnection.setState])
        (by simp [Calling.sends])
  | submitShutdown t =>
      obtain ⟨hcalling, rfl⟩ := exec_submitShutdown.1 h
      exact I.submitShutdown he hcalling hC
  | call outcome => exact I.call he.2 hC h
  | on e =>
      obtain rfl := Option.some.inj h
      exact I.on he.1 he.2
  | handleWrite outcome =>
      obtain ⟨conn, hconn, rfl⟩ := Option.map_eq_some_iff.1 h
      rcases handleWrite_of_empty I.empty hconn with ⟨-, rfl⟩ | ⟨hw, rfl⟩
      · exact I
      · have hopen : ¬s.Closed := fun hc => by simp [(I.closed hc).2.1] at hw
        have heffects : (s.conn.emit (.write [])).effects = s.conn.effects ++ [.write []] := rfl
        have hopen' : ¬(s.withConn (s.conn.emit (.write []))).Closed :=
          fun hc => hopen ((closed_append heffects (by simp)).1 hc)
        exact { I with
          accepted := fun hw' => absurd (hw.symm.trans hw') (by simp)
          closed := fun hc => absurd hc hopen'
          graceful := graceful_of_not_closed hopen' }

/-! ## Runs -/

omit [DecidableEq τ] in
/-- A new connection whose output buffer is empty. -/
theorem closeInv_established {memory : Uninitialised} (hmemory : memory.outputReader = memory.outputWriter)
    (loop : ℕ) (name : String) (sockfd : ℤ) (localAddr peerAddr : InetAddress) :
    CloseInv (established memory loop name sockfd localAddr peerAddr : ConnectionLoop τ) where
  drained := Loop.drained_new
  empty := Buffer.readableBytes_eq_zero.2 hmemory
  accepted _ := rfl
  submitted t m h := by simp [established] at h
  returned m h := by simp [established] at h
  promised m h := by simp [established] at h
  shutting t h := by simp [established] at h
  queued h := by simp [established, Loop.new, Loop.waiting] at h
  closed h := by
    simp [Closed, established, TcpConnection.connectEstablished, TcpConnection.withChannel,
      TcpConnection.setState, TcpConnection.emit, TcpConnection.new] at h
  graceful := graceful_of_not_closed fun h => by
    simp [Closed, established, TcpConnection.connectEstablished, TcpConnection.withChannel,
      TcpConnection.setState, TcpConnection.emit, TcpConnection.new] at h

end ConnectionLoop

end WwjMuduo
