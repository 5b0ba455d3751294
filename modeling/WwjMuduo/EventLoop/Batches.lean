import WwjMuduo.EventLoop.Turns

set_option autoImplicit false

/-! # Functors run once, in order

Everything that has been pushed is in one of three places, in the order of the pushes: executed, in
the batch, pending. What is pushed while a batch runs waits for a later one. -/

namespace WwjMuduo

namespace Loop

variable {φ τ : Type*}

/-- The same functors, pushed in one batch and executed in another. -/
theorem map_fst_eq {executed done : List (φ × ℕ)}
    (h : List.Forall₂ (fun e p => e.1 = p.1 ∧ p.2 < e.2) executed done) :
    executed.map Prod.fst = done.map Prod.fst := by
  induction h with
  | nil => rfl
  | cons hep _ ih => rw [List.map_cons, List.map_cons, hep.1, ih]

/-- Everything pushed, in three parts. `batches` at the time of a push is less than the number of the
    batch that executes it. -/
structure BatchInv (s : Loop φ τ) (done taken waiting : List (φ × ℕ)) : Prop where
  pushed : s.pushed = done ++ taken ++ waiting
  done : List.Forall₂ (fun e p => e.1 = p.1 ∧ p.2 < e.2) s.executed done
  taken : taken.map Prod.fst = s.functors ∧ ∀ p ∈ taken, p.2 < s.batches
  waiting : waiting.map Prod.fst = s.pendingFunctors_ ∧ ∀ p ∈ waiting, p.2 ≤ s.batches
  between : (¬ ∃ r, s.place = .calling r) → s.functors = []

/-- The functors executed, the rest of the batch and the pending ones are all that were pushed, in the
    order of the pushes. Each one is executed at most once, in a batch later than any that was running
    when it was pushed. -/
structure InOrder (s : Loop φ τ) : Prop where
  sequence : s.executed.map Prod.fst ++ s.functors ++ s.pendingFunctors_ = s.pushed.map Prod.fst
  once : (s.pushed.map Prod.fst).Nodup → (s.executed.map Prod.fst).Nodup
  later : List.Forall₂ (fun e p => e.1 = p.1 ∧ p.2 < e.2) s.executed
    (s.pushed.take s.executed.length)

variable {s s' : Loop φ τ} {done taken waiting : List (φ × ℕ)}

theorem BatchInv.inOrder (B : BatchInv s done taken waiting) : s.InOrder := by
  have hlen := B.done.length_eq
  have hfst := map_fst_eq B.done
  have hsequence : s.executed.map Prod.fst ++ s.functors ++ s.pendingFunctors_ =
      s.pushed.map Prod.fst := by
    simp only [B.pushed, List.map_append, hfst, B.taken.1, B.waiting.1]
  refine ⟨hsequence, fun h => ?_, ?_⟩
  · rw [← hsequence, List.append_assoc] at h
    exact (List.nodup_append.1 h).1
  · rw [B.pushed, List.append_assoc, hlen, List.take_left]
    exact B.done

/-- What leaves the queue alone keeps the three parts. -/
theorem BatchInv.congr (B : BatchInv s done taken waiting) (D : s'.Drained)
    (hqueue : s'.pushed = s.pushed ∧ s'.executed = s.executed ∧ s'.functors = s.functors ∧
      s'.pendingFunctors_ = s.pendingFunctors_ ∧ s'.batches = s.batches) :
    BatchInv s' done taken waiting := by
  obtain ⟨hpushed, hexecuted, hfunctors, hpending, hbatches⟩ := hqueue
  refine ⟨hpushed ▸ B.pushed, hexecuted ▸ B.done, ?_, ?_, D⟩
  · rw [hfunctors, hbatches]
    exact B.taken
  · rw [hpending, hbatches]
    exact B.waiting

variable [DecidableEq τ]

/-- A push adds to what waits. -/
theorem BatchInv.push (B : BatchInv s done taken waiting) (t : Option τ) (f : φ) :
    BatchInv (s.push t f) done taken (waiting ++ [(f, s.batches)]) := by
  refine ⟨?_, B.done, B.taken, ⟨?_, fun p hp => ?_⟩, B.between⟩
  · show s.pushed ++ [(f, s.batches)] = _
    rw [B.pushed, List.append_assoc]
  · show _ = s.pendingFunctors_ ++ [f]
    rw [List.map_append, B.waiting.1]
    rfl
  · rcases List.mem_append.1 hp with hp | hp
    · exact B.waiting.2 p hp
    · rw [List.mem_singleton.1 hp]
      exact Nat.le_refl _

/-- **One step moves functors from one part to the next.** -/
theorem BatchInv.step (B : BatchInv s done taken waiting) {e : LoopEvent φ τ}
    (h : s.step e = some s') : ∃ done' taken' waiting', BatchInv s' done' taken' waiting' := by
  have D : s'.Drained := Drained.step B.between h
  obtain ⟨he, rfl⟩ := step_eq_some.1 h
  have hsame (hqueue : (s.exec e).pushed = s.pushed ∧ (s.exec e).executed = s.executed ∧
      (s.exec e).functors = s.functors ∧ (s.exec e).pendingFunctors_ = s.pendingFunctors_ ∧
      (s.exec e).batches = s.batches) :
      ∃ done' taken' waiting', BatchInv (s.exec e) done' taken' waiting' :=
    ⟨done, taken, waiting, B.congr D hqueue⟩
  cases e with
  | loop => exact hsame ⟨rfl, rfl, rfl, rfl, rfl⟩
  | clearQuit => exact hsame ⟨rfl, rfl, rfl, rfl, rfl⟩
  | test =>
      apply hsame
      simp only [exec]
      split <;> exact ⟨rfl, rfl, rfl, rfl, rfl⟩
  | poll reported => exact hsame ⟨rfl, rfl, rfl, rfl, rfl⟩
  | handleRead => exact hsame ⟨rfl, rfl, rfl, rfl, rfl⟩
  | doPendingFunctors => exact hsame ⟨rfl, rfl, rfl, rfl, rfl⟩
  | endPending => exact hsame ⟨rfl, rfl, rfl, rfl, rfl⟩
  | swap =>
      -- the last batch is over, so what waited is the new batch
      have hplace : s.place = .swapping := he
      have hempty := B.between (by simp [hplace])
      have htaken : taken = [] := by
        have h := B.taken.1
        rw [hempty] at h
        exact List.map_eq_nil_iff.1 h
      refine ⟨done, waiting, [], ?_, B.done, ⟨B.waiting.1, fun p hp => ?_⟩, ⟨rfl, by simp⟩, D⟩
      · show s.pushed = _
        rw [B.pushed, htaken, List.append_nil, List.append_nil]
      · exact Nat.lt_succ_of_le (B.waiting.2 p hp)
  | call =>
      obtain ⟨-, -, hne⟩ := he
      obtain ⟨f, functors, hf⟩ := List.exists_cons_of_ne_nil hne
      obtain ⟨hfst, hlt⟩ := B.taken
      rw [hf, List.map_eq_cons_iff] at hfst
      obtain ⟨p, rest, rfl, rfl, hrest⟩ := hfst
      rw [exec, call_of_cons hf] at D ⊢
      refine ⟨done ++ [p], rest, waiting, ?_, ?_, ⟨hrest, fun q hq => hlt q (List.mem_cons_of_mem _ hq)⟩,
        B.waiting, D⟩
      · show s.pushed = _
        rw [B.pushed, List.append_cons]
      · exact List.rel_append B.done (.cons ⟨rfl, hlt p List.mem_cons_self⟩ .nil)
  | queueInLoop t f => exact ⟨_, _, _, B.push t f⟩
  | runInLoop t f =>
      cases t with
      | none => exact hsame ⟨rfl, rfl, rfl, rfl, rfl⟩
      | some t => exact ⟨_, _, _, B.push (some t) f⟩
  | quit t => exact hsame ⟨rfl, rfl, rfl, rfl, rfl⟩
  | finish t =>
      apply hsame
      rw [exec, finish_rest]
      exact ⟨rfl, rfl, rfl, rfl, rfl⟩

/-- **Exactly once, in order.** In every state of every run, the functors executed, the rest of the
    batch and the pending ones are those pushed, in order, and none is executed in a batch that was
    running when it was pushed. -/
theorem functors_in_order (events : List (LoopEvent φ τ)) :
    Run.Along step InOrder (new : Loop φ τ) events := by
  refine Run.Along.of_inv (I := fun s => ∃ done taken waiting, BatchInv s done taken waiting)
    (fun _ _ _ ⟨_, _, _, B⟩ h => B.step h) (fun _ ⟨_, _, _, B⟩ => B.inOrder) ?_ events
  exact ⟨[], [], [], rfl, .nil, ⟨rfl, by simp⟩, ⟨rfl, by simp⟩, fun _ => rfl⟩

end Loop

end WwjMuduo
