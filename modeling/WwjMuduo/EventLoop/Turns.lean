import WwjMuduo.EventLoop

set_option autoImplicit false

/-! # The order in which functors get their turn

What has run and what waits make one sequence, in which a functor keeps its place while the loop goes
on: a push adds to its end, a call moves the boundary, and only a `runInLoop` of the loop thread itself
puts its functor in between. -/

namespace WwjMuduo

/-- The functor the event pushes. -/
def LoopEvent.pushes {φ τ : Type*} : LoopEvent φ τ → List φ
  | .queueInLoop _ f => [f]
  | .runInLoop (some _) f => [f]
  | _ => []

namespace Loop

variable {φ τ : Type*}

/-- What is queued: the rest of the batch, then what is pending. -/
def waiting (s : Loop φ τ) : List φ := s.functors ++ s.pendingFunctors_

/-- Outside the loop over `functors` there is no rest of a batch. -/
def Drained (s : Loop φ τ) : Prop := (¬ ∃ r, s.place = .calling r) → s.functors = []

theorem drained_new : Drained (new : Loop φ τ) := fun _ => rfl

variable [DecidableEq τ] {s s' : Loop φ τ}

theorem Drained.step (D : s.Drained) {e : LoopEvent φ τ} (h : s.step e = some s') : s'.Drained := by
  obtain ⟨he, rfl⟩ := step_eq_some.1 h
  cases e with
  | loop => exact fun _ => D (by simp [he.1])
  | clearQuit =>
      have hplace : s.place = .starting := he
      exact fun _ => D (by simp [hplace])
  | test =>
      have hplace : s.place = .testing := he
      intro _
      have hempty := D (by simp [hplace])
      simp only [exec]
      split <;> exact hempty
  | poll reported => exact fun _ => D (by simp [he.1])
  | handleRead => exact fun _ => D (by simp [he.1])
  | doPendingFunctors => exact fun _ => D (by simp [he.1])
  | swap => exact fun h => absurd ⟨false, rfl⟩ h
  | call =>
      obtain ⟨f, functors, hf⟩ := List.exists_cons_of_ne_nil he.2.2
      rw [exec, call_of_cons hf]
      exact fun h => absurd ⟨true, rfl⟩ h
  | endPending => exact fun _ => he.2.2
  | queueInLoop t f => exact D
  | runInLoop t f =>
      simp only [exec, runInLoop]
      split <;> exact D
  | quit t => exact D
  | finish t =>
      intro h
      rw [exec, finish_place] at h
      rw [exec, finish_rest]
      exact D h

/-- A step that calls no functor adds what it pushes to what waits. -/
theorem Drained.waiting_exec (D : s.Drained) {e : LoopEvent φ τ} (he : s.Enabled e)
    (hcall : e ≠ .call) : (s.exec e).waiting = s.waiting ++ e.pushes := by
  cases e with
  | call => exact absurd rfl hcall
  | swap =>
      have hplace : s.place = .swapping := he
      have hempty := D (by simp [hplace])
      simp [exec, waiting, LoopEvent.pushes, hempty]
  | test =>
      simp only [exec]
      split <;> simp [waiting, LoopEvent.pushes]
  | queueInLoop t f => simp [exec, push, waiting, LoopEvent.pushes, setTask]
  | runInLoop t f =>
      cases t with
      | none => simp [exec, runInLoop, waiting, LoopEvent.pushes]
      | some t => simp [exec, runInLoop, push, waiting, LoopEvent.pushes, setTask]
  | finish t =>
      rw [exec, finish_rest]
      simp [waiting, LoopEvent.pushes]
  | _ => simp [exec, handleRead, waiting, LoopEvent.pushes, setTask]

/-- A call takes the first one that waits. -/
theorem waiting_call {f : φ} {functors : List φ} (hf : s.functors = f :: functors) :
    s.waiting = f :: (s.exec .call).waiting ∧ (s.exec .call).ran = s.ran ++ [f] := by
  rw [exec, call_of_cons hf]
  simp [waiting, hf]

theorem ran_runInLoop (s : Loop φ τ) (f : φ) : (s.exec (.runInLoop none f)).ran = s.ran ++ [f] := rfl

/-- Nothing else runs a functor. -/
theorem ran_exec {e : LoopEvent φ τ} (hcall : e ≠ .call) (hother : ∀ f, e ≠ .runInLoop none f) :
    (s.exec e).ran = s.ran := by
  cases e with
  | call => exact absurd rfl hcall
  | test =>
      simp only [exec]
      split <;> rfl
  | runInLoop t f =>
      cases t with
      | none => exact absurd rfl (hother f)
      | some t => rfl
  | finish t => rw [exec, finish_rest]
  | _ => rfl

/-- **A step keeps the sequence**, and adds what it pushes. -/
theorem Drained.sequence (D : s.Drained) {e : LoopEvent φ τ} (he : s.Enabled e)
    (hother : ∀ f, e ≠ .runInLoop none f) :
    (s.exec e).ran ++ (s.exec e).waiting = s.ran ++ s.waiting ++ e.pushes := by
  by_cases hcall : e = .call
  · subst hcall
    obtain ⟨f, functors, hf⟩ := List.exists_cons_of_ne_nil he.2.2
    obtain ⟨hwaiting, hran⟩ := waiting_call hf
    rw [hran, hwaiting]
    simp [LoopEvent.pushes]
  · rw [ran_exec hcall hother, D.waiting_exec he hcall, List.append_assoc]

end Loop

end WwjMuduo
