import Mathlib.Logic.Function.Basic
import WwjMuduo.Lib.Run

set_option autoImplicit false

/-! # Critical sections

A machine whose steps belong to threads, and a part of its state that some of the steps, the guarded
ones, read and write under a mutex. The machine takes each step at once. Code does not: it waits for
the mutex, reads the shared part, computes, writes the shared part back, and releases the mutex, and
the other threads run in between. `Critical.step` is the machine that does it so.

`run_state` is what the mutex is for: every run of the second machine is a run of the first one, with
each guarded step made where the shared part is written back. `proceeds` adds that no thread waits in
vain. -/

namespace Critical

variable {σ ε θ δ : Type*}

/-- A machine with a shared part. -/
structure Shared (σ ε θ δ : Type*) where
  step : σ → ε → Option σ
  thread : ε → θ
  guarded : ε → Bool
  get : σ → δ
  put : σ → δ → σ
  put_get : ∀ s, put s (get s) = s
  /-- The other steps leave the shared part alone. -/
  get_step : ∀ s e s', step s e = some s' → guarded e = false → get s' = get s
  /-- What a thread can do, the steps of the others do not prevent. -/
  stays : ∀ s e f s', step s f = some s' → thread f ≠ thread e → (step s e).isSome →
    (step s' e).isSome

/-- Where a thread is. -/
inductive Phase (ε δ : Type*) where
  | outside
  | waiting (e : ε)
  | inside (e : ε)
  /-- The shared part has been read. -/
  | loaded (e : ε) (d : δ)
  /-- It has been written back. -/
  | stored

/-- The thread holds the mutex. -/
def Phase.holds : Phase ε δ → Bool
  | .inside _ | .loaded _ _ | .stored => true
  | _ => false

/-- The step the thread has still to make. -/
def Phase.pending : Phase ε δ → Option ε
  | .waiting e | .inside e | .loaded e _ => some e
  | _ => none

structure State (σ ε θ δ : Type*) where
  state : σ
  mutex : Option θ
  phase : θ → Phase ε δ

inductive Event (ε θ : Type*) where
  /-- A step that is not guarded. -/
  | plain (e : ε)
  /-- A thread comes to a critical section. -/
  | request (e : ε)
  | lock (t : θ)
  | load (t : θ)
  | store (t : θ)
  | unlock (t : θ)

def start (s : σ) : State σ ε θ δ := { state := s, mutex := none, phase := fun _ => .outside }

variable [DecidableEq θ]

def State.setPhase (s : State σ ε θ δ) (t : θ) (phase : Phase ε δ) : State σ ε θ δ :=
  { s with phase := Function.update s.phase t phase }

/-- The machine with the mutex. -/
def step (M : Shared σ ε θ δ) (s : State σ ε θ δ) : Event ε θ → Option (State σ ε θ δ)
  | .plain e =>
    match M.guarded e, s.phase (M.thread e) with
    | false, .outside => (M.step s.state e).map fun state => { s with state := state }
    | _, _ => none
  | .request e =>
    match M.guarded e, s.phase (M.thread e) with
    | true, .outside => (M.step s.state e).map fun _ => s.setPhase (M.thread e) (.waiting e)
    | _, _ => none
  | .lock t =>
    match s.phase t, s.mutex with
    | .waiting e, none => some { s.setPhase t (.inside e) with mutex := some t }
    | _, _ => none
  | .load t =>
    match s.phase t with
    | .inside e => some (s.setPhase t (.loaded e (M.get s.state)))
    | _ => none
  | .store t =>
    match s.phase t with
    | .loaded e d => (M.step (M.put s.state d) e).map fun state =>
      { s.setPhase t .stored with state := state }
    | _ => none
  | .unlock t =>
    match s.phase t with
    | .stored => some { s.setPhase t .outside with mutex := none }
    | _ => none

/-- The steps of the first machine that an event stands for. -/
def atomically (s : State σ ε θ δ) : Event ε θ → List ε
  | .plain e => [e]
  | .store t => (s.phase t).pending.toList
  | _ => []

/-! ## The invariant -/

structure Inv (M : Shared σ ε θ δ) (s : State σ ε θ δ) : Prop where
  mutex : ∀ t, s.mutex = some t ↔ (s.phase t).holds = true
  pending : ∀ t, ∀ e ∈ (s.phase t).pending,
    M.thread e = t ∧ M.guarded e = true ∧ (M.step s.state e).isSome
  /-- What has been read is what is there. -/
  loaded : ∀ t e d, s.phase t = .loaded e d → d = M.get s.state

variable {M : Shared σ ε θ δ} {s s' : State σ ε θ δ}

omit [DecidableEq θ] in
theorem inv_start (state : σ) : Inv M (start state) where
  mutex _ := by simp [start, Phase.holds]
  pending _ _ he := by simp [start, Phase.pending] at he
  loaded _ _ _ h := by simp [start] at h

omit [DecidableEq θ] in
/-- **Mutual exclusion.** -/
theorem Inv.exclusive (I : Inv M s) {t u : θ} (ht : (s.phase t).holds = true)
    (hu : (s.phase u).holds = true) : t = u :=
  Option.some.inj (((I.mutex t).2 ht).symm.trans ((I.mutex u).2 hu))

/-- A thread goes from one place to another, which may take the mutex or release it. -/
theorem Inv.setPhase (I : Inv M s) {t : θ} {phase : Phase ε δ} {mutex : Option θ}
    (hself : mutex = some t ↔ phase.holds = true)
    (hother : ∀ u, u ≠ t → (mutex = some u ↔ s.mutex = some u))
    (hpending : ∀ e ∈ phase.pending, M.thread e = t ∧ M.guarded e = true ∧ (M.step s.state e).isSome)
    (hloaded : ∀ e d, phase = .loaded e d → d = M.get s.state) :
    Inv M { s.setPhase t phase with mutex := mutex } := by
  refine ⟨fun u => ?_, fun u e he => ?_, fun u e d h => ?_⟩
  · by_cases hu : u = t
    · subst hu
      simpa [State.setPhase] using hself
    · simpa [State.setPhase, hu] using (hother u hu).trans (I.mutex u)
  · by_cases hu : u = t
    · subst hu
      simp only [State.setPhase, Function.update_self] at he
      exact hpending e he
    · simp only [State.setPhase, Function.update_of_ne hu] at he
      exact I.pending u e he
  · by_cases hu : u = t
    · subst hu
      simp only [State.setPhase, Function.update_self] at h
      exact hloaded e d h
    · simp only [State.setPhase, Function.update_of_ne hu] at h
      exact I.loaded u e d h

omit [DecidableEq θ] in
/-- A step of the first machine, made by a thread that has no step to make any more. -/
theorem Inv.setState (I : Inv M s) {f : ε} {state : σ} (h : M.step s.state f = some state)
    (hidle : (s.phase (M.thread f)).pending = none)
    (hget : M.get state = M.get s.state ∨ (s.phase (M.thread f)).holds = true) :
    Inv M { s with state := state } := by
  refine ⟨I.mutex, fun t e he => ?_, fun t e d ht => ?_⟩
  · obtain ⟨hthread, hguarded, henabled⟩ := I.pending t e he
    refine ⟨hthread, hguarded, M.stays _ _ _ _ h (fun hsame => ?_) henabled⟩
    rw [hsame, hthread] at hidle
    rw [hidle] at he
    exact absurd he (by simp)
  · rcases hget with hget | hholds
    · exact (I.loaded t e d ht).trans hget.symm
    · -- Another thread that has read would hold the mutex too.
      have hsame : t = M.thread f := I.exclusive (by rw [ht]; rfl) hholds
      rw [← hsame, ht] at hidle
      exact absurd hidle (by simp [Phase.pending])

/-- **One step keeps the invariant.** -/
theorem Inv.step (I : Inv M s) {e : Event ε θ} (h : step M s e = some s') : Inv M s' := by
  cases e with
  | plain e =>
      simp only [Critical.step] at h
      split at h
      · next hguarded hphase =>
          obtain ⟨state, hstate, rfl⟩ := Option.map_eq_some_iff.1 h
          exact I.setState hstate (by rw [hphase]; rfl) (.inl (M.get_step _ _ _ hstate hguarded))
      · exact absurd h (by simp)
  | request e =>
      simp only [Critical.step] at h
      split at h
      · next hguarded hphase =>
          obtain ⟨state, hstate, rfl⟩ := Option.map_eq_some_iff.1 h
          have hholds := I.mutex (M.thread e)
          rw [hphase] at hholds
          refine I.setPhase hholds (fun _ _ => Iff.rfl) (fun f hf => ?_) (by simp)
          obtain rfl : e = f := by simpa [Phase.pending] using hf
          exact ⟨rfl, hguarded, by simp [hstate]⟩
      · exact absurd h (by simp)
  | lock t =>
      simp only [Critical.step] at h
      split at h
      · next e hphase hfree =>
          obtain rfl := Option.some.inj h
          refine I.setPhase (by simp [Phase.holds]) (fun u hu => ?_) (fun f hf => ?_) (by simp)
          · simp [hfree, Ne.symm hu]
          · exact I.pending t f (by rw [hphase]; exact hf)
      · exact absurd h (by simp)
  | load t =>
      simp only [Critical.step] at h
      split at h
      · next e hphase =>
          obtain rfl := Option.some.inj h
          have hholds := I.mutex t
          rw [hphase] at hholds
          refine I.setPhase hholds (fun _ _ => Iff.rfl) (fun f hf => ?_) (fun f d hd => ?_)
          · exact I.pending t f (by rw [hphase]; exact hf)
          · obtain ⟨-, rfl⟩ : e = f ∧ M.get s.state = d := by simpa using hd
            rfl
      · exact absurd h (by simp)
  | store t =>
      simp only [Critical.step] at h
      split at h
      · next e d hphase =>
          obtain ⟨state, hstate, rfl⟩ := Option.map_eq_some_iff.1 h
          obtain ⟨hthread, -, -⟩ := I.pending t e (by rw [hphase]; rfl)
          rw [I.loaded t e d hphase, M.put_get] at hstate
          have hholds := I.mutex t
          rw [hphase] at hholds
          have I₁ : Inv M { s.setPhase t .stored with mutex := s.mutex } :=
            I.setPhase hholds (fun _ _ => Iff.rfl) (by simp [Phase.pending]) (by simp)
          refine I₁.setState hstate ?_ (.inr ?_)
          · simp [State.setPhase, hthread, Phase.pending]
          · simp [State.setPhase, hthread, Phase.holds]
      · exact absurd h (by simp)
  | unlock t =>
      simp only [Critical.step] at h
      split at h
      · next hphase =>
          obtain rfl := Option.some.inj h
          have hholds := I.mutex t
          rw [hphase] at hholds
          refine I.setPhase (by simp [Phase.holds]) (fun u hu => ?_) (by simp [Phase.pending]) (by simp)
          rw [hholds.2 rfl]
          simp [Ne.symm hu]
      · exact absurd h (by simp)

/-- An event stands for the step it is written back with, or for none. -/
theorem Inv.run_atomically (I : Inv M s) {e : Event ε θ} (h : Critical.step M s e = some s') :
    Run.run M.step s.state (atomically s e) = some s'.state := by
  cases e with
  | plain e =>
      simp only [Critical.step] at h
      split at h
      · obtain ⟨state, hstate, rfl⟩ := Option.map_eq_some_iff.1 h
        exact Run.run_singleton.trans hstate
      · exact absurd h (by simp)
  | store t =>
      simp only [Critical.step] at h
      split at h
      · next e d hphase =>
          obtain ⟨state, hstate, rfl⟩ := Option.map_eq_some_iff.1 h
          rw [I.loaded t e d hphase, M.put_get] at hstate
          have hlist : atomically s (.store t) = [e] := by
            simp [atomically, hphase, Phase.pending]
          rw [hlist]
          exact Run.run_singleton.trans hstate
      · exact absurd h (by simp)
  | request e =>
      simp only [Critical.step] at h
      split at h
      · obtain ⟨state, -, rfl⟩ := Option.map_eq_some_iff.1 h
        rfl
      · exact absurd h (by simp)
  | lock t =>
      simp only [Critical.step] at h
      split at h
      · obtain rfl := Option.some.inj h
        rfl
      · exact absurd h (by simp)
  | load t =>
      simp only [Critical.step] at h
      split at h
      · obtain rfl := Option.some.inj h
        rfl
      · exact absurd h (by simp)
  | unlock t =>
      simp only [Critical.step] at h
      split at h
      · obtain rfl := Option.some.inj h
        rfl
      · exact absurd h (by simp)

/-! ## Whole runs -/

/-- **Atomicity.** A run with the mutex is a run without it, with each guarded step made where the
    shared part is written back. -/
theorem run_state {state : σ} {events : List (Event ε θ)}
    (hrun : Run.run (step M) (start state) events = some s) :
    Run.run M.step state (Run.image (step M) atomically (start state) events) = some s.state :=
  Run.run_image (f := State.state) (fun _ _ _ (I : Inv M _) h => I.step h)
    (fun _ _ _ I h => I.run_atomically h) (inv_start state) hrun

/-- The event belongs to a critical section that has begun. -/
def Event.within : Event ε θ → Bool
  | .plain _ | .request _ => false
  | _ => true

/-- **Nobody waits in vain.** While some thread is in a critical section or waits for it, some thread
    can go on in one. -/
theorem Inv.proceeds (I : Inv M s) {t : θ} (ht : s.phase t ≠ .outside) :
    ∃ e : Event ε θ, e.within = true ∧ (Critical.step M s e).isSome := by
  cases hmutex : s.mutex with
  | none =>
      have hholds := (I.mutex t).not.1 (by simp [hmutex])
      cases hphase : s.phase t with
      | outside => exact absurd hphase ht
      | waiting e => exact ⟨.lock t, rfl, by simp [Critical.step, hphase, hmutex]⟩
      | _ => simp [hphase, Phase.holds] at hholds
  | some u =>
      have hholds := (I.mutex u).1 hmutex
      cases hphase : s.phase u with
      | outside => simp [hphase, Phase.holds] at hholds
      | waiting e => simp [hphase, Phase.holds] at hholds
      | inside e => exact ⟨.load u, rfl, by simp [Critical.step, hphase]⟩
      | loaded e d =>
          obtain ⟨-, -, henabled⟩ := I.pending u e (by rw [hphase]; rfl)
          refine ⟨.store u, rfl, ?_⟩
          simp only [Critical.step, hphase, I.loaded u e d hphase, M.put_get]
          simpa using henabled
      | stored => exact ⟨.unlock u, rfl, by simp [Critical.step, hphase]⟩

end Critical
