import Mathlib.Data.List.Basic
import Mathlib.Tactic.Common

set_option autoImplicit false

/-! # Runs of a partial step function

A machine is a state type, an event type and a step function `step : σ → ε → Option σ`; `none` says
that the event cannot happen in that state. `run` folds the step over a list of events. A property
of a run is stated of every state it reaches (`Along`), a condition on its inputs of every step it
takes, read in the state before that step (`Meets`).

`Along.of_inv` is the invariant rule. `along_iff_meets` is its two-sided form: when one step keeps
the property exactly if it meets the condition, a whole run keeps it exactly if all its steps do. -/

namespace Run

variable {σ ε : Type*} {step : σ → ε → Option σ}

/-- The state a list of events leads to. -/
def run (step : σ → ε → Option σ) : σ → List ε → Option σ
  | s, [] => some s
  | s, e :: es => (step s e).bind fun s' => run step s' es

/-- `P` holds of the starting state and of every state the run reaches. -/
def Along (step : σ → ε → Option σ) (P : σ → Prop) : σ → List ε → Prop
  | s, [] => P s
  | s, e :: es => P s ∧ ∀ s', step s e = some s' → Along step P s' es

/-- Every step the run takes meets `C`, a condition on the state before it and its event. -/
def Meets (step : σ → ε → Option σ) (C : σ → ε → Prop) : σ → List ε → Prop
  | _, [] => True
  | s, e :: es => ∀ s', step s e = some s' → C s e ∧ Meets step C s' es

/-- The machine whose callers respect a rule: an event the rule forbids does not happen. -/
def restrict (allowed : σ → ε → Prop) [∀ s e, Decidable (allowed s e)] (step : σ → ε → Option σ)
    (s : σ) (e : ε) : Option σ :=
  if allowed s e then step s e else none

/-- Some run from here ends in `P`. -/
def CanReach (step : σ → ε → Option σ) (P : σ → Prop) (s : σ) : Prop :=
  ∃ es s', run step s es = some s' ∧ P s'

/-- Some run from here, each of whose steps meets `C`, ends in `P`. -/
def CanReachBy (step : σ → ε → Option σ) (C : σ → ε → Prop) (P : σ → Prop) (s : σ) : Prop :=
  ∃ es s', Meets step C s es ∧ run step s es = some s' ∧ P s'

theorem restrict_eq_some {allowed : σ → ε → Prop} [∀ s e, Decidable (allowed s e)] {s s' : σ}
    {e : ε} : restrict allowed step s e = some s' ↔ allowed s e ∧ step s e = some s' := by
  rw [restrict]
  by_cases h : allowed s e
  · rw [if_pos h]
    exact ⟨fun hs => ⟨h, hs⟩, fun hs => hs.2⟩
  · rw [if_neg h]
    exact ⟨fun hs => absurd hs (by simp), fun hs => absurd hs.1 h⟩

@[simp]
theorem run_nil (s : σ) : run step s [] = some s := rfl

theorem run_cons (s : σ) (e : ε) (es : List ε) :
    run step s (e :: es) = (step s e).bind fun s' => run step s' es := rfl

theorem run_cons_eq_some {s s' : σ} {e : ε} {es : List ε} :
    run step s (e :: es) = some s' ↔ ∃ s₁, step s e = some s₁ ∧ run step s₁ es = some s' := by
  rw [run_cons, Option.bind_eq_some_iff]

theorem run_append (s : σ) (es fs : List ε) :
    run step s (es ++ fs) = (run step s es).bind fun s' => run step s' fs := by
  induction es generalizing s with
  | nil => rfl
  | cons e es ih =>
      rw [List.cons_append, run_cons, run_cons]
      cases step s e with
      | none => rfl
      | some s₁ => exact ih s₁

theorem run_append_eq_some {s s' : σ} {es fs : List ε} :
    run step s (es ++ fs) = some s' ↔ ∃ s₁, run step s es = some s₁ ∧ run step s₁ fs = some s' := by
  rw [run_append, Option.bind_eq_some_iff]

theorem run_singleton {s : σ} {e : ε} : run step s [e] = step s e := by
  rw [run_cons]
  cases step s e <;> rfl

theorem CanReach.of_self {P : σ → Prop} {s : σ} (h : P s) : CanReach step P s := ⟨[], s, rfl, h⟩

theorem CanReach.cons {P : σ → Prop} {s s₁ : σ} {e : ε} (hs : step s e = some s₁)
    (h : CanReach step P s₁) : CanReach step P s := by
  obtain ⟨es, s', hrun, hP⟩ := h
  exact ⟨e :: es, s', run_cons_eq_some.2 ⟨s₁, hs, hrun⟩, hP⟩

theorem CanReachBy.of_step {C : σ → ε → Prop} {P : σ → Prop} {s s₁ : σ} {e : ε}
    (hs : step s e = some s₁) (hC : C s e) (h : P s₁) : CanReachBy step C P s :=
  ⟨[e], s₁, fun _ _ => ⟨hC, trivial⟩, run_singleton.trans hs, h⟩

theorem CanReachBy.cons {C : σ → ε → Prop} {P : σ → Prop} {s s₁ : σ} {e : ε}
    (hs : step s e = some s₁) (hC : C s e) (h : CanReachBy step C P s₁) : CanReachBy step C P s := by
  obtain ⟨es, s', hmeets, hrun, hP⟩ := h
  refine ⟨e :: es, s', fun s₂ h₂ => ⟨hC, ?_⟩, run_cons_eq_some.2 ⟨s₁, hs, hrun⟩, hP⟩
  obtain rfl : s₁ = s₂ := Option.some.inj (hs.symm.trans h₂)
  exact hmeets

/-- What every step on an admissible event keeps, every run of such events keeps. -/
theorem inv_run_of {I : σ → Prop} {A : ε → Prop}
    (hstep : ∀ s e s', A e → I s → step s e = some s' → I s') {s s' : σ} {es : List ε}
    (hok : ∀ e ∈ es, A e) (hs : I s) (hrun : run step s es = some s') : I s' := by
  induction es generalizing s with
  | nil =>
      obtain rfl : s = s' := Option.some.inj hrun
      exact hs
  | cons e es ih =>
      obtain ⟨s₁, h₁, hrest⟩ := run_cons_eq_some.1 hrun
      have h := hstep s e s₁ (hok e List.mem_cons_self) hs h₁
      exact ih (fun e' he' => hok e' (List.mem_cons_of_mem e he')) h hrest

/-- What every step keeps, every run keeps. -/
theorem inv_run {I : σ → Prop} (hstep : ∀ s e s', I s → step s e = some s' → I s')
    {s s' : σ} {es : List ε} (hs : I s) (hrun : run step s es = some s') : I s' :=
  inv_run_of (A := fun _ => True) (fun s e s' _ => hstep s e s') (fun _ _ => trivial) hs hrun

/-- What every step keeps exactly on the events that meet `C`, a run keeps exactly on those. -/
theorem run_iff_forall {P : σ → Prop} {C : ε → Prop}
    (hstep : ∀ s e s', step s e = some s' → (P s' ↔ P s ∧ C e)) {s s' : σ} {es : List ε}
    (hrun : run step s es = some s') : P s' ↔ P s ∧ ∀ e ∈ es, C e := by
  induction es generalizing s with
  | nil =>
      obtain rfl : s = s' := Option.some.inj hrun
      simp
  | cons e es ih =>
      obtain ⟨s₁, h₁, hrest⟩ := run_cons_eq_some.1 hrun
      rw [ih hrest, hstep s e s₁ h₁, List.forall_mem_cons, and_assoc]

/-- Being reached by every prefix of the run, in `run` terms. -/
theorem along_iff_prefix {P : σ → Prop} {s : σ} {es : List ε} :
    Along step P s es ↔ ∀ pre s', pre <+: es → run step s pre = some s' → P s' := by
  induction es generalizing s with
  | nil =>
      constructor
      · intro h pre s' hpre hrun
        rw [List.prefix_nil] at hpre
        subst hpre
        obtain rfl : s = s' := Option.some.inj hrun
        exact h
      · intro h
        exact h [] s (List.prefix_refl _) rfl
  | cons e es ih =>
      constructor
      · rintro ⟨hs, hrest⟩ pre s' hpre hrun
        cases pre with
        | nil =>
            obtain rfl : s = s' := Option.some.inj hrun
            exact hs
        | cons f pre =>
            obtain ⟨rfl, hpre'⟩ := List.cons_prefix_cons.1 hpre
            obtain ⟨s₁, h₁, hrun'⟩ := run_cons_eq_some.1 hrun
            exact ih.1 (hrest s₁ h₁) pre s' hpre' hrun'
      · intro h
        refine ⟨h [] s (List.nil_prefix ..) rfl, fun s₁ h₁ => ih.2 fun pre s' hpre hrun => ?_⟩
        exact h (e :: pre) s' (List.cons_prefix_cons.2 ⟨rfl, hpre⟩)
          (run_cons_eq_some.2 ⟨s₁, h₁, hrun⟩)

/-- **Invariant rule.** -/
theorem Along.of_inv {I P : σ → Prop} (hstep : ∀ s e s', I s → step s e = some s' → I s')
    (hP : ∀ s, I s → P s) {s : σ} (hs : I s) (es : List ε) : Along step P s es :=
  along_iff_prefix.2 fun _ s' _ hrun => hP s' (inv_run hstep hs hrun)

/-- What every step that meets `C` keeps, a run of such steps keeps. -/
theorem Along.of_meets {I P : σ → Prop} {C : σ → ε → Prop}
    (hstep : ∀ s e s', I s → C s e → step s e = some s' → I s') (hP : ∀ s, I s → P s)
    {s : σ} (hs : I s) {es : List ε} (hmeets : Meets step C s es) : Along step P s es := by
  induction es generalizing s with
  | nil => exact hP s hs
  | cons e es ih =>
      refine ⟨hP s hs, fun s' hs' => ?_⟩
      obtain ⟨hC, hrest⟩ := hmeets s' hs'
      exact ih (hstep s e s' hs hC hs') hrest

theorem Along.head {P : σ → Prop} {s : σ} {es : List ε} (h : Along step P s es) : P s := by
  cases es with
  | nil => exact h
  | cons e es => exact h.1

/-- **Exact condition for a run.** Under an invariant, if a step from a good state ends in a good
    state exactly when it meets `C`, then a run stays good exactly when all its steps meet `C`. -/
theorem along_iff_meets {I P : σ → Prop} {C : σ → ε → Prop}
    (hinv : ∀ s e s', I s → P s → step s e = some s' → P s' → I s')
    (hiff : ∀ s e s', I s → P s → step s e = some s' → (P s' ↔ C s e))
    {s : σ} (hs : I s) (es : List ε) :
    Along step P s es ↔ P s ∧ Meets step C s es := by
  induction es generalizing s with
  | nil => exact ⟨fun h => ⟨h, trivial⟩, fun h => h.1⟩
  | cons e es ih =>
      constructor
      · rintro ⟨hP, hrest⟩
        refine ⟨hP, fun s' hs' => ?_⟩
        have hA : Along step P s' es := hrest s' hs'
        exact ⟨(hiff s e s' hs hP hs').1 hA.head, ((ih (hinv s e s' hs hP hs' hA.head)).1 hA).2⟩
      · rintro ⟨hP, hmeets⟩
        refine ⟨hP, fun s' hs' => ?_⟩
        obtain ⟨hC, hrest⟩ := hmeets s' hs'
        have hP' : P s' := (hiff s e s' hs hP hs').2 hC
        exact (ih (hinv s e s' hs hP hs' hP')).2 ⟨hP', hrest⟩

/-- Under an invariant, if a step leaves `P` true exactly when `P` held and the step meets `C`, then
    `P` holds at the end of a run exactly if it held at its start and all the steps meet `C`. -/
theorem run_iff_meets {I P : σ → Prop} {C : σ → ε → Prop}
    (hinv : ∀ s e s', I s → step s e = some s' → I s')
    (hiff : ∀ s e s', I s → step s e = some s' → (P s' ↔ P s ∧ C s e)) {s s' : σ} (hs : I s)
    {es : List ε} (hrun : run step s es = some s') : P s' ↔ P s ∧ Meets step C s es := by
  induction es generalizing s with
  | nil =>
      obtain rfl : s = s' := Option.some.inj hrun
      exact ⟨fun h => ⟨h, trivial⟩, fun h => h.1⟩
  | cons e es ih =>
      obtain ⟨s₁, h₁, hrest⟩ := run_cons_eq_some.1 hrun
      rw [ih (hinv s e s₁ hs h₁) hrest, hiff s e s₁ hs h₁, and_assoc]
      refine and_congr_right fun _ => ⟨fun h s₂ h₂ => ?_, fun h => h s₁ h₁⟩
      obtain rfl : s₁ = s₂ := Option.some.inj (h₁.symm.trans h₂)
      exact h

/-- A condition on the steps, in `run` terms. -/
theorem meets_iff_prefix {C : σ → ε → Prop} {s : σ} {es : List ε} :
    Meets step C s es ↔ ∀ pre e s₁ s₂, pre ++ [e] <+: es → run step s pre = some s₁ →
      step s₁ e = some s₂ → C s₁ e := by
  induction es generalizing s with
  | nil => exact ⟨fun _ pre e s₁ s₂ hpre => absurd hpre (by simp), fun _ => trivial⟩
  | cons f es ih =>
      constructor
      · intro h pre e s₁ s₂ hpre hrun hstep
        cases pre with
        | nil =>
            obtain ⟨rfl, -⟩ := List.cons_prefix_cons.1 hpre
            obtain rfl : s = s₁ := Option.some.inj hrun
            exact (h s₂ hstep).1
        | cons g pre =>
            obtain ⟨rfl, hpre'⟩ := List.cons_prefix_cons.1 hpre
            obtain ⟨t, ht, hrun'⟩ := run_cons_eq_some.1 hrun
            exact ih.1 (h t ht).2 pre e s₁ s₂ hpre' hrun' hstep
      · intro h t ht
        refine ⟨h [] f s t (List.cons_prefix_cons.2 ⟨rfl, List.nil_prefix ..⟩) rfl ht, ih.2 ?_⟩
        intro pre e s₁ s₂ hpre hrun hstep
        exact h (f :: pre) e s₁ s₂ (List.cons_prefix_cons.2 ⟨rfl, hpre⟩)
          (run_cons_eq_some.2 ⟨t, ht, hrun⟩) hstep

theorem Meets.of_prefix {C : σ → ε → Prop} {s : σ} {pre es : List ε} (hpre : pre <+: es)
    (h : Meets step C s es) : Meets step C s pre := by
  induction pre generalizing s es with
  | nil => trivial
  | cons e pre ih =>
      cases es with
      | nil => simp at hpre
      | cons f es =>
          obtain ⟨rfl, hpre'⟩ := List.cons_prefix_cons.1 hpre
          intro s' hs'
          exact ⟨(h s' hs').1, ih hpre' (h s' hs').2⟩

/-- A run can be checked step by step. -/
instance decidableMeets {C : σ → ε → Prop} [∀ s e, Decidable (C s e)] :
    ∀ (s : σ) (es : List ε), Decidable (Meets step C s es)
  | _, [] => isTrue trivial
  | s, e :: es =>
    match h : step s e with
    | none => isTrue fun s' hs' => absurd (h.symm.trans hs') (by simp)
    | some s₁ =>
      have : Decidable (Meets step C s₁ es) := decidableMeets s₁ es
      decidable_of_iff (C s e ∧ Meets step C s₁ es)
        ⟨fun hC s' hs' => Option.some.inj (h.symm.trans hs') ▸ hC, fun hm => hm s₁ h⟩

/-! ## Two machines -/

/-- **Lockstep rule.** If related states take each event that meets the condition `C` to related
    states, or neither of them takes it, then the runs whose steps meet `C` do so too. -/
theorem rel_run {τ : Type*} {step' : τ → ε → Option τ} {R : σ → τ → Prop} {C : σ → ε → Prop}
    (hstep : ∀ s t e, R s t → (∀ s', step s e = some s' → C s e) →
      Option.Rel R (step s e) (step' t e))
    {s : σ} {t : τ} (hR : R s t) {es : List ε} (hmeets : Meets step C s es) :
    Option.Rel R (run step s es) (run step' t es) := by
  induction es generalizing s t with
  | nil => exact .some hR
  | cons e es ih =>
      have hrel := hstep s t e hR fun s' hs' => (hmeets s' hs').1
      rw [run_cons, run_cons]
      cases hs : step s e with
      | none =>
          rw [hs] at hrel
          cases ht : step' t e with
          | none => exact .none
          | some t' =>
              rw [ht] at hrel
              cases hrel
      | some s' =>
          rw [hs] at hrel
          cases ht : step' t e with
          | none =>
              rw [ht] at hrel
              cases hrel
          | some t' =>
              rw [ht] at hrel
              cases hrel with
              | some h => exact ih h (hmeets s' hs).2

/-- **Forward rule.** If the second machine can answer each step of the first, on an event that `E`
    relates to the one taken, so that the states stay related, it can answer a run so. -/
theorem forward_run {τ ε' : Type*} {step' : τ → ε' → Option τ} {R : σ → τ → Prop}
    {E : ε → ε' → Prop}
    (hstep : ∀ s t e e' s', R s t → E e e' → step s e = some s' → ∃ t', step' t e' = some t' ∧ R s' t')
    {s s' : σ} {t : τ} {es : List ε} {es' : List ε'} (hes : List.Forall₂ E es es') (hR : R s t)
    (hrun : run step s es = some s') : ∃ t', run step' t es' = some t' ∧ R s' t' := by
  induction hes generalizing s t with
  | nil =>
      obtain rfl : s = s' := Option.some.inj hrun
      exact ⟨t, rfl, hR⟩
  | cons he _ ih =>
      obtain ⟨s₁, h₁, hrest⟩ := run_cons_eq_some.1 hrun
      obtain ⟨t₁, ht₁, hR₁⟩ := hstep s t _ _ s₁ hR he h₁
      obtain ⟨t', ht', hR'⟩ := ih hR₁ hrest
      exact ⟨t', run_cons_eq_some.2 ⟨t₁, ht₁, ht'⟩, hR'⟩

/-! ## Simulation -/

section Simulation

variable {τ ε' : Type*} {step' : τ → ε' → Option τ}

/-- The events of a second machine that stand for those of a run, where `g` says which ones stand for
    an event in a state. -/
def image (step : σ → ε → Option σ) (g : σ → ε → List ε') : σ → List ε → List ε'
  | _, [] => []
  | s, e :: es => g s e ++ (step s e).elim [] fun s' => image step g s' es

/-- **Simulation rule.** If each step of a machine, from a state in its invariant, is a run of a second
    machine between the states that `f` makes of its ends, then so is each of its runs. -/
theorem run_image {I : σ → Prop} {f : σ → τ} {g : σ → ε → List ε'}
    (hinv : ∀ s e s', I s → step s e = some s' → I s')
    (hstep : ∀ s e s', I s → step s e = some s' → run step' (f s) (g s e) = some (f s'))
    {s s' : σ} {es : List ε} (hs : I s) (hrun : run step s es = some s') :
    run step' (f s) (image step g s es) = some (f s') := by
  induction es generalizing s with
  | nil =>
      obtain rfl : s = s' := Option.some.inj hrun
      rfl
  | cons e es ih =>
      obtain ⟨s₁, h₁, hrest⟩ := run_cons_eq_some.1 hrun
      have himage : image step g s (e :: es) = g s e ++ image step g s₁ es := by
        rw [image, h₁]
        rfl
      rw [himage]
      exact run_append_eq_some.2 ⟨f s₁, hstep s e s₁ hs h₁, ih (hinv s e s₁ hs h₁) hrest⟩

/-- **Trace rule.** What each step of a run keeps, of the events so far, of what stands for them and of
    the state reached, holds of the whole run. -/
theorem trace_run {g : σ → ε → List ε'} {P : List ε → List ε' → σ → Prop} {s s' : σ}
    {es : List ε} (hs : P [] [] s)
    (hstep : ∀ es ms s e s', P es ms s → step s e = some s' → P (es ++ [e]) (ms ++ g s e) s')
    (hrun : run step s es = some s') : P es (image step g s es) s' := by
  have hgeneral : ∀ fs pre ms s, P pre ms s → run step s fs = some s' →
      P (pre ++ fs) (ms ++ image step g s fs) s' := by
    intro fs
    induction fs with
    | nil =>
        intro pre ms s hP hrun
        obtain rfl : s = s' := Option.some.inj hrun
        rw [image, List.append_nil, List.append_nil]
        exact hP
    | cons e fs ih =>
        intro pre ms s hP hrun
        obtain ⟨s₁, h₁, hrest⟩ := run_cons_eq_some.1 hrun
        have himage : image step g s (e :: fs) = g s e ++ image step g s₁ fs := by
          rw [image, h₁]
          rfl
        have hP₁ := ih (pre ++ [e]) (ms ++ g s e) s₁ (hstep pre ms s e s₁ hP h₁) hrest
        rwa [List.append_assoc, List.append_assoc, List.singleton_append, ← himage] at hP₁
  exact hgeneral es [] [] s hs hrun

end Simulation

/-! ## Amortised cost -/

/-- **Potential rule.** If each step that counts is paid for by a drop of the potential, and only the
    steps that `credit` lists may raise it, by at most `k`, then a run makes no more steps that count
    than the potential it starts with and the credit allow. -/
theorem countP_le_potential {I : σ → Prop} {potential : σ → ℕ} {counts credit : ε → Bool} {k : ℕ}
    (hinv : ∀ s e s', I s → step s e = some s' → I s')
    (hstep : ∀ s e s', I s → step s e = some s' →
      potential s' + (counts e).toNat ≤ potential s + k * (credit e).toNat)
    {s s' : σ} {es : List ε} (hs : I s) (hrun : run step s es = some s') :
    potential s' + es.countP counts ≤ potential s + k * es.countP credit := by
  induction es generalizing s with
  | nil =>
      obtain rfl : s = s' := Option.some.inj hrun
      exact Nat.le_refl _
  | cons e es ih =>
      obtain ⟨s₁, h₁, hrest⟩ := run_cons_eq_some.1 hrun
      have hone := hstep s e s₁ hs h₁
      have hmore := ih (hinv s e s₁ hs h₁) hrest
      have hcons (p : ε → Bool) : (e :: es).countP p = es.countP p + (p e).toNat := by
        rw [List.countP_cons]
        cases p e <;> rfl
      rw [hcons counts, hcons credit, Nat.mul_add]
      omega

end Run
