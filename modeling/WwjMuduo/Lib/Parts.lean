import WwjMuduo.Lib.Run

set_option autoImplicit false

/-! # Machines of several parts

A state has parts, and each event reads and writes some of them only: it `concerns` these. `Agree i s w`
says that two states have the same part `i`, and each part may be looked at in a state of its own,
where nothing else has happened (`Alone i`).

Then the machine is the product of its parts. It can run a list of events exactly if each part can run
the events that concern it, and each part ends as it would alone (`run_iff`, `agree_run`). So the order
of two events matters only if some part is concerned by both. -/

namespace Run

/-- The steps of a machine, from states in `I`, are those of its parts. -/
structure Parts {σ ε ι : Type*} (step : σ → ε → Option σ) (concerns : ι → ε → Bool)
    (Agree : ι → σ → σ → Prop) (I : σ → Prop) (Alone : ι → σ → Prop) : Prop where
  whole : ∀ s e s', I s → step s e = some s' → I s'
  alone : ∀ i w e w', Alone i w → concerns i e = true → step w e = some w' → Alone i w'
  /-- An event that does not concern a part leaves it. -/
  rest : ∀ i s e s' w, I s → Agree i s w → concerns i e = false → step s e = some s' → Agree i s' w
  /-- What the machine can do, each part concerned can do alone, and comes to the same. -/
  follow : ∀ i s e s' w, I s → Alone i w → Agree i s w → concerns i e = true → step s e = some s' →
    ∃ w', step w e = some w' ∧ Agree i s' w'
  /-- What each part concerned can do alone, the machine can do. -/
  lead : ∀ s e (w : ι → σ), I s → (∀ i, Alone i (w i)) → (∀ i, Agree i s (w i)) →
    (∀ i, concerns i e = true → ∃ w', step (w i) e = some w') → ∃ s', step s e = some s'

namespace Parts

variable {σ ε ι : Type*} {step : σ → ε → Option σ} {concerns : ι → ε → Bool}
  {Agree : ι → σ → σ → Prop} {I : σ → Prop} {Alone : ι → σ → Prop} {s s' w w' : σ} {i : ι}
  {es es' : List ε}

/-- A part follows the machine. -/
theorem follow_run (P : Parts step concerns Agree I Alone) (hs : I s) (hw : Alone i w)
    (hagree : Agree i s w) (hrun : run step s es = some s') :
    ∃ w', run step w (es.filter (concerns i)) = some w' ∧ Agree i s' w' := by
  induction es generalizing s w with
  | nil =>
      obtain rfl : s = s' := Option.some.inj hrun
      exact ⟨w, rfl, hagree⟩
  | cons e es ih =>
      obtain ⟨s₁, h₁, hrest⟩ := run_cons_eq_some.1 hrun
      have hs₁ := P.whole s e s₁ hs h₁
      cases he : concerns i e with
      | false =>
          rw [List.filter_cons_of_neg (by simp [he])]
          exact ih hs₁ hw (P.rest i s e s₁ w hs hagree he h₁) hrest
      | true =>
          obtain ⟨w₁, hw₁, hagree₁⟩ := P.follow i s e s₁ w hs hw hagree he h₁
          obtain ⟨w', hw', hagree'⟩ := ih hs₁ (P.alone i w e w₁ hw he hw₁) hagree₁ hrest
          rw [List.filter_cons_of_pos he]
          exact ⟨w', run_cons_eq_some.2 ⟨w₁, hw₁, hw'⟩, hagree'⟩

/-- The machine follows its parts. -/
theorem lead_run (P : Parts step concerns Agree I Alone) {w : ι → σ} (hs : I s)
    (hw : ∀ i, Alone i (w i)) (hagree : ∀ i, Agree i s (w i))
    (hruns : ∀ i, ∃ w', run step (w i) (es.filter (concerns i)) = some w') :
    ∃ s', run step s es = some s' := by
  induction es generalizing s w with
  | nil => exact ⟨s, rfl⟩
  | cons e es ih =>
      -- First the parts that the event concerns take it.
      have hfirst (i : ι) : ∃ w₁, (concerns i e = true → step (w i) e = some w₁) ∧
          (concerns i e = false → w i = w₁) ∧
          ∃ w', run step w₁ (es.filter (concerns i)) = some w' := by
        obtain ⟨w', hw'⟩ := hruns i
        cases he : concerns i e with
        | false =>
            rw [List.filter_cons_of_neg (by simp [he])] at hw'
            exact ⟨w i, fun h => absurd h (by simp), fun _ => rfl, w', hw'⟩
        | true =>
            rw [List.filter_cons_of_pos he] at hw'
            obtain ⟨w₁, hw₁, hrest⟩ := run_cons_eq_some.1 hw'
            exact ⟨w₁, fun _ => hw₁, fun h => absurd h (by simp), w', hrest⟩
      choose w₁ hstep hsame hrest using hfirst
      obtain ⟨s₁, h₁⟩ := P.lead s e w hs hw hagree fun i he => ⟨w₁ i, hstep i he⟩
      have hw₁ (i : ι) : Alone i (w₁ i) := by
        cases he : concerns i e with
        | false => exact hsame i he ▸ hw i
        | true => exact P.alone i (w i) e (w₁ i) (hw i) he (hstep i he)
      have hagree₁ (i : ι) : Agree i s₁ (w₁ i) := by
        cases he : concerns i e with
        | false => exact hsame i he ▸ P.rest i s e s₁ (w i) hs (hagree i) he h₁
        | true =>
            obtain ⟨w₂, hw₂, h⟩ := P.follow i s e s₁ (w i) hs (hw i) (hagree i) he h₁
            obtain rfl : w₂ = w₁ i := Option.some.inj (hw₂.symm.trans (hstep i he))
            exact h
      obtain ⟨s', hs'⟩ := ih (P.whole s e s₁ hs h₁) hw₁ hagree₁ hrest
      exact ⟨s', run_cons_eq_some.2 ⟨s₁, h₁, hs'⟩⟩

/-- **Product rule.** A machine runs what its parts run. -/
theorem run_iff (P : Parts step concerns Agree I Alone) (hs : I s) (halone : ∀ i, Alone i s)
    (hagree : ∀ i, Agree i s s) :
    (∃ s', run step s es = some s') ↔ ∀ i, ∃ w', run step s (es.filter (concerns i)) = some w' := by
  constructor
  · rintro ⟨s', hrun⟩ i
    obtain ⟨w', hw', -⟩ := P.follow_run hs (halone i) (hagree i) hrun
    exact ⟨w', hw'⟩
  · exact fun hruns => P.lead_run (w := fun _ => s) hs halone hagree hruns

/-- A part ends as it would alone. -/
theorem agree_run (P : Parts step concerns Agree I Alone) (hs : I s) (halone : Alone i s)
    (hagree : Agree i s s) (hrun : run step s es = some s')
    (hw : run step s (es.filter (concerns i)) = some w) : Agree i s' w := by
  obtain ⟨w', hw', h⟩ := P.follow_run hs halone hagree hrun
  obtain rfl : w' = w := Option.some.inj (hw'.symm.trans hw)
  exact h

/-- **Order rule.** If each part is concerned by the same events in the same order, the machine can run
    the one list as well as the other. -/
theorem reorder (P : Parts step concerns Agree I Alone) (hs : I s) (halone : ∀ i, Alone i s)
    (hagree : ∀ i, Agree i s s)
    (hes : ∀ i, es.filter (concerns i) = es'.filter (concerns i)) (hrun : run step s es = some s') :
    ∃ s₁, run step s es' = some s₁ ∧ ∀ i, ∃ w, Agree i s' w ∧ Agree i s₁ w := by
  have hparts := (P.run_iff hs halone hagree).1 ⟨s', hrun⟩
  simp only [hes] at hparts
  obtain ⟨s₁, h₁⟩ := (P.run_iff hs halone hagree).2 hparts
  refine ⟨s₁, h₁, fun i => ?_⟩
  obtain ⟨w, hw⟩ := hparts i
  refine ⟨w, P.agree_run hs (halone i) (hagree i) hrun ?_,
    P.agree_run hs (halone i) (hagree i) h₁ hw⟩
  rw [hes]
  exact hw

end Parts

end Run
