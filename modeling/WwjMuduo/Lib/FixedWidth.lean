import Mathlib

set_option autoImplicit false

/-! # Codes of fixed width

A code writes the values of a linear order as lists of one length. It keeps the order if the lists
compare, first difference first, as the values do; then it is also injective. Two such codes one behind
the other write a number in mixed radix, the quotient in front. -/

variable {α β γ : Type*}

/-- Lists of one length in front decide, or what stands behind them does. -/
theorem List.append_lt_append_iff [LT α] {xs ys us vs : List α} (h : xs.length = ys.length) :
    xs ++ us < ys ++ vs ↔ xs < ys ∨ xs = ys ∧ us < vs := by
  induction xs generalizing ys with
  | nil =>
      obtain rfl : ys = [] := List.length_eq_zero_iff.1 h.symm
      simp
  | cons x xs ih =>
      cases ys with
      | nil => exact absurd h (by simp)
      | cons y ys =>
          have h' : xs.length = ys.length := by simpa using h
          rw [List.cons_append, List.cons_append, List.cons_lt_cons_iff, List.cons_lt_cons_iff, ih h',
            List.cons.injEq]
          tauto

/-- On `dom` the code has one width and keeps the order. -/
structure KeepsOrder [LT α] [LT β] (dom : Set β) (width : ℕ) (code : β → List α) : Prop where
  length : ∀ b ∈ dom, (code b).length = width
  lt_iff : ∀ a ∈ dom, ∀ b ∈ dom, code a < code b ↔ a < b

namespace KeepsOrder

section Basic

variable [LT α] [LT β] [LT γ] {dom : Set β} {width : ℕ} {code : β → List α}

theorem congr (K : KeepsOrder dom width code) {code' : β → List α}
    (h : ∀ b ∈ dom, code b = code' b) : KeepsOrder dom width code' where
  length := fun b hb => by rw [← h b hb, K.length b hb]
  lt_iff := fun a ha b hb => by rw [← h a ha, ← h b hb, K.lt_iff a ha b hb]

theorem mono (K : KeepsOrder dom width code) {dom' : Set β} (h : dom' ⊆ dom) :
    KeepsOrder dom' width code where
  length := fun b hb => K.length b (h hb)
  lt_iff := fun a ha b hb => K.lt_iff a (h ha) b (h hb)

/-- The code of a value that grows with another. -/
theorem comp (K : KeepsOrder dom width code) {dom' : Set γ} {f : γ → β}
    (hmaps : ∀ c ∈ dom', f c ∈ dom) (hf : ∀ a ∈ dom', ∀ b ∈ dom', f a < f b ↔ a < b) :
    KeepsOrder dom' width fun c => code (f c) where
  length := fun c hc => K.length _ (hmaps c hc)
  lt_iff := fun a ha b hb =>
    (K.lt_iff _ (hmaps a ha) _ (hmaps b hb)).trans (hf a ha b hb)

end Basic

section General

variable [LT α] [Std.Irrefl (· < · : α → α → Prop)] [LinearOrder β] [LinearOrder γ]
  {dom : Set β} {width : ℕ} {code : β → List α}

theorem eq_iff (K : KeepsOrder dom width code) {a b : β} (ha : a ∈ dom) (hb : b ∈ dom) :
    code a = code b ↔ a = b := by
  constructor
  · intro heq
    have hirrefl := List.lt_irrefl (code b)
    rcases lt_trichotomy a b with hlt | rfl | hlt
    · have h := (K.lt_iff a ha b hb).2 hlt
      rw [heq] at h
      exact absurd h hirrefl
    · rfl
    · have h := (K.lt_iff b hb a ha).2 hlt
      rw [heq] at h
      exact absurd h hirrefl
  · rintro rfl
    rfl

/-- Two codes one behind the other, if the first value decides and the second one where it does
    not. -/
theorem append {dom' : Set γ} {width' : ℕ} {code' : γ → List α} {δ : Type*} [LT δ] {dom'' : Set δ}
    {hi : δ → β} {lo : δ → γ} (K : KeepsOrder dom width code) (K' : KeepsOrder dom' width' code')
    (hhi : ∀ d ∈ dom'', hi d ∈ dom) (hlo : ∀ d ∈ dom'', lo d ∈ dom')
    (hlt : ∀ a ∈ dom'', ∀ b ∈ dom'', a < b ↔ hi a < hi b ∨ hi a = hi b ∧ lo a < lo b) :
    KeepsOrder dom'' (width + width') fun d => code (hi d) ++ code' (lo d) where
  length := by
    intro d hd
    rw [List.length_append, K.length _ (hhi d hd), K'.length _ (hlo d hd)]
  lt_iff := by
    intro a ha b hb
    have hlength : (code (hi a)).length = (code (hi b)).length := by
      rw [K.length _ (hhi a ha), K.length _ (hhi b hb)]
    rw [List.append_lt_append_iff hlength, K.lt_iff _ (hhi a ha) _ (hhi b hb),
      K.eq_iff (hhi a ha) (hhi b hb), K'.lt_iff _ (hlo a ha) _ (hlo b hb), hlt a ha b hb]

/-- What stands behind every list decides nothing. -/
theorem suffix (K : KeepsOrder dom width code) (end' : List α) :
    KeepsOrder dom (width + end'.length) fun b => code b ++ end' where
  length := by
    intro b hb
    rw [List.length_append, K.length b hb]
  lt_iff := by
    intro a ha b hb
    have hlength : (code a).length = (code b).length := by rw [K.length a ha, K.length b hb]
    rw [List.append_lt_append_iff hlength, K.lt_iff a ha b hb]
    have hirrefl := List.lt_irrefl end'
    tauto

end General

/-! ## Mixed radix -/

/-- Numbers compare by their quotients, and by their remainders where these are equal. -/
theorem lt_iff_ediv_emod {n : ℤ} (hn : 0 < n) (a b : ℤ) :
    a < b ↔ a / n < b / n ∨ a / n = b / n ∧ a % n < b % n := by
  have ha := Int.mul_ediv_add_emod a n
  have hb := Int.mul_ediv_add_emod b n
  have ha0 := Int.emod_nonneg a (ne_of_gt hn)
  have hb0 := Int.emod_nonneg b (ne_of_gt hn)
  have ha1 := Int.emod_lt_of_pos a hn
  have hb1 := Int.emod_lt_of_pos b hn
  constructor
  · intro hlt
    rcases lt_or_eq_of_le (Int.ediv_le_ediv hn (le_of_lt hlt)) with h | h
    · exact .inl h
    · refine .inr ⟨h, ?_⟩
      rw [h] at ha
      omega
  · rintro (h | ⟨h, hmod⟩)
    · by_contra hle
      have := Int.ediv_le_ediv hn (not_lt.1 hle)
      omega
    · rw [h] at ha
      omega

/-- The number in radix `n`. -/
theorem radix [LT α] [Std.Irrefl (· < · : α → α → Prop)] {m n : ℤ} {width width' : ℕ}
    {code code' : ℤ → List α} (hn : 0 < n)
    (K : KeepsOrder (Set.Ico 0 m) width code) (K' : KeepsOrder (Set.Ico 0 n) width' code') :
    KeepsOrder (Set.Ico 0 (m * n)) (width + width') fun k => code (k / n) ++ code' (k % n) := by
  refine K.append K' ?_ ?_ fun a _ b _ => lt_iff_ediv_emod hn a b
  · intro k hk
    exact ⟨Int.ediv_nonneg hk.1 (le_of_lt hn), Int.ediv_lt_of_lt_mul hn hk.2⟩
  · intro k _
    exact ⟨Int.emod_nonneg k (ne_of_gt hn), Int.emod_lt_of_pos k hn⟩

end KeepsOrder
