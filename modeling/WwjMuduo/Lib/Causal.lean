import Mathlib.Data.List.Basic
import Mathlib.Tactic.Common

set_option autoImplicit false

/-! # Causal lists

A log is causal if each of its entries comes after all that it needs. What has been queued can be read
as the rest of the log: an entry that is made at once goes between the two. -/

variable {α : Type*} {needs : α → α → Prop}

/-- Each entry of the list comes after what it needs, there or in `done`. -/
def Causal (needs : α → α → Prop) : List α → List α → Prop
  | _, [] => True
  | done, x :: l => (∀ y, needs x y → y ∈ done) ∧ Causal needs (done ++ [x]) l

namespace Causal

theorem mono {done done' l : List α} (hsub : ∀ y ∈ done, y ∈ done') (h : Causal needs done l) :
    Causal needs done' l := by
  induction l generalizing done done' with
  | nil => trivial
  | cons x l ih =>
      obtain ⟨hx, hl⟩ := h
      refine ⟨fun y hy => hsub y (hx y hy), ih (fun y hy => ?_) hl⟩
      rcases List.mem_append.1 hy with hy | hy
      · exact List.mem_append_left _ (hsub y hy)
      · exact List.mem_append_right _ hy

theorem append_iff {done l m : List α} :
    Causal needs done (l ++ m) ↔ Causal needs done l ∧ Causal needs (done ++ l) m := by
  induction l generalizing done with
  | nil => simp [Causal]
  | cons x l ih =>
      rw [List.cons_append, Causal, Causal, ih, and_assoc, List.append_assoc, List.singleton_append]

theorem of_append {done l m : List α} (h : Causal needs done (l ++ m)) : Causal needs done l :=
  (append_iff.1 h).1

/-- What is made at once goes before what is queued. -/
theorem insert {done l m : List α} {x : α} (h : Causal needs done (l ++ m))
    (hx : ∀ y, needs x y → y ∈ done ++ l) : Causal needs done (l ++ x :: m) := by
  obtain ⟨hl, hm⟩ := append_iff.1 h
  exact append_iff.2 ⟨hl, hx, hm.mono fun y hy => List.mem_append_left _ hy⟩

/-- Read at each entry. -/
theorem iff_forall {done l : List α} : Causal needs done l ↔
    ∀ pre x post, l = pre ++ x :: post → ∀ y, needs x y → y ∈ done ++ pre := by
  induction l generalizing done with
  | nil => simp [Causal]
  | cons x l ih =>
      rw [Causal, ih]
      constructor
      · rintro ⟨hx, hl⟩ pre z post hsplit y hy
        cases pre with
        | nil =>
            obtain ⟨rfl, -⟩ := List.cons.inj hsplit
            simpa using hx y hy
        | cons w pre =>
            obtain ⟨rfl, hrest⟩ := List.cons.inj hsplit
            simpa using hl pre z post hrest y hy
      · intro h
        refine ⟨fun y hy => by simpa using h [] x l rfl y hy, fun pre z post hsplit y hy => ?_⟩
        simpa using h (x :: pre) z post (by rw [hsplit, List.cons_append]) y hy

end Causal
