import Mathlib.Data.List.Basic
import Mathlib.Data.List.Perm.Basic
import Mathlib.Order.Basic
import Mathlib.Order.Defs.LinearOrder
import Mathlib.Order.Lattice
import Mathlib.Tactic.Common

set_option autoImplicit false

/-! # Ordered sets

A finite set kept in increasing order, as a balanced search tree of keys is seen through its
iterators: the elements are the strictly sorted list `toList`. Besides insertion and erasure the
structure has the two operations that need the order: the first element (`begin?`), and the split at
the first element that is not below a bound (`below`, `dropBelow`). -/

/-- A strictly increasing list. -/
structure OrderedSet (α : Type*) [LinearOrder α] where
  toList : List α
  sorted : toList.Pairwise (· < ·)

namespace OrderedSet

variable {α : Type*} [LinearOrder α]

/-! ## Operations -/

instance : EmptyCollection (OrderedSet α) := ⟨⟨[], List.Pairwise.nil⟩⟩

instance : Membership α (OrderedSet α) := ⟨fun s a => a ∈ s.toList⟩

instance (a : α) (s : OrderedSet α) : Decidable (a ∈ s) := inferInstanceAs (Decidable (a ∈ s.toList))

theorem mem_def {a : α} {s : OrderedSet α} : a ∈ s ↔ a ∈ s.toList := Iff.rfl

@[simp]
theorem not_mem_empty (a : α) : a ∉ (∅ : OrderedSet α) := List.not_mem_nil

/-- Insertion into a strictly increasing list; an element already there stays alone. -/
def insertList (x : α) : List α → List α
  | [] => [x]
  | y :: l => if x < y then x :: y :: l else if x = y then y :: l else y :: insertList x l

theorem mem_insertList {a x : α} {l : List α} : a ∈ insertList x l ↔ a = x ∨ a ∈ l := by
  induction l with
  | nil => simp [insertList]
  | cons y l ih =>
      rw [insertList]
      split_ifs with hlt heq
      · simp
      · subst heq
        simp
      · rw [List.mem_cons, ih, List.mem_cons]
        exact or_left_comm

theorem insertList_sorted (x : α) {l : List α} (h : l.Pairwise (· < ·)) :
    (insertList x l).Pairwise (· < ·) := by
  induction l with
  | nil => simp [insertList]
  | cons y l ih =>
      obtain ⟨hy, hl⟩ := List.pairwise_cons.1 h
      rw [insertList]
      split_ifs with hlt heq
      · refine List.pairwise_cons.2 ⟨fun b hb => ?_, h⟩
        rcases List.mem_cons.1 hb with rfl | hb
        · exact hlt
        · exact hlt.trans (hy b hb)
      · exact h
      · refine List.pairwise_cons.2 ⟨fun b hb => ?_, ih hl⟩
        rcases mem_insertList.1 hb with rfl | hb
        · exact lt_of_le_of_ne (not_lt.1 hlt) (Ne.symm heq)
        · exact hy b hb

/-- The set with `x` added. -/
def insert (s : OrderedSet α) (x : α) : OrderedSet α :=
  ⟨insertList x s.toList, insertList_sorted x s.sorted⟩

/-- The set without `x`. -/
def erase (s : OrderedSet α) (x : α) : OrderedSet α :=
  ⟨s.toList.erase x, s.sorted.sublist List.erase_sublist⟩

/-- The first element. -/
def begin? (s : OrderedSet α) : Option α := s.toList.head?

/-- The elements before the first one that is not below `x`, in order. -/
def below (s : OrderedSet α) (x : α) : List α := s.toList.takeWhile (· < x)

/-- The set from the first element that is not below `x` on. -/
def dropBelow (s : OrderedSet α) (x : α) : OrderedSet α :=
  ⟨s.toList.dropWhile (· < x), s.sorted.sublist (List.dropWhile_sublist _)⟩

/-! ## Membership -/

theorem nodup (s : OrderedSet α) : s.toList.Nodup := s.sorted.imp ne_of_lt

@[simp]
theorem mem_insert {a x : α} {s : OrderedSet α} : a ∈ s.insert x ↔ a = x ∨ a ∈ s := mem_insertList

@[simp]
theorem mem_erase {a x : α} {s : OrderedSet α} : a ∈ s.erase x ↔ a ≠ x ∧ a ∈ s :=
  s.nodup.mem_erase_iff

/-- On a strictly increasing list the `takeWhile` below a bound is the filter, and the rest is the
    complement. -/
theorem mem_takeWhile_lt {l : List α} (h : l.Pairwise (· < ·)) (a x : α) :
    (a ∈ l.takeWhile (· < x) ↔ a ∈ l ∧ a < x) ∧ (a ∈ l.dropWhile (· < x) ↔ a ∈ l ∧ x ≤ a) := by
  induction l with
  | nil => simp
  | cons y l ih =>
      obtain ⟨hy, hl⟩ := List.pairwise_cons.1 h
      by_cases hyx : y < x
      · rw [List.takeWhile_cons_of_pos (by simpa using hyx),
          List.dropWhile_cons_of_pos (by simpa using hyx)]
        obtain ⟨iht, ihd⟩ := ih hl
        constructor
        · rw [List.mem_cons, List.mem_cons, iht]
          constructor
          · rintro (rfl | ⟨hm, hlt⟩)
            · exact ⟨Or.inl rfl, hyx⟩
            · exact ⟨Or.inr hm, hlt⟩
          · rintro ⟨rfl | hm, hlt⟩
            · exact Or.inl rfl
            · exact Or.inr ⟨hm, hlt⟩
        · rw [List.mem_cons, ihd]
          constructor
          · rintro ⟨hm, hle⟩
            exact ⟨Or.inr hm, hle⟩
          · rintro ⟨rfl | hm, hle⟩
            · exact absurd hyx (not_lt.2 hle)
            · exact ⟨hm, hle⟩
      · have hge : ∀ b ∈ y :: l, x ≤ b := by
          intro b hb
          rcases List.mem_cons.1 hb with rfl | hb
          · exact not_lt.1 hyx
          · exact (not_lt.1 hyx).trans (hy b hb).le
        rw [List.takeWhile_cons_of_neg (by simpa using hyx),
          List.dropWhile_cons_of_neg (by simpa using hyx)]
        constructor
        · constructor
          · intro hm
            exact absurd hm List.not_mem_nil
          · rintro ⟨hm, hlt⟩
            exact absurd hlt (not_lt.2 (hge a hm))
        · exact ⟨fun hm => ⟨hm, hge a hm⟩, fun hm => hm.1⟩

theorem mem_below {a x : α} {s : OrderedSet α} : a ∈ s.below x ↔ a ∈ s ∧ a < x :=
  (mem_takeWhile_lt s.sorted a x).1

@[simp]
theorem mem_dropBelow {a x : α} {s : OrderedSet α} : a ∈ s.dropBelow x ↔ a ∈ s ∧ x ≤ a :=
  (mem_takeWhile_lt s.sorted a x).2

theorem mem_foldl_erase {a : α} {l : List α} {s : OrderedSet α} :
    a ∈ l.foldl erase s ↔ a ∉ l ∧ a ∈ s := by
  induction l generalizing s with
  | nil => simp
  | cons x l ih => rw [List.foldl_cons, ih, mem_erase, List.mem_cons, not_or, and_assoc, and_left_comm]

/-- The elements before the first one that is not below `x` are those below `x`. -/
theorem below_eq_filter (s : OrderedSet α) (x : α) : s.below x = s.toList.filter (· < x) := by
  unfold below
  obtain ⟨l, hsorted⟩ := s
  induction l with
  | nil => rfl
  | cons y l ih =>
      obtain ⟨hy, hl⟩ := List.pairwise_cons.1 hsorted
      by_cases hyx : y < x
      · rw [List.takeWhile_cons_of_pos (by simpa using hyx), List.filter_cons_of_pos
          (by simpa using hyx), ih hl]
      · have hnone : ∀ b ∈ l, ¬ (decide (b < x)) = true := by
          intro b hb hbx
          exact hyx ((hy b hb).trans (of_decide_eq_true hbx))
        rw [List.takeWhile_cons_of_neg (by simpa using hyx), List.filter_cons_of_neg
          (by simpa using hyx), List.filter_eq_nil_iff.2 hnone]

/-! ## The first element -/

theorem begin?_eq_none {s : OrderedSet α} : s.begin? = none ↔ ∀ a, a ∉ s := by
  rw [begin?, List.head?_eq_none_iff, List.eq_nil_iff_forall_not_mem]
  exact Iff.rfl

theorem begin?_eq_some {s : OrderedSet α} {a : α} (h : s.begin? = some a) :
    a ∈ s ∧ ∀ b ∈ s, a ≤ b := by
  obtain ⟨l, hl⟩ := List.head?_eq_some_iff.1 h
  constructor
  · rw [mem_def, hl]
    exact List.mem_cons_self
  · intro b hb
    rw [mem_def, hl] at hb
    rcases List.mem_cons.1 hb with rfl | hb
    · exact le_rfl
    · exact (List.rel_of_pairwise_cons (hl ▸ s.sorted) hb).le

end OrderedSet
