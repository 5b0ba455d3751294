import WwjMuduo.Lib.Run

set_option autoImplicit false

/-! # Thread

`start()` gives the new thread a `ThreadData` of its own: copies of the function and the name, and the
address of `tid_`, which belongs to the `Thread`. The thread stores its id there before anything else
and deletes the data when it is done. The owner may join the thread; the destructor detaches a thread
that was started and not joined.

The data are used by one thread only, and `func_` is called once, whatever the owner does. The store to
`tid_` is another matter: nothing makes the destructor wait for it. An owner that joins before it
destroys, as `EventLoopThread` does, has nothing to fear. -/

namespace WwjMuduo

/-- Where a thread is in `startThread`. -/
inductive StartPlace where
  /-- before `*wkTid_ = tid()` -/
  | storing
  /-- before `t_threadName = ..` and `prctl` -/
  | naming
  /-- before `func_()` -/
  | calling
  /-- in `func_()` -/
  | inFunc
  /-- before `t_threadName = "finished"` -/
  | finishing
  /-- before `delete data` -/
  | deleting
  | ended
  deriving DecidableEq

namespace StartPlace

/-- `func_()` has been called. -/
def called : StartPlace → Bool
  | storing | naming | calling => false
  | _ => true

end StartPlace

/-- What `t_threadName` points to. -/
inductive ThreadName where
  | main
  | wwjThread
  /-- `data->name_.c_str()` -/
  | ofData
  | finished
  deriving DecidableEq

/-- `ThreadData`, but for `wkTid_`. -/
structure ThreadData (φ : Type*) where
  func_ : φ
  name_ : String

/-- A thread that `pthread_create` has made. -/
structure Pthread (φ : Type*) where
  place : StartPlace
  /-- The id that the kernel has given it. -/
  tid : ℕ
  /-- The argument of `startThread`, while it has not been deleted. -/
  data : Option (ThreadData φ)
  t_threadName : ThreadName
  /-- Neither joined nor detached. -/
  attached : Bool

structure Thread (φ : Type*) where
  started_ : Bool
  joined_ : Bool
  /-- The place of the thread among those made. -/
  pthreadId_ : Option ℕ
  tid_ : ℕ
  func_ : φ
  name_ : String

/-- A `Thread`, the threads it has started, and its owner. -/
structure ThreadLife (φ : Type*) where
  /-- The object, while it has not been destroyed. -/
  object : Option (Thread φ)
  /-- The thread that the owner waits for in `pthread_join`. -/
  joining : Option ℕ
  threads : List (Pthread φ)
  /-- The calls of `func_`. -/
  calls : List φ
  /-- A thread has stored its id in an object that was gone. -/
  dangling : Bool
  aborted : Bool

inductive ThreadLifeEvent where
  /-- `start()`, with the id of the new thread. -/
  | start (tid : ℕ)
  /-- A `start()` whose `pthread_create` fails. -/
  | startFails
  /-- `join()` up to the return from `pthread_join`. -/
  | join
  | joinReturns
  | destroy
  /-- The next statement of a thread. -/
  | run (i : ℕ)

variable {φ : Type*}

namespace Thread

/-- The constructor. -/
def new (func : φ) (name : String) : Thread φ :=
  { started_ := false, joined_ := false, pthreadId_ := none, tid_ := 0, func_ := func, name_ := name }

end Thread

namespace Pthread

/-- A thread that has just been made. -/
def new (tid : ℕ) (data : ThreadData φ) : Pthread φ :=
  { place := .storing, tid := tid, data := some data, t_threadName := .main, attached := true }

/-- The next statement of `startThread`, but for its store. Data that are gone are undefined. -/
def next (t : Pthread φ) : Option (Pthread φ) :=
  match t.place with
  | .storing => t.data.map fun _ => { t with place := .naming }
  | .naming => t.data.map fun data => { t with
      t_threadName := if data.name_ = "" then .wwjThread else .ofData
      place := .calling }
  | .calling => t.data.map fun _ => { t with place := .inFunc }
  | .inFunc => some { t with place := .finishing }
  | .finishing => some { t with t_threadName := .finished, place := .deleting }
  | .deleting => t.data.map fun _ => { t with data := none, place := .ended }
  | .ended => none

end Pthread

namespace ThreadLife

def new (func : φ) (name : String) : ThreadLife φ :=
  { object := some (.new func name)
    joining := none
    threads := []
    calls := []
    dangling := false
    aborted := false }

/-- A join or a detach. -/
def release (s : ThreadLife φ) (i : ℕ) : ThreadLife φ :=
  { s with threads := s.threads.modify i fun t => { t with attached := false } }

/-- `Thread::start`. -/
def start (s : ThreadLife φ) (th : Thread φ) (tid : ℕ) : ThreadLife φ :=
  { s with
    object := some { th with started_ := true, pthreadId_ := some s.threads.length }
    threads := s.threads ++ [.new tid ⟨th.func_, th.name_⟩] }

/-- The destructor. -/
def destroy (s : ThreadLife φ) (th : Thread φ) : ThreadLife φ :=
  { (if th.started_ ∧ ¬ th.joined_ then th.pthreadId_.elim s s.release else s) with object := none }

/-- A statement of a thread. -/
def run (s : ThreadLife φ) (i : ℕ) : Option (ThreadLife φ) :=
  s.threads[i]?.bind fun t => t.next.map fun t' =>
    { s with
      threads := s.threads.set i t'
      object := if t.place = .storing then s.object.map fun th => { th with tid_ := t.tid } else s.object
      dangling := s.dangling || (decide (t.place = .storing) && s.object.isNone)
      calls := if t.place = .calling then s.calls ++ (t.data.map ThreadData.func_).toList else s.calls }

def exec (s : ThreadLife φ) : ThreadLifeEvent → Option (ThreadLife φ)
  | .start tid => s.object.map fun th => s.start th tid
  | .startFails => s.object.map fun th =>
    { s with object := some { th with started_ := false }, aborted := true }
  | .join => s.object.map fun th =>
    { s with object := some { th with joined_ := true }, joining := th.pthreadId_ }
  | .joinReturns => s.joining.map fun i => { s.release i with joining := none }
  | .destroy => s.object.map s.destroy
  | .run i => s.run i

/-- `pthread_join` needs a thread that has been neither joined nor detached. -/
def Joinable (s : ThreadLife φ) : Prop :=
  ∃ th ∈ s.object, ∃ i ∈ th.pthreadId_, ∃ t ∈ s.threads[i]?, t.attached = true

instance (s : ThreadLife φ) : Decidable s.Joinable :=
  inferInstanceAs (Decidable (∃ th ∈ s.object, ∃ i ∈ th.pthreadId_, ∃ t ∈ s.threads[i]?, _))

/-- The thread that the owner waits for has ended. -/
def Awaited (s : ThreadLife φ) : Prop := ∃ i ∈ s.joining, ∃ t ∈ s.threads[i]?, t.place = .ended

instance (s : ThreadLife φ) : Decidable s.Awaited :=
  inferInstanceAs (Decidable (∃ i ∈ s.joining, ∃ t ∈ s.threads[i]?, _))

/-- What can happen next. The owner makes one call after the other. -/
def Enabled (s : ThreadLife φ) : ThreadLifeEvent → Prop
  | .start _ | .startFails | .destroy => s.aborted = false ∧ s.joining = none
  | .join => s.aborted = false ∧ s.joining = none ∧ s.Joinable
  | .joinReturns => s.aborted = false ∧ s.Awaited
  | .run _ => s.aborted = false

instance (s : ThreadLife φ) : (e : ThreadLifeEvent) → Decidable (s.Enabled e)
  | .start _ | .startFails | .destroy =>
    inferInstanceAs (Decidable (s.aborted = false ∧ s.joining = none))
  | .join => inferInstanceAs (Decidable (s.aborted = false ∧ s.joining = none ∧ s.Joinable))
  | .joinReturns => inferInstanceAs (Decidable (s.aborted = false ∧ s.Awaited))
  | .run _ => inferInstanceAs (Decidable (s.aborted = false))

def step : ThreadLife φ → ThreadLifeEvent → Option (ThreadLife φ) := Run.restrict Enabled exec

end ThreadLife

/-! ## The data of a thread -/

namespace Pthread

/-- The data are there until the thread has ended, and `t_threadName` points into them while
    `func_` runs. -/
structure Sound (func : φ) (name : String) (t : Pthread φ) : Prop where
  data : t.data = if t.place = .ended then none else some ⟨func, name⟩
  t_threadName : t.t_threadName = .ofData →
    t.place = .calling ∨ t.place = .inFunc ∨ t.place = .finishing

variable {func : φ} {name : String} {t t' : Pthread φ}

theorem sound_new (tid : ℕ) : Sound func name (.new tid ⟨func, name⟩) :=
  ⟨rfl, fun h => absurd h (by simp [new])⟩

theorem Sound.release (S : Sound func name t) : Sound func name { t with attached := false } :=
  ⟨S.data, S.t_threadName⟩

/-- The place after the next statement. -/
def following : StartPlace → StartPlace
  | .storing => .naming
  | .naming => .calling
  | .calling => .inFunc
  | .inFunc => .finishing
  | .finishing => .deleting
  | .deleting | .ended => .ended

/-- A thread that has not ended has a next statement, and uses no data that are gone. -/
theorem Sound.next (S : Sound func name t) (h : t.place ≠ .ended) :
    ∃ t', t.next = some t' ∧ t'.place = following t.place ∧ t'.tid = t.tid ∧
      t'.attached = t.attached ∧ Sound func name t' := by
  have hname := S.t_threadName
  have hdata := S.data
  rw [if_neg h] at hdata
  obtain ⟨place, tid, data, t_threadName, attached⟩ := t
  obtain rfl : data = some ⟨func, name⟩ := hdata
  cases place with
  | storing => exact ⟨_, rfl, rfl, rfl, rfl, rfl, fun h => absurd (hname h) (by simp)⟩
  | calling => exact ⟨_, rfl, rfl, rfl, rfl, rfl, fun _ => .inr (.inl rfl)⟩
  | naming => exact ⟨_, rfl, rfl, rfl, rfl, rfl, fun _ => .inl rfl⟩
  | inFunc => exact ⟨_, rfl, rfl, rfl, rfl, rfl, fun _ => .inr (.inr rfl)⟩
  | finishing => exact ⟨_, rfl, rfl, rfl, rfl, rfl, fun h => absurd h (by simp)⟩
  | deleting => exact ⟨_, rfl, rfl, rfl, rfl, rfl, fun h => absurd (hname h) (by simp)⟩
  | ended => exact absurd rfl h

theorem next_ended (h : t.place = .ended) : t.next = none := by
  rw [next, h]

end Pthread

namespace ThreadLife

/-- What holds in every state, whatever the owner does. -/
structure Inv (func : φ) (name : String) (s : ThreadLife φ) : Prop where
  object : ∀ th ∈ s.object, th.func_ = func ∧ th.name_ = name
  threads : ∀ t ∈ s.threads, t.Sound func name
  calls : s.calls = List.replicate (s.threads.countP fun t => t.place.called) func
  joining : ∀ i ∈ s.joining, i < s.threads.length

variable {func : φ} {name : String} {s s' : ThreadLife φ}

theorem inv_new (func : φ) (name : String) : Inv func name (new func name) where
  object th h := by
    obtain rfl := Option.mem_some_iff.1 h
    exact ⟨rfl, rfl⟩
  threads t h := absurd h List.not_mem_nil
  calls := rfl
  joining i h := absurd h (by simp [new])

theorem Inv.release (I : Inv func name s) (i : ℕ) : Inv func name (s.release i) := by
  have hmodify : (s.release i).threads = s.threads.modify i fun t => { t with attached := false } :=
    rfl
  have hjoining : ∀ j ∈ (s.release i).joining, j < (s.release i).threads.length := by
    rw [hmodify, List.length_modify]
    exact I.joining
  rw [List.modify_eq_set_getElem?] at hmodify
  cases hi : s.threads[i]? with
  | none =>
      rw [hi] at hmodify
      have hsame : (s.release i).threads = s.threads := hmodify
      refine ⟨I.object, ?_, ?_, hjoining⟩ <;> rw [hsame]
      · exact I.threads
      · exact I.calls
  | some t =>
      obtain ⟨hlt, rfl⟩ := List.getElem?_eq_some_iff.1 hi
      rw [hi] at hmodify
      refine ⟨I.object, fun t ht => ?_, ?_, hjoining⟩
      · rw [hmodify] at ht
        rcases List.mem_or_eq_of_mem_set ht with ht | rfl
        · exact I.threads t ht
        · exact (I.threads _ (List.getElem_mem hlt)).release
      · show s.calls = _
        rw [hmodify, I.calls]
        congr 1
        have hpos := List.boole_getElem_le_countP (p := fun t : Pthread φ => t.place.called) hlt
        simp only [Option.map_eq_map, Option.map_some, Option.getD_some, List.countP_set hlt]
        omega

/-- The next statement of a thread, where it has one. -/
theorem Inv.run_eq (I : Inv func name s) {i : ℕ} {t : Pthread φ} (ht : s.threads[i]? = some t)
    (hplace : t.place ≠ .ended) : ∃ t', t.next = some t' ∧ s.run i = some { s with
      threads := s.threads.set i t'
      object := if t.place = .storing then s.object.map fun th => { th with tid_ := t.tid } else s.object
      dangling := s.dangling || (decide (t.place = .storing) && s.object.isNone)
      calls := if t.place = .calling then s.calls ++ [func] else s.calls } := by
  obtain ⟨hlt, rfl⟩ := List.getElem?_eq_some_iff.1 ht
  have S := I.threads _ (List.getElem_mem hlt)
  have hdata := S.data
  rw [if_neg hplace] at hdata
  obtain ⟨t', hnext, -⟩ := S.next hplace
  refine ⟨t', hnext, ?_⟩
  rw [ThreadLife.run, ht, Option.bind_some, hnext, hdata]
  rfl

theorem Inv.run (I : Inv func name s) {i : ℕ} (h : s.run i = some s') : Inv func name s' := by
  obtain ⟨t, ht, hrun⟩ := Option.bind_eq_some_iff.1 h
  have hplace : t.place ≠ .ended := by
    intro hended
    rw [Pthread.next_ended hended] at hrun
    exact absurd hrun (by simp)
  obtain ⟨t', hnext, hrun'⟩ := I.run_eq ht hplace
  obtain rfl := Option.some.inj (hrun'.symm.trans h)
  obtain ⟨hlt, rfl⟩ := List.getElem?_eq_some_iff.1 ht
  obtain ⟨t₁, hnext₁, hplace', -, -, S'⟩ := (I.threads _ (List.getElem_mem hlt)).next hplace
  obtain rfl : t₁ = t' := Option.some.inj (hnext₁.symm.trans hnext)
  refine ⟨fun th hth => ?_, fun t ht => ?_, ?_, fun j hj => ?_⟩
  · dsimp only at hth
    split_ifs at hth
    · obtain ⟨th₀, hth₀, rfl⟩ := Option.map_eq_some_iff.1 hth
      exact I.object th₀ hth₀
    · exact I.object th hth
  · rcases List.mem_or_eq_of_mem_set ht with ht | rfl
    · exact I.threads t ht
    · exact S'
  · -- The thread is counted from its call on.
    have hpos := List.boole_getElem_le_countP (p := fun t : Pthread φ => t.place.called) hlt
    show (if _ then s.calls ++ [func] else s.calls) = _
    rw [List.countP_set hlt, hplace', I.calls]
    cases hold : (s.threads[i]).place with
    | ended => exact absurd hold hplace
    | calling =>
        rw [if_pos rfl, ← List.replicate_succ']
        simp [StartPlace.called, Pthread.following]
    | storing | naming => simp [StartPlace.called, Pthread.following]
    | inFunc | finishing | deleting =>
        simp only [hold, StartPlace.called, if_true] at hpos
        simp only [reduceCtorEq, if_false, StartPlace.called, Pthread.following, if_true]
        rw [Nat.sub_add_cancel hpos]
  · rw [List.length_set]
    exact I.joining j hj

theorem Inv.step {e : ThreadLifeEvent} (I : Inv func name s) (h : s.step e = some s') :
    Inv func name s' := by
  obtain ⟨henabled, hexec⟩ := Run.restrict_eq_some.1 h
  cases e with
  | run i => exact I.run hexec
  | start tid =>
      obtain ⟨th, hth, rfl⟩ := Option.map_eq_some_iff.1 hexec
      obtain ⟨hfunc, hname⟩ := I.object th hth
      refine ⟨fun th' hth' => ?_, fun t ht => ?_, ?_, fun j hj => ?_⟩
      · obtain rfl := Option.some.inj hth'
        exact ⟨hfunc, hname⟩
      · rcases List.mem_append.1 ht with ht | ht
        · exact I.threads t ht
        · rw [List.mem_singleton.1 ht, hfunc, hname]
          exact Pthread.sound_new tid
      · show s.calls = _
        rw [I.calls]
        simp [ThreadLife.start, List.countP_append, Pthread.new, StartPlace.called]
      · show j < (s.threads ++ [_]).length
        rw [List.length_append]
        exact Nat.lt_add_right _ (I.joining j hj)
  | startFails =>
      obtain ⟨th, hth, rfl⟩ := Option.map_eq_some_iff.1 hexec
      refine ⟨fun th' hth' => ?_, I.threads, I.calls, I.joining⟩
      obtain rfl := Option.some.inj hth'
      exact I.object th hth
  | join =>
      obtain ⟨th, hth, rfl⟩ := Option.map_eq_some_iff.1 hexec
      obtain ⟨-, -, th₁, hth₁, i, hi, t, ht, -⟩ := henabled
      obtain rfl : th₁ = th := Option.mem_unique hth₁ hth
      have hfunc := I.object th₁ hth
      refine ⟨fun th' hth' => ?_, I.threads, I.calls, fun j hj => ?_⟩
      · obtain rfl := Option.some.inj hth'
        exact hfunc
      · obtain rfl : i = j := Option.mem_unique hi hj
        exact (List.getElem?_eq_some_iff.1 ht).1
  | joinReturns =>
      obtain ⟨i, -, rfl⟩ := Option.map_eq_some_iff.1 hexec
      have I' := I.release i
      exact ⟨I'.object, I'.threads, I'.calls, fun j hj => absurd hj (by simp)⟩
  | destroy =>
      obtain ⟨th, -, rfl⟩ := Option.map_eq_some_iff.1 hexec
      have hgone {u : ThreadLife φ} (J : Inv func name u) : Inv func name { u with object := none } :=
        ⟨fun th' hth' => absurd hth' (by simp), J.threads, J.calls, J.joining⟩
      refine hgone ?_
      split_ifs
      · cases th.pthreadId_ with
        | none => exact I
        | some i => exact I.release i
      · exact I

theorem inv_run {events : List ThreadLifeEvent}
    (h : Run.run step (new func name) events = some s) : Inv func name s :=
  Run.inv_run (I := Inv func name) (fun _ _ _ I hs => I.step hs) (inv_new func name) h

/-- How many statements a thread has before it. -/
def left : StartPlace → ℕ
  | .storing => 6
  | .naming => 5
  | .calling => 4
  | .inFunc => 3
  | .finishing => 2
  | .deleting => 1
  | .ended => 0

/-- A thread that goes on comes to its end, and nothing else has to happen. -/
theorem canReach_end (I : Inv func name s) (ha : s.aborted = false) {i : ℕ} {t : Pthread φ}
    (ht : s.threads[i]? = some t) : Run.CanReachBy step (fun _ e => e = .run i)
      (fun s' => s'.aborted = false ∧ s'.joining = s.joining ∧
        ∃ t', s'.threads[i]? = some t' ∧ t'.place = .ended) s := by
  induction hn : left t.place generalizing s t with
  | zero =>
      have hended : t.place = .ended := by
        cases hplace : t.place <;> simp [hplace, left] at hn
        rfl
      exact ⟨[], s, trivial, rfl, ha, rfl, t, ht, hended⟩
  | succ n ih =>
      have hplace : t.place ≠ .ended := by
        intro hended
        rw [hended] at hn
        exact absurd hn (by simp [left])
      obtain ⟨hlt, rfl⟩ := List.getElem?_eq_some_iff.1 ht
      obtain ⟨t', hnext, hrun⟩ := I.run_eq ht hplace
      obtain ⟨t₁, hnext₁, hplace', -⟩ := (I.threads _ (List.getElem_mem hlt)).next hplace
      obtain rfl : t₁ = t' := Option.some.inj (hnext₁.symm.trans hnext)
      have hstep : s.step (.run i) = some _ := Run.restrict_eq_some.2 ⟨ha, hrun⟩
      have hn' : left t₁.place = n := by
        rw [hplace']
        cases hold : (s.threads[i]).place <;> simp only [hold, left] at hn <;>
          simp only [Pthread.following, left] <;> omega
      exact (ih (I.run hrun) ha (List.getElem?_set_self hlt) hn').cons hstep rfl

/-- **What a thread is given is its own.** However the owner starts, joins and destroys, and in
    whatever order the threads run: no statement of a thread uses a `ThreadData` that has been
    deleted, `t_threadName` does not point into one, `func_` has been called once by each thread
    that has got so far, the data are deleted when it ends, and each `pthread_join` can return. -/
theorem data_are_the_threads_own {events : List ThreadLifeEvent}
    (h : Run.run step (new func name) events = some s) :
    (∀ t ∈ s.threads, t.place ≠ .ended → t.next.isSome) ∧
      (∀ t ∈ s.threads, t.t_threadName = .ofData → t.data.isSome) ∧
      (∀ t ∈ s.threads, t.place = .ended → t.data = none) ∧
      s.calls = List.replicate (s.threads.countP fun t => t.place.called) func ∧
      (s.aborted = false → Run.CanReach step (fun s' => s'.joining = none) s) := by
  have I := inv_run h
  refine ⟨fun t ht hplace => ?_, fun t ht hname => ?_, fun t ht hplace => ?_, I.calls, fun ha => ?_⟩
  · obtain ⟨t', hnext, -⟩ := (I.threads t ht).next hplace
    exact Option.isSome_iff_exists.2 ⟨t', hnext⟩
  · have hdata := (I.threads t ht).data
    rw [if_neg (by rcases (I.threads t ht).t_threadName hname with h | h | h <;> simp [h])] at hdata
    rw [hdata]
    rfl
  · have hdata := (I.threads t ht).data
    rwa [if_pos hplace] at hdata
  · cases hjoining : s.joining with
    | none => exact .of_self hjoining
    | some i =>
        have hi := I.joining i hjoining
        obtain ⟨es, s₁, -, hrun, ha₁, hjoining₁, t, ht, hended⟩ :=
          canReach_end I ha (List.getElem?_eq_getElem hi)
        have hreturn : s₁.step .joinReturns = some { s₁.release i with joining := none } := by
          refine Run.restrict_eq_some.2 ⟨⟨ha₁, i, hjoining₁.trans hjoining, t, ht, hended⟩, ?_⟩
          show s₁.joining.map _ = _
          rw [hjoining₁, hjoining]
          rfl
        exact ⟨es ++ [.joinReturns], _, Run.run_append_eq_some.2
          ⟨s₁, hrun, Run.run_singleton.trans hreturn⟩, rfl⟩

/-- The object is gone while `func_` runs. -/
theorem data_are_the_threads_own_detached : ∃ s : ThreadLife ℕ,
    Run.run step (new 5 "io") [.start 71, .run 0, .run 0, .run 0, .destroy] = some s ∧
      ∀ t ∈ s.threads, t.data.isSome := by
  have hrun : ((Run.run step (new 5 "io") [.start 71, .run 0, .run 0, .run 0, .destroy]).map fun s =>
      s.threads.all (·.t_threadName = .ofData)) = some true := by decide +kernel
  obtain ⟨s, hs, hs'⟩ := Option.map_eq_some_iff.1 hrun
  obtain ⟨-, hdata, -⟩ := data_are_the_threads_own hs
  exact ⟨s, hs, fun t ht => hdata t ht (of_decide_eq_true (List.all_eq_true.1 hs' t ht))⟩

/-! ## An owner that joins -/

/-- The owner starts once and joins what it has started before it destroys. -/
def Orderly (s : ThreadLife φ) : ThreadLifeEvent → Prop
  | .start _ | .startFails => ∀ th ∈ s.object, th.started_ = false
  | .destroy => ∀ th ∈ s.object, th.started_ = true → th.joined_ = true
  | _ => True

instance (s : ThreadLife φ) : (e : ThreadLifeEvent) → Decidable (s.Orderly e)
  | .start _ | .startFails => inferInstanceAs (Decidable (∀ th ∈ s.object, th.started_ = false))
  | .destroy => inferInstanceAs (Decidable (∀ th ∈ s.object, th.started_ = true → th.joined_ = true))
  | .join | .joinReturns | .run _ => isTrue trivial

/-- What the thread has stored in `tid_`. -/
def stored (t : Pthread φ) : ℕ := if t.place = .storing then 0 else t.tid

/-- The states that an orderly owner goes through. -/
inductive Stage (func : φ) (name : String) : ThreadLife φ → Prop where
  | created : Stage func name (new func name)
  | failed : Stage func name { new func name with aborted := true }
  /-- The thread has been started, and the owner may wait for it. -/
  | started (t : Pthread φ) (joined : Bool) (calls : List φ) (hattached : t.attached = true) :
      Stage func name
        { object := some ⟨true, joined, some 0, stored t, func, name⟩
          joining := if joined then some 0 else none
          threads := [t]
          calls := calls
          dangling := false
          aborted := false }
  | joined (t : Pthread φ) (calls : List φ) (hended : t.place = .ended)
      (hattached : t.attached = false) :
      Stage func name
        { object := some ⟨true, true, some 0, t.tid, func, name⟩
          joining := none
          threads := [t]
          calls := calls
          dangling := false
          aborted := false }
  | destroyed (threads : List (Pthread φ)) (calls : List φ)
      (hthreads : ∀ t ∈ threads, t.place = .ended ∧ t.attached = false) :
      Stage func name
        { object := none
          joining := none
          threads := threads
          calls := calls
          dangling := false
          aborted := false }

/-- The first statement stores the id, and no other changes it. -/
theorem stored_next {t t' : Pthread φ} (hplace : t'.place = Pthread.following t.place)
    (htid : t'.tid = t.tid) : stored t' = t.tid := by
  have hne : t'.place ≠ .storing := by
    rw [hplace]
    cases t.place <;> decide
  rw [stored, if_neg hne, htid]

/-- A thread that runs finds the object. -/
theorem stage_run {t : Pthread φ} {joined : Bool} {calls : List φ} {i : ℕ}
    (hattached : t.attached = true) (hs : s =
      { object := some ⟨true, joined, some 0, stored t, func, name⟩
        joining := if joined then some 0 else none
        threads := [t]
        calls := calls
        dangling := false
        aborted := false }) (I : Inv func name s) (h : s.run i = some s') : Stage func name s' := by
  obtain ⟨u, hu, hrun⟩ := Option.bind_eq_some_iff.1 h
  have hthreads : s.threads = [t] := by rw [hs]
  rw [hthreads] at hu
  obtain ⟨hi, rfl⟩ := List.getElem?_eq_some_iff.1 hu
  obtain rfl : i = 0 := Nat.lt_one_iff.1 hi
  have hplace : t.place ≠ .ended := by
    intro hended
    rw [List.getElem_cons_zero, Pthread.next_ended hended] at hrun
    exact absurd hrun (by simp)
  have hzero : s.threads[0]? = some t := by
    rw [hthreads]
    rfl
  obtain ⟨t', hnext, hrun'⟩ := I.run_eq hzero hplace
  obtain ⟨t₁, hnext₁, hplace', htid, hattached', -⟩ :=
    (I.threads t (by rw [hthreads]; exact List.mem_singleton_self t)).next hplace
  obtain rfl : t₁ = t' := Option.some.inj (hnext₁.symm.trans hnext)
  obtain rfl := Option.some.inj (hrun'.symm.trans h)
  have hobject : (if t.place = .storing then s.object.map fun th => { th with tid_ := t.tid }
      else s.object) = some ⟨true, joined, some 0, stored t₁, func, name⟩ := by
    rw [stored_next hplace' htid, hs]
    by_cases hstoring : t.place = .storing
    · rw [if_pos hstoring]
      rfl
    · rw [if_neg hstoring, stored, if_neg hstoring]
  have hdangling : (s.dangling || (decide (t.place = .storing) && s.object.isNone)) = false := by
    rw [hs]
    simp
  rw [hobject, hdangling, hs]
  exact .started t₁ joined _ (hattached'.trans hattached)

theorem Stage.step {e : ThreadLifeEvent} (S : Stage func name s) (I : Inv func name s)
    (horderly : s.Orderly e) (h : s.step e = some s') : Stage func name s' := by
  obtain ⟨henabled, hexec⟩ := Run.restrict_eq_some.1 h
  cases S with
  | created =>
      cases e with
      | start tid =>
          obtain rfl := Option.some.inj hexec
          exact .started (.new tid ⟨func, name⟩) false [] rfl
      | startFails =>
          obtain rfl := Option.some.inj hexec
          exact .failed
      | join =>
          obtain ⟨-, -, th, hth, i, hi, -⟩ := henabled
          obtain rfl := Option.some.inj hth
          exact absurd hi (by simp [Thread.new])
      | joinReturns => exact absurd hexec (by simp [exec, new])
      | destroy =>
          obtain rfl := Option.some.inj hexec
          exact .destroyed [] [] (by simp)
      | run i => exact absurd hexec (by simp [exec, ThreadLife.run, new])
  | failed => cases e <;> simp [Enabled] at henabled
  | started t joined calls hattached =>
      cases e with
      | start tid => exact absurd (horderly _ rfl) (by simp)
      | startFails => exact absurd (horderly _ rfl) (by simp)
      | join =>
          obtain rfl := Option.some.inj hexec
          exact .started t true calls hattached
      | joinReturns =>
          cases joined with
          | false => exact absurd hexec (by simp [exec])
          | true =>
              obtain ⟨-, i, hi, t', ht', hended⟩ := henabled
              obtain rfl : 0 = i := Option.some.inj hi
              obtain rfl : t = t' := Option.some.inj ht'
              obtain rfl := Option.some.inj hexec
              have hstored : stored t = t.tid := by rw [stored, if_neg (by simp [hended])]
              rw [hstored]
              exact .joined { t with attached := false } calls hended rfl
      | destroy =>
          cases joined with
          | false => exact absurd (horderly _ rfl rfl) (by simp)
          | true => exact absurd henabled.2 (by simp)
      | run i => exact stage_run hattached rfl I hexec
  | joined t calls hended hattached =>
      cases e with
      | start tid => exact absurd (horderly _ rfl) (by simp)
      | startFails => exact absurd (horderly _ rfl) (by simp)
      | join =>
          obtain ⟨-, -, th, hth, i, hi, t', ht', hattached'⟩ := henabled
          obtain rfl := Option.some.inj hth
          obtain rfl : 0 = i := Option.some.inj hi
          obtain rfl : t = t' := Option.some.inj ht'
          exact absurd (hattached.symm.trans hattached') (by simp)
      | joinReturns => exact absurd hexec (by simp [exec])
      | destroy =>
          obtain rfl := Option.some.inj hexec
          exact .destroyed [t] calls fun u hu => by
            rw [List.mem_singleton.1 hu]
            exact ⟨hended, hattached⟩
      | run i =>
          obtain ⟨u, hu, hrun⟩ := Option.bind_eq_some_iff.1 hexec
          obtain rfl := List.mem_singleton.1 (List.mem_of_getElem? hu)
          rw [Pthread.next_ended hended] at hrun
          exact absurd hrun (by simp)
  | destroyed threads calls hthreads =>
      cases e with
      | run i =>
          obtain ⟨u, hu, hrun⟩ := Option.bind_eq_some_iff.1 hexec
          rw [Pthread.next_ended (hthreads u (List.mem_of_getElem? hu)).1] at hrun
          exact absurd hrun (by simp)
      | _ => exact absurd hexec (by simp [exec])

/-- **An owner that joins is safe.** If the owner starts once at most and joins what it has started
    before it destroys, then no thread stores its id in an object that is gone; behind `join()` the
    thread has ended and `tid()` is its id; and behind the destructor no thread runs or is left
    unclaimed, and each one that was started has called `func_`. -/
theorem orderly_is_safe {events : List ThreadLifeEvent}
    (horderly : Run.Meets step Orderly (new func name) events)
    (h : Run.run step (new func name) events = some s) :
    s.dangling = false ∧
      (∀ th ∈ s.object, th.joined_ = true → s.joining = none →
        ∀ t ∈ s.threads, t.place = .ended ∧ th.tid_ = t.tid) ∧
      (s.object = none → s.calls = List.replicate s.threads.length func ∧
        ∀ t ∈ s.threads, t.place = .ended ∧ t.attached = false ∧ t.data = none) := by
  have halong : Run.Along step (fun s => Stage func name s ∧ Inv func name s) (new func name) events :=
    Run.Along.of_meets (fun _ _ _ J ho hs => ⟨J.1.step J.2 ho hs, J.2.step hs⟩) (fun _ J => J)
      ⟨.created, inv_new func name⟩ horderly
  obtain ⟨S, I⟩ := Run.along_iff_prefix.1 halong events s List.prefix_rfl h
  cases S with
  | created => exact ⟨rfl, fun th hth hj => by simp_all [new, Thread.new], fun h => absurd h (by simp [new])⟩
  | failed => exact ⟨rfl, fun th hth hj => by simp_all [new, Thread.new], fun h => absurd h (by simp [new])⟩
  | started t joined calls hattached =>
      refine ⟨rfl, fun th hth hj hjoining => ?_, fun h => absurd h (by simp)⟩
      obtain rfl := Option.some.inj hth
      obtain rfl : joined = true := hj
      exact absurd hjoining (by simp)
  | joined t calls hended hattached =>
      refine ⟨rfl, fun th hth _ _ u hu => ?_, fun h => absurd h (by simp)⟩
      obtain rfl := Option.some.inj hth
      obtain rfl := List.mem_singleton.1 hu
      exact ⟨hended, rfl⟩
  | destroyed threads calls hthreads =>
      refine ⟨rfl, fun th hth => absurd hth (by simp), fun _ => ⟨?_, fun t ht => ?_⟩⟩
      · have hcalls := I.calls
        have hall : threads.countP (fun t => t.place.called) = threads.length := by
          rw [List.countP_eq_length]
          intro t ht
          rw [(hthreads t ht).1]
          rfl
        rwa [hall] at hcalls
      · have hdata := (I.threads t ht).data
        rw [if_pos (hthreads t ht).1] at hdata
        exact ⟨(hthreads t ht).1, (hthreads t ht).2, hdata⟩

/-- The thread runs while the owner waits. -/
theorem orderly_is_safe_join : ∃ s : ThreadLife ℕ,
    Run.run step (new 5 "io") [.start 71, .run 0, .join, .run 0, .run 0, .run 0, .run 0, .run 0,
      .joinReturns, .destroy] = some s ∧ s.dangling = false ∧ s.calls = [5] := by
  have hrun : ((Run.run step (new 5 "io") [.start 71, .run 0, .join, .run 0, .run 0, .run 0, .run 0,
      .run 0, .joinReturns, .destroy]).map fun s => (s.object.isNone, s.threads.length)) =
        some (true, 1) := by decide +kernel
  obtain ⟨s, hs, hs'⟩ := Option.map_eq_some_iff.1 hrun
  obtain ⟨hobject, hlength⟩ := Prod.mk.inj hs'
  obtain ⟨hdangling, -, hend⟩ := orderly_is_safe (by decide +kernel) hs
  obtain ⟨hcalls, -⟩ := hend (Option.isNone_iff_eq_none.1 hobject)
  rw [hlength] at hcalls
  exact ⟨s, hs, hdangling, hcalls⟩

/-! ## An owner that does not -/

/-- A join or a detach moves no thread. -/
theorem storing_release {i : ℕ} {u : Pthread φ} (h : ∀ t ∈ s.threads, t.place ≠ .storing)
    (hu : u ∈ (s.release i).threads) : u.place ≠ .storing := by
  have hmodify : (s.release i).threads = s.threads.modify i fun t => { t with attached := false } :=
    rfl
  rw [hmodify, List.modify_eq_set_getElem?] at hu
  cases hi : s.threads[i]? with
  | none =>
      rw [hi] at hu
      exact h u hu
  | some t =>
      rw [hi] at hu
      rcases List.mem_or_eq_of_mem_set hu with hu | rfl
      · exact h u hu
      · exact h t (List.mem_of_getElem? hi)

/-- What is safe stays safe: the object is gone, and all threads have stored their ids. -/
theorem no_store_run {es : List ThreadLifeEvent} (I : Inv func name s)
    (hs : s.object = none ∧ s.dangling = false ∧ ∀ t ∈ s.threads, t.place ≠ .storing)
    (h : Run.run step s es = some s') : s'.dangling = false := by
  have hinv := Run.inv_run
    (I := fun s : ThreadLife φ => Inv func name s ∧ s.object = none ∧ s.dangling = false ∧
      ∀ t ∈ s.threads, t.place ≠ .storing) ?_ ⟨I, hs⟩ h
  · exact hinv.2.2.1
  rintro s e s' ⟨I, hobject, hdangling, hplaces⟩ hstep
  refine ⟨I.step hstep, ?_⟩
  obtain ⟨-, hexec⟩ := Run.restrict_eq_some.1 hstep
  cases e with
  | run i =>
      obtain ⟨t, ht, hrun⟩ := Option.bind_eq_some_iff.1 hexec
      have hmem := List.mem_of_getElem? ht
      have hended : t.place ≠ .ended := by
        intro hended
        rw [Pthread.next_ended hended] at hrun
        exact absurd hrun (by simp)
      obtain ⟨t', hnext, hplace', -⟩ := (I.threads t hmem).next hended
      rw [hnext] at hrun
      obtain rfl := Option.some.inj hrun
      refine ⟨?_, ?_, fun u hu => ?_⟩
      · simp [hobject, hplaces t hmem]
      · simp [hdangling, hplaces t hmem]
      · rcases List.mem_or_eq_of_mem_set hu with hu | rfl
        · exact hplaces u hu
        · rw [hplace']
          cases t.place <;> decide
  | joinReturns =>
      obtain ⟨i, -, rfl⟩ := Option.map_eq_some_iff.1 hexec
      exact ⟨hobject, hdangling, fun u hu => storing_release hplaces hu⟩
  | _ =>
      rw [exec, hobject] at hexec
      exact absurd hexec (by simp)

/-- **When the destructor comes too early.** The object is gone: a thread may still store its id in
    it exactly if one has not done so yet. -/
theorem dangling_iff {events : List ThreadLifeEvent}
    (h : Run.run step (new func name) events = some s) (ha : s.aborted = false)
    (hobject : s.object = none) (hdangling : s.dangling = false) :
    Run.CanReach step (fun s' => s'.dangling = true) s ↔ ∃ t ∈ s.threads, t.place = .storing := by
  have I := inv_run h
  constructor
  · rintro ⟨es, s', hrun, hs'⟩
    by_contra hnone
    push Not at hnone
    have hsafe := no_store_run I ⟨hobject, hdangling, hnone⟩ hrun
    exact absurd (hsafe.symm.trans hs') (by simp)
  · rintro ⟨t, ht, hstoring⟩
    obtain ⟨i, hi⟩ := List.getElem?_of_mem ht
    obtain ⟨t', -, hrun⟩ := I.run_eq hi (by simp [hstoring])
    refine .cons (e := .run i) (Run.restrict_eq_some.2 ⟨ha, hrun⟩) (.of_self ?_)
    simp [hstoring, hobject]

/-- The destructor, before the first statement of the thread. -/
theorem dangling_iff_early : ∃ s : ThreadLife ℕ,
    Run.run step (new 5 "io") [.start 71, .destroy] = some s ∧
      Run.CanReach step (fun s' => s'.dangling = true) s := by
  have hrun : ((Run.run step (new 5 "io") [.start 71, .destroy]).map fun s =>
      (s.aborted, s.object.isNone, s.dangling, s.threads.any (·.place = .storing))) =
        some (false, true, false, true) := by decide +kernel
  obtain ⟨s, hs, hs'⟩ := Option.map_eq_some_iff.1 hrun
  simp only [Prod.mk.injEq, Option.isNone_iff_eq_none, List.any_eq_true, decide_eq_true_eq] at hs'
  obtain ⟨ha, hobject, hdangling, hstoring⟩ := hs'
  exact ⟨s, hs, (dangling_iff hs ha hobject hdangling).2 hstoring⟩

end ThreadLife

end WwjMuduo
