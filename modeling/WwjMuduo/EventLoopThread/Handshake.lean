import WwjMuduo.EventLoopThread
import WwjMuduo.Mutex

set_option autoImplicit false

/-! # The handshake of startLoop

`EventLoopThread.lean` has the owner wait until `loop_` is set, in one step. Here the two threads run
the code: `startLoop` takes `mutex_`, tests `loop_`, sleeps on `cond_` while it is null and reads it
again behind the critical section; `threadFunc` takes the mutex, sets `loop_`, notifies, and releases.
Every statement is a step of its own, `MutexLock::lock` and `unlock` have two, and a sleeper may wake
for no reason.

The one step is right: what the code does is what `EventLoopThread.lean` says (`refines`), and in
whatever order the threads run, `startLoop` returns (`completes`). -/

namespace WwjMuduo

/-- The two threads that take the mutex. -/
inductive Party where
  | owner
  | thread
  deriving DecidableEq

/-- Where the owner is in `startLoop`, behind `thread_.start()`. -/
inductive OwnerAt where
  /-- not in it -/
  | outside
  /-- before `pthread_mutex_lock` -/
  | locking
  /-- before `holder_=CurrentThread::tid()` -/
  | recording
  /-- before `while (loop_ == NULL)` -/
  | testing
  /-- before `cond_.wait()` -/
  | sleeping
  /-- in `pthread_cond_wait` -/
  | waiting
  /-- before `holder_=0` -/
  | clearing
  /-- before `pthread_mutex_unlock` -/
  | unlocking
  /-- before `return loop_` -/
  | returning
  deriving DecidableEq

/-- Where the thread is in the critical section of `threadFunc`. -/
inductive ThreadAt where
  /-- before it -/
  | outside
  /-- before `pthread_mutex_lock` -/
  | locking
  /-- before `holder_=CurrentThread::tid()` -/
  | recording
  /-- before `loop_ = &loop` -/
  | assigning
  /-- before `cond_.notify()` -/
  | notifying
  /-- before `holder_=0` -/
  | clearing
  /-- before `pthread_mutex_unlock` -/
  | unlocking
  /-- behind it -/
  | passed
  deriving DecidableEq

/-- The owner holds the mutex. -/
def OwnerAt.inside : OwnerAt → Bool
  | .recording | .testing | .sleeping | .clearing | .unlocking => true
  | _ => false

/-- The owner has found `loop_` set. -/
def OwnerAt.seen : OwnerAt → Bool
  | .clearing | .unlocking | .returning => true
  | _ => false

/-- The thread holds the mutex. -/
def ThreadAt.inside : ThreadAt → Bool
  | .recording | .assigning | .notifying | .clearing | .unlocking => true
  | _ => false

/-- The place in `threadFunc` that goes with one in its critical section. -/
def ThreadAt.Fits : ThreadAt → ThreadPlace → Prop
  | .outside, place => place = .created ∨ place = .constructing
  | .locking, place | .recording, place | .assigning, place => place = .publishing
  | .notifying, place | .clearing, place | .unlocking, place => place = .ready
  | .passed, place => place = .ready ∨ place = .looping ∨ place = .gone

/-- Where the loop has not been constructed, the thread is before its critical section. -/
theorem ThreadAt.Fits.outside {thread : ThreadAt} {place : ThreadPlace} (h : thread.Fits place)
    (hplace : place = .created ∨ place = .constructing) : thread = .outside := by
  cases thread with
  | outside => rfl
  | _ => rcases hplace with rfl | rfl <;> simp [ThreadAt.Fits] at h

/-- How much is left of `startLoop`, whether `loop_` is set, and whether the owner sleeps. A spurious
    wakeup puts the owner back by three. -/
def OwnerAt.left (loop asleep : Bool) : OwnerAt → ℕ
  | .outside => 0
  | .returning => 1
  | .unlocking => 2
  | .clearing => 3
  | .testing => if loop then 4 else 10
  | .waiting => if asleep then 8 else if loop then 5 else 11
  | .sleeping => 9
  | .recording => 12
  | .locking => 13

/-- How much is left of `threadFunc` up to the end of its critical section. -/
def ThreadAt.left : ThreadAt → ℕ
  | .outside => 7
  | .locking => 6
  | .recording => 5
  | .assigning => 4
  | .notifying => 3
  | .clearing => 2
  | .unlocking => 1
  | .passed => 0

/-- An owner that has not called `startLoop` has all of it before it. -/
def OwnerPlace.left : OwnerPlace → ℕ
  | .created => 13
  | _ => 0

structure Handshake (φ τ : Type*) where
  base : EventLoopThread φ τ
  mutex_ : MutexLock Party
  cond_ : Condition Party
  owner : OwnerAt
  thread : ThreadAt

inductive HandshakeEvent (φ τ : Type*) where
  /-- The next statement of `startLoop`. -/
  | owner
  /-- The next statement of the critical section in `threadFunc`. -/
  | thread
  /-- A spurious wakeup. -/
  | wake
  /-- Anything else. -/
  | on (e : ThreadEvent φ τ)

/-- A statement of the handshake. -/
def HandshakeEvent.isStatement {φ τ : Type*} : HandshakeEvent φ τ → Bool
  | .owner | .thread | .on .construct => true
  | _ => false

def HandshakeEvent.isWake {φ τ : Type*} : HandshakeEvent φ τ → Bool
  | .wake => true
  | _ => false

namespace Handshake

variable {φ τ : Type*}

/-- The constructor. -/
def new : Handshake φ τ :=
  { base := .new
    mutex_ := .new
    cond_ := .new
    owner := .outside
    thread := .outside }

/-- The two steps of `EventLoopThread.lean` that are code here, and `loop.loop()`, which stands behind
    the critical section. -/
def Admits (s : Handshake φ τ) : ThreadEvent φ τ → Prop
  | .publish | .returned => False
  | .loop => s.thread = .passed
  | _ => True

instance (s : Handshake φ τ) (e : ThreadEvent φ τ) : Decidable (s.Admits e) :=
  match e with
  | .publish | .returned => inferInstanceAs (Decidable False)
  | .loop => inferInstanceAs (Decidable (s.thread = .passed))
  | .startLoop | .construct | .on _ | .leave | .destroy | .storeQuit | .isInLoopThread | .wakeup
  | .join => inferInstanceAs (Decidable True)

/-- An event that leads up to a critical section. -/
def enter (s : Handshake φ τ) : ThreadEvent φ τ → Handshake φ τ
  | .startLoop => { s with owner := .locking }
  | .construct => { s with thread := .locking }
  | _ => s

variable [DecidableEq τ]

def ownerStep (s : Handshake φ τ) : Option (Handshake φ τ) :=
  match s.owner with
  | .outside => none
  | .locking => (s.mutex_.pthread_mutex_lock .owner).map fun mutex =>
    { s with mutex_ := mutex, owner := .recording }
  | .recording => some { s with mutex_ := s.mutex_.setHolder .owner, owner := .testing }
  | .testing => some { s with owner := if s.base.loop_ then .clearing else .sleeping }
  | .sleeping => (s.cond_.wait s.mutex_ .owner).map fun (cond, mutex) =>
    { s with cond_ := cond, mutex_ := mutex, owner := .waiting }
  | .waiting => (s.cond_.resume s.mutex_ .owner).map fun mutex =>
    { s with mutex_ := mutex, owner := .testing }
  | .clearing => some { s with mutex_ := s.mutex_.clearHolder, owner := .unlocking }
  | .unlocking => (s.mutex_.pthread_mutex_unlock .owner).map fun mutex =>
    { s with mutex_ := mutex, owner := .returning }
  | .returning => some { s with base := s.base.exec .returned, owner := .outside }

def threadStep (s : Handshake φ τ) : Option (Handshake φ τ) :=
  match s.thread with
  | .outside | .passed => none
  | .locking => (s.mutex_.pthread_mutex_lock .thread).map fun mutex =>
    { s with mutex_ := mutex, thread := .recording }
  | .recording => some { s with mutex_ := s.mutex_.setHolder .thread, thread := .assigning }
  | .assigning => some { s with base := s.base.exec .publish, thread := .notifying }
  | .notifying => (s.cond_.notify .owner).map fun cond => { s with cond_ := cond, thread := .clearing }
  | .clearing => some { s with mutex_ := s.mutex_.clearHolder, thread := .unlocking }
  | .unlocking => (s.mutex_.pthread_mutex_unlock .thread).map fun mutex =>
    { s with mutex_ := mutex, thread := .passed }

def step (s : Handshake φ τ) : HandshakeEvent φ τ → Option (Handshake φ τ)
  | .owner => s.ownerStep
  | .thread => s.threadStep
  | .wake => if .owner ∈ s.cond_.pcond_ then some { s with cond_ := s.cond_.wake .owner } else none
  | .on e =>
    if s.Admits e then (s.base.step e).map fun base => { s with base := base }.enter e else none

/-! ## What holds in every state -/

structure Inv (s : Handshake φ τ) : Prop where
  base : s.base.Sound
  /-- While the owner is in `startLoop`, the loop is not being destroyed. -/
  intact : s.base.owner = .starting → s.base.dangling = false
  starting : s.owner ≠ .outside ↔ s.base.owner = .starting
  begun : s.base.owner = .starting → s.base.thread ≠ .created
  fits : s.thread.Fits s.base.thread
  ownerHolds : s.mutex_.mutex_ = some .owner ↔ s.owner.inside = true
  threadHolds : s.mutex_.mutex_ = some .thread ↔ s.thread.inside = true
  seen : s.owner.seen = true → s.base.loop_ = true
  unseen : s.owner = .sleeping → s.base.loop_ = false
  /-- Only the owner sleeps, and not when `loop_` is set, but for the notification to come. -/
  sleeps : s.cond_.pcond_ = [] ∨
    (s.cond_.pcond_ = [.owner] ∧ s.owner = .waiting ∧ (s.base.loop_ = false ∨ s.thread = .notifying))

variable {s s' : Handshake φ τ}

omit [DecidableEq τ] in
theorem inv_new : Inv (new : Handshake φ τ) where
  base := EventLoopThread.sound_new
  intact _ := rfl
  starting := by simp [new, EventLoopThread.new]
  begun h := by simp [new, EventLoopThread.new] at h
  fits := .inl rfl
  ownerHolds := by simp [new, MutexLock.new, OwnerAt.inside]
  threadHolds := by simp [new, MutexLock.new, ThreadAt.inside]
  seen h := by simp [new, OwnerAt.seen] at h
  unseen h := by simp [new] at h
  sleeps := .inl rfl

omit [DecidableEq τ] in
/-- **Mutual exclusion.** -/
theorem Inv.exclusive (I : Inv s) : ¬(s.owner.inside = true ∧ s.thread.inside = true) := by
  rintro ⟨howner, hthread⟩
  have h := (I.ownerHolds.2 howner).symm.trans (I.threadHolds.2 hthread)
  exact absurd h (by simp)

omit [DecidableEq τ] in
theorem Inv.outside_of_created (I : Inv s) (hcreated : s.base.owner = .created) :
    s.owner = .outside := by
  by_contra hne
  exact absurd (I.starting.1 hne) (by simp [hcreated])

omit [DecidableEq τ] in
/-- The state of the two threads and of `loop_` is changed together with that of the object. -/
theorem Inv.withBase (I : Inv s) {base : EventLoopThread φ τ} (hsound : base.Sound)
    (hloop : base.loop_ = s.base.loop_) (howner : base.owner = .starting ↔ s.base.owner = .starting)
    (hintact : base.owner = .starting → base.dangling = false)
    (hbegun : base.owner = .starting → base.thread ≠ .created)
    (hfits : s.thread.Fits base.thread) : Inv { s with base := base } where
  base := hsound
  intact := hintact
  starting := I.starting.trans howner.symm
  begun := hbegun
  fits := hfits
  ownerHolds := I.ownerHolds
  threadHolds := I.threadHolds
  seen h := hloop.trans (I.seen h)
  unseen h := hloop.trans (I.unseen h)
  sleeps := I.sleeps.imp_right fun h => ⟨h.1, h.2.1, h.2.2.imp_left hloop.trans⟩

/-! ## The other events -/

/-- What an event of the object that is neither code here nor leads up to it changes. -/
structure Passes (e : ThreadEvent φ τ) (b b' : EventLoopThread φ τ) : Prop where
  loop_ : b'.loop_ = b.loop_
  owner : b'.owner = .starting ↔ b.owner = .starting
  created : b'.owner = .created → b.owner = .created
  intact : b.owner = .starting → b'.dangling = false
  thread : b'.thread = b.thread ∨ (e = .loop ∧ b.thread = .ready ∧ b'.thread = .looping) ∨
    (b.thread = .looping ∧ b'.thread = .gone)

omit [DecidableEq τ] in
/-- A step of the destructor comes behind `startLoop`. -/
theorem passes_destructor {e : ThreadEvent φ τ} {b : EventLoopThread φ τ} {owner : OwnerPlace}
    {loop : Loop φ (Caller τ)} {stopped : Bool} (hb : b.owner ≠ .starting)
    (howner : owner ≠ .starting ∧ owner ≠ .created) :
    Passes e b (b.through { b with owner := owner, loop := loop, stopped := stopped }) :=
  EventLoopThread.through_ind ⟨rfl, Iff.rfl, id, fun h => absurd h hb, .inl rfl⟩ fun _ =>
    ⟨rfl, by simp [hb, howner.1], fun h => absurd h howner.2, fun h => absurd h hb, .inl rfl⟩

theorem passes_of_step {b b' : EventLoopThread φ τ} {e : ThreadEvent φ τ} (h : b.step e = some b')
    (he : e ≠ .startLoop ∧ e ≠ .construct ∧ e ≠ .publish ∧ e ≠ .returned) : Passes e b b' := by
  obtain ⟨⟨hdangling, henabled⟩, rfl⟩ := EventLoopThread.step_eq_some.1 h
  cases e with
  | startLoop => exact absurd rfl he.1
  | construct => exact absurd rfl he.2.1
  | publish => exact absurd rfl he.2.2.1
  | returned => exact absurd rfl he.2.2.2
  | loop => exact ⟨rfl, Iff.rfl, id, fun _ => hdangling, .inr (.inl ⟨rfl, henabled.1, rfl⟩)⟩
  | on e => exact ⟨rfl, Iff.rfl, id, fun _ => hdangling, .inl rfl⟩
  | leave => exact ⟨rfl, Iff.rfl, id, fun _ => hdangling, .inr (.inr ⟨henabled.1, rfl⟩)⟩
  | destroy =>
      have hne : b.owner ≠ .starting := by
        rcases henabled with h | h
        · simp [h]
        · simp [h.1]
      exact ⟨rfl, by simp [EventLoopThread.exec, hne], fun h => by simp [EventLoopThread.exec] at h,
        fun h => absurd h hne, .inl rfl⟩
  | storeQuit =>
      have howner : b.owner = .storing := henabled
      exact passes_destructor (by simp [howner]) (by simp)
  | isInLoopThread =>
      have howner : b.owner = .testing := henabled
      exact passes_destructor (by simp [howner]) (by simp)
  | wakeup =>
      have howner : b.owner = .waking := henabled
      exact passes_destructor (by simp [howner]) (by simp)
  | join =>
      have hne : b.owner ≠ .starting := by simp [henabled.1]
      exact ⟨rfl, by simp [EventLoopThread.exec, hne], fun h => by simp [EventLoopThread.exec] at h,
        fun h => absurd h hne, .inl rfl⟩

omit [DecidableEq τ] in
/-- The thread gets to `loop.loop()` and behind it only past the critical section. -/
theorem Passes.fits {b b' : EventLoopThread φ τ} {e : ThreadEvent φ τ} (P : Passes e b b')
    {thread : ThreadAt} (hfits : thread.Fits b.thread) (hloop : e = .loop → thread = .passed) :
    thread.Fits b'.thread := by
  rcases P.thread with h | ⟨he, -, h⟩ | ⟨hb, h⟩
  · rw [h]
    exact hfits
  · rw [hloop he, h]
    exact .inr (.inl rfl)
  · rw [hb] at hfits
    cases thread with
    | passed =>
        rw [h]
        exact .inr (.inr rfl)
    | _ => simp [ThreadAt.Fits] at hfits

omit [DecidableEq τ] in
theorem enter_of_passes {e : ThreadEvent φ τ} (he : e ≠ .startLoop ∧ e ≠ .construct ∧ e ≠ .publish ∧
    e ≠ .returned) : s.enter e = s := by
  cases e with
  | startLoop => exact absurd rfl he.1
  | construct => exact absurd rfl he.2.1
  | _ => rfl

theorem Inv.on (I : Inv s) {e : ThreadEvent φ τ} (hadmits : s.Admits e) {base : EventLoopThread φ τ}
    (h : s.base.step e = some base) : Inv ({ s with base := base }.enter e) := by
  have hsound := I.base.step h
  by_cases hother : e ≠ .startLoop ∧ e ≠ .construct ∧ e ≠ .publish ∧ e ≠ .returned
  · have P := passes_of_step h hother
    have hpassed : e = .loop → s.thread = .passed := by
      rintro rfl
      exact hadmits
    rw [enter_of_passes hother]
    have hbegun : base.owner = .starting → base.thread ≠ .created := by
      intro howner
      have hthread := I.begun (P.owner.1 howner)
      rcases P.thread with h | ⟨-, -, h⟩ | ⟨-, h⟩
      · rwa [h]
      · simp [h]
      · simp [h]
    exact I.withBase hsound P.loop_ P.owner (fun h => P.intact (P.owner.1 h)) hbegun
      (P.fits I.fits hpassed)
  · obtain ⟨⟨hdangling, henabled⟩, rfl⟩ := EventLoopThread.step_eq_some.1 h
    cases e with
    | startLoop =>
        have hcreated : s.base.owner = .created := henabled
        have hthreadAt := I.fits.outside (.inl (I.base.created hcreated))
        have hholds := I.ownerHolds
        have hsleeps := I.sleeps
        rw [I.outside_of_created hcreated] at hholds hsleeps
        refine ⟨hsound, fun _ => hdangling, by simp [enter, EventLoopThread.exec],
          fun _ => by simp [enter, EventLoopThread.exec], ?_, hholds,
          I.threadHolds, fun h => by simp [enter, OwnerAt.seen] at h, fun h => by simp [enter] at h, ?_⟩
        · simp [enter, hthreadAt, ThreadAt.Fits, EventLoopThread.exec]
        · exact .inl (hsleeps.resolve_right (by simp))
    | construct =>
        have hthreadAt := I.fits.outside (.inr henabled)
        have hholds := I.threadHolds
        have hsleeps := I.sleeps
        rw [hthreadAt] at hholds hsleeps
        refine ⟨hsound, I.intact, I.starting, fun _ => by simp [enter, EventLoopThread.exec], rfl,
          I.ownerHolds, hholds, I.seen, I.unseen, ?_⟩
        exact hsleeps.imp_right fun h => ⟨h.1, h.2.1, h.2.2.imp_right (by simp)⟩
    | publish => exact absurd hadmits id
    | returned => exact absurd hadmits id
    | _ => exact absurd ⟨by simp, by simp, by simp, by simp⟩ hother

/-! ## The two critical sections -/

/-- The return finds what `EventLoopThread.lean` has it wait for. -/
theorem Inv.returned (I : Inv s) (hat : s.owner = .returning) :
    s.base.step .returned = some (s.base.exec .returned) := by
  have hstarting := I.starting.1 (by simp [hat])
  have hloop := I.seen (by rw [hat]; rfl)
  exact EventLoopThread.step_eq_some.2 ⟨⟨I.intact hstarting, hstarting, hloop⟩, rfl⟩

/-- When `loop_` is assigned, the owner is in `startLoop`. -/
theorem Inv.publish (I : Inv s) (hat : s.thread = .assigning) :
    s.base.step .publish = some (s.base.exec .publish) := by
  have hpublishing := I.fits
  rw [hat] at hpublishing
  have hstarting := I.base.waiting (.inr hpublishing)
  exact EventLoopThread.step_eq_some.2 ⟨⟨I.intact hstarting, hpublishing⟩, rfl⟩

omit [DecidableEq τ] in
/-- Nobody sleeps unless the owner is in `pthread_cond_wait`. -/
theorem Inv.awake (I : Inv s) (h : s.owner ≠ .waiting ∨ .owner ∉ s.cond_.pcond_) :
    s.cond_.pcond_ = [] := by
  refine I.sleeps.resolve_right ?_
  rintro ⟨hpcond, howner, -⟩
  rcases h with h | h
  · exact h howner
  · exact h (by simp [hpcond])

omit [DecidableEq τ] in
/-- The owner goes on inside `startLoop`, with nobody asleep. -/
theorem Inv.moveOwner (I : Inv s) {owner : OwnerAt} {mutex : MutexLock Party}
    (hin : s.owner ≠ .outside) (howner : owner ≠ .outside)
    (hholds : mutex.mutex_ = some .owner ↔ owner.inside = true)
    (hthread : mutex.mutex_ = some .thread ↔ s.mutex_.mutex_ = some .thread)
    (hseen : owner.seen = true → s.base.loop_ = true)
    (hunseen : owner = .sleeping → s.base.loop_ = false) (hawake : s.cond_.pcond_ = []) :
    Inv { s with mutex_ := mutex, owner := owner } where
  base := I.base
  intact := I.intact
  starting := ⟨fun _ => I.starting.1 hin, fun _ => howner⟩
  begun := I.begun
  fits := I.fits
  ownerHolds := hholds
  threadHolds := hthread.trans I.threadHolds
  seen := hseen
  unseen := hunseen
  sleeps := .inl hawake

theorem Inv.ownerStep (I : Inv s) (h : s.ownerStep = some s') : Inv s' := by
  have hholds := I.ownerHolds
  have hthread := I.threadHolds
  unfold Handshake.ownerStep at h
  cases hat : s.owner with
  | outside =>
      rw [hat] at h
      exact absurd h (by simp)
  | locking =>
      rw [hat] at h
      obtain ⟨mutex, hmutex, rfl⟩ := Option.map_eq_some_iff.1 h
      obtain ⟨hfree, rfl⟩ := MutexLock.lock_eq_some.1 hmutex
      exact I.moveOwner (by simp [hat]) (by simp) (by simp [OwnerAt.inside]) (by simp [hfree])
        (by simp [OwnerAt.seen]) (by simp) (I.awake (.inl (by simp [hat])))
  | recording =>
      rw [hat] at h hholds
      obtain rfl := Option.some.inj h
      exact I.moveOwner (by simp [hat]) (by simp) hholds Iff.rfl (by simp [OwnerAt.seen]) (by simp)
        (I.awake (.inl (by simp [hat])))
  | testing =>
      rw [hat] at h hholds
      obtain rfl := Option.some.inj h
      have hawake := I.awake (.inl (by simp [hat]))
      cases hloop : s.base.loop_ with
      | true =>
          exact I.moveOwner (by simp [hat]) (by simp) hholds Iff.rfl (fun _ => hloop) (by simp) hawake
      | false =>
          exact I.moveOwner (by simp [hat]) (by simp) hholds Iff.rfl (by simp [OwnerAt.seen])
            (fun _ => hloop) hawake
  | sleeping =>
      rw [hat] at h
      obtain ⟨⟨cond, mutex⟩, hwait, rfl⟩ := Option.map_eq_some_iff.1 h
      obtain ⟨hheld, rfl, rfl⟩ := Condition.wait_eq_some.1 hwait
      have hawake := I.awake (.inl (by simp [hat]))
      rw [hheld] at hthread
      refine ⟨I.base, I.intact, ⟨fun _ => I.starting.1 (by simp [hat]), fun _ => by simp⟩, I.begun,
        I.fits,
        by simp [OwnerAt.inside], ?_, by simp [OwnerAt.seen], by simp, .inr ?_⟩
      · simpa using hthread
      · exact ⟨by simp [hawake], rfl, .inl (I.unseen hat)⟩
  | waiting =>
      rw [hat] at h
      obtain ⟨mutex, hmutex, rfl⟩ := Option.map_eq_some_iff.1 h
      obtain ⟨hwoken, hfree, rfl⟩ := Condition.resume_eq_some.1 hmutex
      exact I.moveOwner (by simp [hat]) (by simp) (by simp [OwnerAt.inside]) (by simp [hfree])
        (by simp [OwnerAt.seen]) (by simp) (I.awake (.inr hwoken))
  | clearing =>
      rw [hat] at h hholds
      obtain rfl := Option.some.inj h
      exact I.moveOwner (by simp [hat]) (by simp) hholds Iff.rfl
        (fun _ => I.seen (by rw [hat]; rfl)) (by simp) (I.awake (.inl (by simp [hat])))
  | unlocking =>
      rw [hat] at h
      obtain ⟨mutex, hmutex, rfl⟩ := Option.map_eq_some_iff.1 h
      obtain ⟨hheld, rfl⟩ := MutexLock.unlock_eq_some.1 hmutex
      exact I.moveOwner (by simp [hat]) (by simp) (by simp [OwnerAt.inside]) (by simp [hheld])
        (fun _ => I.seen (by rw [hat]; rfl)) (by simp) (I.awake (.inl (by simp [hat])))
  | returning =>
      rw [hat] at h hholds
      obtain rfl := Option.some.inj h
      exact ⟨I.base.step (I.returned hat), fun h => by simp [EventLoopThread.exec] at h,
        by simp [EventLoopThread.exec], fun h => by simp [EventLoopThread.exec] at h, I.fits, hholds,
        hthread, by simp [OwnerAt.seen], by simp, .inl (I.awake (.inl (by simp [hat])))⟩

omit [DecidableEq τ] in
/-- The thread goes on inside its critical section, or into it or out of it. -/
theorem Inv.moveThread (I : Inv s) {thread : ThreadAt} {mutex : MutexLock Party}
    (hfits : thread.Fits s.base.thread) (hholds : mutex.mutex_ = some .thread ↔ thread.inside = true)
    (howner : mutex.mutex_ = some .owner ↔ s.mutex_.mutex_ = some .owner)
    (hat : s.thread ≠ .notifying) : Inv { s with mutex_ := mutex, thread := thread } where
  base := I.base
  intact := I.intact
  starting := I.starting
  begun := I.begun
  fits := hfits
  ownerHolds := howner.trans I.ownerHolds
  threadHolds := hholds
  seen := I.seen
  unseen := I.unseen
  sleeps := I.sleeps.imp_right fun h => ⟨h.1, h.2.1, .inl (h.2.2.resolve_right hat)⟩

theorem Inv.threadStep (I : Inv s) (h : s.threadStep = some s') : Inv s' := by
  have hholds := I.threadHolds
  have hfits := I.fits
  unfold Handshake.threadStep at h
  cases hat : s.thread with
  | outside =>
      rw [hat] at h
      exact absurd h (by simp)
  | passed =>
      rw [hat] at h
      exact absurd h (by simp)
  | locking =>
      rw [hat] at h hfits
      obtain ⟨mutex, hmutex, rfl⟩ := Option.map_eq_some_iff.1 h
      obtain ⟨hfree, rfl⟩ := MutexLock.lock_eq_some.1 hmutex
      exact I.moveThread hfits (by simp [ThreadAt.inside]) (by simp [hfree]) (by simp [hat])
  | recording =>
      rw [hat] at h hfits hholds
      obtain rfl := Option.some.inj h
      exact I.moveThread hfits hholds Iff.rfl (by simp [hat])
  | assigning =>
      rw [hat] at h hholds
      obtain rfl := Option.some.inj h
      obtain ⟨⟨hdangling, -⟩, -⟩ := EventLoopThread.step_eq_some.1 (I.publish hat)
      -- The owner cannot be between its test and its sleep, for it does not hold the mutex.
      have hnot : s.owner ≠ .sleeping := fun h =>
        I.exclusive ⟨by rw [h]; rfl, by rw [hat]; rfl⟩
      exact ⟨I.base.step (I.publish hat), fun _ => hdangling, I.starting,
        fun _ => by simp [EventLoopThread.exec], rfl, I.ownerHolds, hholds, fun _ => rfl,
        fun h => absurd h hnot, I.sleeps.imp_right fun h => ⟨h.1, h.2.1, .inr rfl⟩⟩
  | notifying =>
      rw [hat] at h hfits hholds
      obtain ⟨cond, hcond, rfl⟩ := Option.map_eq_some_iff.1 h
      have hnone : cond.pcond_ = [] := by
        unfold Condition.notify at hcond
        rcases I.sleeps with hpcond | ⟨hpcond, -⟩
        · rw [if_pos hpcond] at hcond
          rw [← Option.some.inj hcond, hpcond]
        · rw [hpcond] at hcond
          rw [← Option.some.inj hcond, Condition.wake, hpcond]
          rfl
      exact ⟨I.base, I.intact, I.starting, I.begun, hfits, I.ownerHolds, hholds, I.seen, I.unseen,
        .inl hnone⟩
  | clearing =>
      rw [hat] at h hfits hholds
      obtain rfl := Option.some.inj h
      exact I.moveThread hfits hholds Iff.rfl (by simp [hat])
  | unlocking =>
      rw [hat] at h hfits
      obtain ⟨mutex, hmutex, rfl⟩ := Option.map_eq_some_iff.1 h
      obtain ⟨hheld, rfl⟩ := MutexLock.unlock_eq_some.1 hmutex
      exact I.moveThread (.inl hfits) (by simp [ThreadAt.inside]) (by simp [hheld]) (by simp [hat])

/-- **One step keeps the invariant.** -/
theorem Inv.step (I : Inv s) {e : HandshakeEvent φ τ} (h : s.step e = some s') : Inv s' := by
  cases e with
  | owner => exact I.ownerStep h
  | thread => exact I.threadStep h
  | wake =>
      simp only [Handshake.step] at h
      split at h
      · obtain rfl := Option.some.inj h
        refine ⟨I.base, I.intact, I.starting, I.begun, I.fits, I.ownerHolds, I.threadHolds, I.seen,
          I.unseen, .inl ?_⟩
        rcases I.sleeps with hpcond | ⟨hpcond, -⟩
        · simp [Condition.wake, hpcond]
        · simp [Condition.wake, hpcond]
      · exact absurd h (by simp)
  | on e =>
      simp only [Handshake.step] at h
      split at h
      · next hadmits =>
          obtain ⟨base, hbase, rfl⟩ := Option.map_eq_some_iff.1 h
          exact I.on hadmits hbase
      · exact absurd h (by simp)

/-! ## Refinement -/

/-- The steps of `EventLoopThread.lean` that a statement amounts to: none, but for the assignment of
    `loop_` and the return. -/
def abstractly (s : Handshake φ τ) : HandshakeEvent φ τ → List (ThreadEvent φ τ)
  | .owner => if s.owner = .returning then [.returned] else []
  | .thread => if s.thread = .assigning then [.publish] else []
  | .wake => []
  | .on e => [e]

theorem Inv.run_abstractly (I : Inv s) {e : HandshakeEvent φ τ} (h : s.step e = some s') :
    Run.run EventLoopThread.step s.base (s.abstractly e) = some s'.base := by
  cases e with
  | owner =>
      simp only [Handshake.step, Handshake.ownerStep] at h
      simp only [abstractly]
      cases hat : s.owner with
      | returning =>
          rw [hat] at h
          obtain rfl := Option.some.inj h
          exact Run.run_singleton.trans (I.returned hat)
      | outside =>
          rw [hat] at h
          exact absurd h (by simp)
      | recording =>
          rw [hat] at h
          obtain rfl := Option.some.inj h
          rfl
      | testing =>
          rw [hat] at h
          obtain rfl := Option.some.inj h
          rfl
      | clearing =>
          rw [hat] at h
          obtain rfl := Option.some.inj h
          rfl
      | _ =>
          rw [hat] at h
          obtain ⟨x, -, rfl⟩ := Option.map_eq_some_iff.1 h
          rfl
  | thread =>
      simp only [Handshake.step, Handshake.threadStep] at h
      simp only [abstractly]
      cases hat : s.thread with
      | assigning =>
          rw [hat] at h
          obtain rfl := Option.some.inj h
          exact Run.run_singleton.trans (I.publish hat)
      | outside =>
          rw [hat] at h
          exact absurd h (by simp)
      | passed =>
          rw [hat] at h
          exact absurd h (by simp)
      | recording =>
          rw [hat] at h
          obtain rfl := Option.some.inj h
          rfl
      | clearing =>
          rw [hat] at h
          obtain rfl := Option.some.inj h
          rfl
      | _ =>
          rw [hat] at h
          obtain ⟨x, -, rfl⟩ := Option.map_eq_some_iff.1 h
          rfl
  | wake =>
      simp only [Handshake.step] at h
      split at h
      · obtain rfl := Option.some.inj h
        rfl
      · exact absurd h (by simp)
  | on e =>
      simp only [Handshake.step] at h
      split at h
      · obtain ⟨base, hbase, rfl⟩ := Option.map_eq_some_iff.1 h
        refine Run.run_singleton.trans (hbase.trans ?_)
        cases e <;> rfl
      · exact absurd h (by simp)

/-- **The handshake is one step.** In every state of every run of the statements, in any order and
    with any spurious wakeups, the object is in the state that the steps of `EventLoopThread.lean` lead
    to, the critical sections exclude each other, and the owner goes to sleep only while `loop_` is
    null. -/
theorem refines (events : List (HandshakeEvent φ τ)) :
    (∀ s : Handshake φ τ, Run.run step new events = some s →
      Run.run EventLoopThread.step .new (Run.image step abstractly new events) = some s.base) ∧
    Run.Along step (fun s : Handshake φ τ =>
      ¬(s.owner.inside = true ∧ s.thread.inside = true) ∧
        (s.owner = .sleeping → s.base.loop_ = false)) new events := by
  have hinv : ∀ s e s', Inv s → step s e = some s' → Inv (s' : Handshake φ τ) :=
    fun _ _ _ I h => I.step h
  constructor
  · intro s hrun
    exact Run.run_image (f := Handshake.base) hinv (fun _ _ _ I h => I.run_abstractly h) inv_new hrun
  · exact Run.Along.of_inv hinv (fun _ I => ⟨I.exclusive, I.unseen⟩) inv_new events

/-- The owner sleeps until the thread has set `loop_`. -/
theorem refines_after_sleep :
    let events : List (HandshakeEvent Unit Unit) :=
      [.on .startLoop, .owner, .owner, .owner, .owner, .on .construct, .thread, .thread, .thread,
        .thread, .thread, .thread, .owner, .owner, .owner, .owner, .owner]
    ∃ s, Run.run step new events = some s ∧
      Run.image step abstractly new events = [.startLoop, .construct, .publish, .returned] ∧
      Run.run EventLoopThread.step .new (Run.image step abstractly new events) = some s.base := by
  intro events
  exact ⟨_, rfl, rfl, (refines events).1 _ rfl⟩

/-! ## Completion -/

/-- What is left of the handshake. -/
def left (s : Handshake φ τ) : ℕ :=
  s.owner.left s.base.loop_ (s.cond_.pcond_.contains .owner) + s.thread.left + s.base.owner.left

omit [DecidableEq τ] in
/-- Setting `loop_` brings the owner no further from its end. -/
theorem left_true_le (loop asleep : Bool) (owner : OwnerAt) :
    owner.left true asleep ≤ owner.left loop asleep := by
  cases owner <;> cases loop <;> cases asleep <;> decide

theorem left_ownerStep (I : Inv s) (h : s.ownerStep = some s') : s'.left + 1 ≤ s.left := by
  unfold ownerStep at h
  cases hat : s.owner with
  | outside =>
      rw [hat] at h
      exact absurd h (by simp)
  | locking =>
      rw [hat] at h
      obtain ⟨mutex, -, rfl⟩ := Option.map_eq_some_iff.1 h
      simp only [left, hat, OwnerAt.left]
      omega
  | recording =>
      rw [hat] at h
      obtain rfl := Option.some.inj h
      simp only [left, hat, OwnerAt.left]
      split <;> omega
  | testing =>
      rw [hat] at h
      obtain rfl := Option.some.inj h
      cases hloop : s.base.loop_ <;>
        simp only [left, hat, hloop, OwnerAt.left, if_true, Bool.false_eq_true, if_false] <;> omega
  | sleeping =>
      rw [hat] at h
      obtain ⟨⟨cond, mutex⟩, hwait, rfl⟩ := Option.map_eq_some_iff.1 h
      obtain ⟨-, -, rfl⟩ := Condition.wait_eq_some.1 hwait
      have hasleep : (s.cond_.pcond_ ++ [Party.owner]).contains Party.owner = true := by simp
      simp only [left, hat, OwnerAt.left, hasleep, if_true]
      omega
  | waiting =>
      rw [hat] at h
      obtain ⟨mutex, hmutex, rfl⟩ := Option.map_eq_some_iff.1 h
      obtain ⟨hwoken, -, -⟩ := Condition.resume_eq_some.1 hmutex
      have hawake : s.cond_.pcond_.contains Party.owner = false := by simpa using hwoken
      simp only [left, hat, OwnerAt.left, hawake, Bool.false_eq_true, if_false]
      cases hloop : s.base.loop_ <;> simp only [if_true, Bool.false_eq_true, if_false] <;> omega
  | clearing =>
      rw [hat] at h
      obtain rfl := Option.some.inj h
      simp only [left, hat, OwnerAt.left]
      omega
  | unlocking =>
      rw [hat] at h
      obtain ⟨mutex, -, rfl⟩ := Option.map_eq_some_iff.1 h
      simp only [left, hat, OwnerAt.left]
      omega
  | returning =>
      rw [hat] at h
      obtain rfl := Option.some.inj h
      have hstarting := I.starting.1 (by simp [hat])
      simp only [left, hat, hstarting, OwnerAt.left, OwnerPlace.left, EventLoopThread.exec]
      omega

theorem left_threadStep (I : Inv s) (h : s.threadStep = some s') : s'.left + 1 ≤ s.left := by
  have hfits := I.fits
  unfold threadStep at h
  cases hat : s.thread with
  | outside =>
      rw [hat] at h
      exact absurd h (by simp)
  | passed =>
      rw [hat] at h
      exact absurd h (by simp)
  | locking =>
      rw [hat] at h
      obtain ⟨mutex, -, rfl⟩ := Option.map_eq_some_iff.1 h
      simp only [left, hat, ThreadAt.left]
      omega
  | recording =>
      rw [hat] at h
      obtain rfl := Option.some.inj h
      simp only [left, hat, ThreadAt.left]
      omega
  | assigning =>
      rw [hat] at h
      obtain rfl := Option.some.inj h
      have hle := left_true_le s.base.loop_ (s.cond_.pcond_.contains .owner) s.owner
      simp only [left, hat, ThreadAt.left, EventLoopThread.exec]
      omega
  | notifying =>
      rw [hat] at h hfits
      obtain ⟨cond, hcond, rfl⟩ := Option.map_eq_some_iff.1 h
      have hloop := I.base.pointer.2 (.inl hfits)
      unfold Condition.notify at hcond
      rcases I.sleeps with hpcond | ⟨hpcond, howner, -⟩
      · rw [if_pos hpcond] at hcond
        rw [← Option.some.inj hcond]
        simp only [left, hat, ThreadAt.left]
        omega
      · rw [hpcond] at hcond
        rw [← Option.some.inj hcond]
        have hasleep : [Party.owner].contains Party.owner = true := by decide
        have hawake : ([Party.owner].erase Party.owner).contains Party.owner = false := by decide
        simp only [left, hat, howner, hloop, hpcond, ThreadAt.left, OwnerAt.left, Condition.wake,
          hasleep, hawake, Bool.false_eq_true, if_false, if_true]
        omega
  | clearing =>
      rw [hat] at h
      obtain rfl := Option.some.inj h
      simp only [left, hat, ThreadAt.left]
      omega
  | unlocking =>
      rw [hat] at h
      obtain ⟨mutex, -, rfl⟩ := Option.map_eq_some_iff.1 h
      simp only [left, hat, ThreadAt.left]
      omega

theorem left_on (I : Inv s) {e : ThreadEvent φ τ} (hadmits : s.Admits e)
    {base : EventLoopThread φ τ} (h : s.base.step e = some base) :
    ({ s with base := base }.enter e).left + (HandshakeEvent.on e).isStatement.toNat ≤ s.left := by
  by_cases hother : e ≠ .startLoop ∧ e ≠ .construct ∧ e ≠ .publish ∧ e ≠ .returned
  · have P := passes_of_step h hother
    have hstatement : (HandshakeEvent.on e).isStatement = false := by
      cases e with
      | construct => exact absurd rfl hother.2.1
      | _ => rfl
    have hle : base.owner.left ≤ s.base.owner.left := by
      cases howner : base.owner with
      | created => exact Nat.le_of_eq (by rw [P.created howner])
      | _ => exact Nat.zero_le _
    rw [enter_of_passes hother, hstatement]
    simp only [left, P.loop_, Bool.toNat_false]
    omega
  · obtain ⟨⟨-, henabled⟩, rfl⟩ := EventLoopThread.step_eq_some.1 h
    cases e with
    | startLoop =>
        have hcreated : s.base.owner = .created := henabled
        simp only [left, enter, I.outside_of_created hcreated, hcreated, OwnerAt.left, OwnerPlace.left,
          EventLoopThread.exec, HandshakeEvent.isStatement, Bool.toNat_false]
        omega
    | construct =>
        simp only [left, enter, I.fits.outside (.inr henabled), ThreadAt.left, EventLoopThread.exec, HandshakeEvent.isStatement,
          Bool.toNat_true]
        omega
    | publish => exact absurd hadmits id
    | returned => exact absurd hadmits id
    | _ => exact absurd ⟨by simp, by simp, by simp, by simp⟩ hother

/-- A statement shortens what is left, and a spurious wakeup adds at most three. -/
theorem left_step (I : Inv s) {e : HandshakeEvent φ τ} (h : s.step e = some s') :
    s'.left + e.isStatement.toNat ≤ s.left + 3 * e.isWake.toNat := by
  cases e with
  | owner => exact left_ownerStep I h
  | thread => exact left_threadStep I h
  | wake =>
      simp only [Handshake.step] at h
      split at h
      · next hasleep =>
          obtain rfl := Option.some.inj h
          obtain ⟨hpcond, hat, -⟩ := I.sleeps.resolve_left (List.ne_nil_of_mem hasleep)
          cases hloop : s.base.loop_ <;>
            simp [left, hat, hpcond, hloop, OwnerAt.left, Condition.wake, HandshakeEvent.isStatement,
              HandshakeEvent.isWake] <;> omega
      · exact absurd h (by simp)
  | on e =>
      simp only [Handshake.step] at h
      split at h
      · next hadmits =>
          obtain ⟨base, hbase, rfl⟩ := Option.map_eq_some_iff.1 h
          exact left_on I hadmits hbase
      · exact absurd h (by simp)

/-- While the owner is in `startLoop`, the thread can go on unless it waits for the mutex or is past
    its critical section. -/
theorem Inv.thread_isSome (I : Inv s) (hstarting : s.base.owner = .starting)
    (hfree : s.thread = .locking → s.mutex_.mutex_ = none) (hpassed : s.thread ≠ .passed) :
    ∃ e : HandshakeEvent φ τ, e.isStatement = true ∧ (s.step e).isSome := by
  have hholds := I.threadHolds
  have hfits := I.fits
  have hintact := I.intact hstarting
  cases hat : s.thread with
  | outside =>
      rw [hat] at hfits
      have hconstructing : s.base.thread = .constructing := hfits.resolve_left (I.begun hstarting)
      refine ⟨.on .construct, rfl, ?_⟩
      have hbase : s.base.step .construct = some (s.base.exec .construct) :=
        EventLoopThread.step_eq_some.2 ⟨⟨hintact, hconstructing⟩, rfl⟩
      simp [Handshake.step, Admits, hbase]
  | locking => exact ⟨.thread, rfl, by simp [Handshake.step, Handshake.threadStep, hat,
      MutexLock.pthread_mutex_lock, hfree hat]⟩
  | notifying =>
      refine ⟨.thread, rfl, ?_⟩
      rcases I.sleeps with hpcond | ⟨hpcond, -⟩
      · simp [Handshake.step, Handshake.threadStep, hat, Condition.notify, hpcond]
      · simp [Handshake.step, Handshake.threadStep, hat, Condition.notify, hpcond]
  | unlocking =>
      rw [hat] at hholds
      have hheld := hholds.2 rfl
      exact ⟨.thread, rfl, by simp [Handshake.step, Handshake.threadStep, hat, MutexLock.pthread_mutex_unlock,
        hheld]⟩
  | passed => exact absurd hat hpassed
  | _ => exact ⟨.thread, rfl, by simp [Handshake.step, Handshake.threadStep, hat]⟩

/-- Who waits for the mutex waits for a thread that can go on. -/
theorem Inv.blocked (I : Inv s) (hstarting : s.base.owner = .starting)
    (howner : s.owner.inside = false) (hheld : s.mutex_.mutex_ ≠ none) :
    ∃ e : HandshakeEvent φ τ, e.isStatement = true ∧ (s.step e).isSome := by
  obtain ⟨party, hparty⟩ := Option.ne_none_iff_exists'.1 hheld
  cases party with
  | owner =>
      rw [I.ownerHolds.1 hparty] at howner
      exact absurd howner (by simp)
  | thread =>
      have hinside := I.threadHolds.1 hparty
      refine I.thread_isSome hstarting (fun hat => ?_) fun hat => ?_
      · simp [hat, ThreadAt.inside] at hinside
      · simp [hat, ThreadAt.inside] at hinside

/-- **No deadlock.** While the owner is in `startLoop`, one of the two threads can go on. -/
theorem Inv.proceeds (I : Inv s) (hstarting : s.base.owner = .starting) :
    ∃ e : HandshakeEvent φ τ, e.isStatement = true ∧ (s.step e).isSome := by
  have hholds := I.ownerHolds
  cases hat : s.owner with
  | outside => exact absurd hat (I.starting.2 hstarting)
  | locking =>
      by_cases hfree : s.mutex_.mutex_ = none
      · exact ⟨.owner, rfl, by simp [Handshake.step, Handshake.ownerStep, hat, MutexLock.pthread_mutex_lock,
          hfree]⟩
      · exact I.blocked hstarting (by rw [hat]; rfl) hfree
  | sleeping =>
      rw [hat] at hholds
      have hheld := hholds.2 rfl
      exact ⟨.owner, rfl, by simp [Handshake.step, Handshake.ownerStep, hat, Condition.wait,
        MutexLock.pthread_mutex_unlock, hheld]⟩
  | waiting =>
      by_cases hfree : s.mutex_.mutex_ = none
      · rcases I.sleeps with hpcond | ⟨-, -, hnull⟩
        · exact ⟨.owner, rfl, by simp [Handshake.step, Handshake.ownerStep, hat, Condition.resume, hpcond,
            MutexLock.pthread_mutex_lock, hfree]⟩
        · -- The owner sleeps, and the thread has not notified yet.
          refine I.thread_isSome hstarting (fun _ => hfree) fun hpassed => ?_
          have hfits := I.fits
          rw [hpassed] at hfits
          rcases hnull with hnull | hnotifying
          · rw [I.base.pointer.2 hfits] at hnull
            exact absurd hnull (by simp)
          · rw [hpassed] at hnotifying
            exact absurd hnotifying (by simp)
      · exact I.blocked hstarting (by rw [hat]; rfl) hfree
  | unlocking =>
      rw [hat] at hholds
      have hheld := hholds.2 rfl
      exact ⟨.owner, rfl, by simp [Handshake.step, Handshake.ownerStep, hat, MutexLock.pthread_mutex_unlock,
        hheld]⟩
  | _ => exact ⟨.owner, rfl, by simp [Handshake.step, Handshake.ownerStep, hat]⟩

/-- **`startLoop` returns.** In whatever order the two threads run, the handshake is over after at most
    twenty statements and three more for each spurious wakeup; until it is over for the owner, one of
    the two threads can make its next statement; and the `loop_` that the owner returns is set. -/
theorem completes (events : List (HandshakeEvent φ τ)) (s : Handshake φ τ)
    (hrun : Run.run step new events = some s) :
    events.countP HandshakeEvent.isStatement ≤ 20 + 3 * events.countP HandshakeEvent.isWake ∧
      (s.base.owner = .starting →
        ∃ e : HandshakeEvent φ τ, e.isStatement = true ∧ (s.step e).isSome) ∧
      (s.owner = .returning → s.base.loop_ = true) := by
  have hinv : ∀ s e s', Inv s → step s e = some s' → Inv (s' : Handshake φ τ) :=
    fun _ _ _ I h => I.step h
  have hcount : s.left + events.countP HandshakeEvent.isStatement ≤
      20 + 3 * events.countP HandshakeEvent.isWake :=
    Run.countP_le_potential hinv (fun _ _ _ I h => left_step I h) inv_new hrun
  have I : Inv s := Run.inv_run hinv inv_new hrun
  exact ⟨by omega, I.proceeds, fun hat => I.seen (by rw [hat]; rfl)⟩

/-- The owner goes to sleep before the thread has begun, wakes once for no reason, and returns. -/
theorem completes_after_spurious_wakeup :
    let events : List (HandshakeEvent Unit Unit) :=
      [.on .startLoop, .owner, .owner, .owner, .owner, .wake, .owner, .owner, .owner, .on .construct,
        .thread, .thread, .thread, .thread, .thread, .thread, .owner, .owner, .owner, .owner, .owner]
    ∃ s, Run.run step new events = some s ∧ s.base.owner = .started ∧
      events.countP HandshakeEvent.isStatement ≤ 20 + 3 * events.countP HandshakeEvent.isWake ∧
      (s.base.owner = .starting →
        ∃ e : HandshakeEvent Unit Unit, e.isStatement = true ∧ (s.step e).isSome) ∧
      (s.owner = .returning → s.base.loop_ = true) := by
  intro events
  exact ⟨_, rfl, rfl, completes events _ rfl⟩

end Handshake

end WwjMuduo
