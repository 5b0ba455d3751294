import Mathlib.Data.BitVec
import Mathlib.Tactic.Common

set_option autoImplicit false

/-! # Channel

A `Channel` ties a descriptor to the events its owner wants (`events_`) and to its place in the
poller's table (`index_`, `-1` before the first registration). Events are `int` bit masks. The
members that change the mask all end in `update()`, which hands the channel to its loop's poller
(`Poller.lean`); here they are only the change of the mask.

`handleEvent` is modelled by the callbacks it invokes, in order: `revents_` is written by the poller
alone, so no callback changes what the later tests of the same call see. -/

namespace WwjMuduo

/-! ## The bits of `poll.h` -/

def POLLIN : BitVec 32 := 0x001
def POLLPRI : BitVec 32 := 0x002
def POLLOUT : BitVec 32 := 0x004
def POLLERR : BitVec 32 := 0x008
def POLLHUP : BitVec 32 := 0x010
def POLLNVAL : BitVec 32 := 0x020
def POLLRDHUP : BitVec 32 := 0x2000

/-- `mask & bit` as a C++ condition. -/
def hasBits (mask bits : BitVec 32) : Bool := mask &&& bits != 0

structure Channel where
  index_ : ℤ
  fd_ : ℤ
  events_ : BitVec 32
  revents_ : BitVec 32
  deriving DecidableEq

namespace Channel

def kNoneEvent : BitVec 32 := 0
def kReadEvent : BitVec 32 := POLLPRI ||| POLLIN
def kWriteEvent : BitVec 32 := POLLOUT

/-- The constructor. -/
def new (fd : ℤ) : Channel := { index_ := -1, fd_ := fd, events_ := 0, revents_ := 0 }

def enableReading (c : Channel) : Channel := { c with events_ := c.events_ ||| kReadEvent }

def enableWriting (c : Channel) : Channel := { c with events_ := c.events_ ||| kWriteEvent }

def disableWriting (c : Channel) : Channel := { c with events_ := c.events_ &&& ~~~kWriteEvent }

def disableAll (c : Channel) : Channel := { c with events_ := kNoneEvent }

def isWriting (c : Channel) : Bool := hasBits c.events_ kWriteEvent

def isNoneEvent (c : Channel) : Bool := c.events_ == kNoneEvent

def set_index (c : Channel) (index : ℤ) : Channel := { c with index_ := index }

def set_revents (c : Channel) (revt : BitVec 32) : Channel := { c with revents_ := revt }

/-! ## Event dispatch -/

/-- The four callbacks of a channel. -/
inductive Callback where
  | close
  | error
  | read
  | write
  deriving DecidableEq

/-- The callbacks `handleEvent` invokes, in order. `isSet` tells which ones the owner has set. -/
def handleEvent (c : Channel) (isSet : Callback → Bool) : List Callback :=
  (if hasBits c.revents_ POLLHUP && !hasBits c.revents_ POLLIN then [.close] else []).filter isSet
    ++ (if hasBits c.revents_ (POLLERR ||| POLLNVAL) then [.error] else []).filter isSet
    ++ (if hasBits c.revents_ (POLLIN ||| POLLPRI ||| POLLRDHUP) then [.read] else []).filter isSet
    ++ (if hasBits c.revents_ POLLOUT then [.write] else []).filter isSet

/-! ## The event mask -/

theorem hasBits_iff {mask : BitVec 32} :
    hasBits mask kWriteEvent = true ↔ mask.getLsbD 2 = true := by
  have hbit : mask &&& kWriteEvent = if mask.getLsbD 2 then kWriteEvent else 0 := by
    apply BitVec.eq_of_getLsbD_eq
    intro i hi
    have hk : ∀ i < 32, kWriteEvent.getLsbD i = decide (i = 2) := by decide
    rw [BitVec.getLsbD_and, hk i hi]
    by_cases h2 : i = 2
    · subst h2
      cases mask.getLsbD 2 <;> rfl
    · cases mask.getLsbD 2 <;> simp [h2, hk i hi]
  rw [hasBits, hbit]
  cases mask.getLsbD 2 <;> decide

@[simp]
theorem isWriting_new (fd : ℤ) : (new fd).isWriting = false := by
  simp [isWriting, hasBits, new]

@[simp]
theorem isWriting_enableReading (c : Channel) : c.enableReading.isWriting = c.isWriting := by
  rw [Bool.eq_iff_iff, isWriting, isWriting, hasBits_iff, hasBits_iff, enableReading,
    BitVec.getLsbD_or]
  have hk : kReadEvent.getLsbD 2 = false := rfl
  rw [hk, Bool.or_false]

@[simp]
theorem isWriting_enableWriting (c : Channel) : c.enableWriting.isWriting = true := by
  rw [isWriting, hasBits_iff, enableWriting, BitVec.getLsbD_or]
  have hk : kWriteEvent.getLsbD 2 = true := rfl
  rw [hk, Bool.or_true]

@[simp]
theorem isWriting_disableWriting (c : Channel) : c.disableWriting.isWriting = false := by
  rw [← Bool.not_eq_true, isWriting, hasBits_iff, disableWriting, BitVec.getLsbD_and]
  have hk : (~~~kWriteEvent).getLsbD 2 = false := rfl
  rw [hk, Bool.and_false]
  exact Bool.false_ne_true

@[simp]
theorem isNoneEvent_new (fd : ℤ) : (new fd).isNoneEvent = true := rfl

@[simp]
theorem isNoneEvent_disableAll (c : Channel) : c.disableAll.isNoneEvent = true := rfl

theorem isNoneEvent_eq_false_of_bit {c : Channel} (i : ℕ) (h : c.events_.getLsbD i = true) :
    c.isNoneEvent = false := by
  rw [isNoneEvent, beq_eq_false_iff_ne]
  intro h0
  rw [h0] at h
  simp [kNoneEvent] at h

@[simp]
theorem isNoneEvent_enableReading (c : Channel) : c.enableReading.isNoneEvent = false := by
  apply isNoneEvent_eq_false_of_bit 0
  rw [enableReading, BitVec.getLsbD_or]
  exact Bool.or_true _

@[simp]
theorem isNoneEvent_enableWriting (c : Channel) : c.enableWriting.isNoneEvent = false := by
  apply isNoneEvent_eq_false_of_bit 2
  rw [enableWriting, BitVec.getLsbD_or]
  exact Bool.or_true _

/-- Dropping the write interest of a channel without interest leaves it without. -/
theorem isNoneEvent_disableWriting_of_none {c : Channel} (h : c.isNoneEvent = true) :
    c.disableWriting.isNoneEvent = true := by
  rw [isNoneEvent, beq_iff_eq] at h ⊢
  rw [disableWriting, h]
  rfl

end Channel

end WwjMuduo
