import Mathlib.Data.Finmap
import Mathlib.Data.Int.Basic
import Mathlib.Logic.Function.Basic
import WwjMuduo.Channel
import WwjMuduo.Lib.Run

set_option autoImplicit false

/-! # Poller

The poller keeps the array it gives to `::poll` (`pollfds_`) and a map from descriptors to channels
(`channels_`); each channel remembers where its own entry is (`index_`). A channel without interest
keeps its entry, with the descriptor replaced by a negative number that `::poll` ignores.

A `Channel*` is a value of an arbitrary type `ι`. The operations read and write the channel objects
too, so they act on `Polling`: the poller together with the channels by address. `none` is undefined
behaviour: an index outside the array, or a null pointer from `channels_`. Descriptors and indices
are unbounded integers; a process has fewer than `2 ^ 31` open descriptors, so no `int` overflows. -/

namespace WwjMuduo

structure PollFd where
  fd : ℤ
  events : BitVec 16
  revents : BitVec 16
  deriving DecidableEq

structure Poller (ι : Type*) where
  pollfds_ : List PollFd
  channels_ : Finmap fun _ : ℤ => ι

/-- A poller and the channel objects its pointers lead to. -/
structure Polling (ι : Type*) extends Poller ι where
  channel : ι → Channel

/-- The outcome of `::poll`: the `revents` it has stored, by position, or an error. -/
inductive PollOutcome where
  | ready (revents : ℕ → BitVec 16)
  | err

variable {ι : Type*} [DecidableEq ι]

/-- The descriptor `::poll` ignores, for a channel without interest. It is its own inverse. -/
def ignoredFd (fd : ℤ) : ℤ := -fd - 1

/-- The entry that asks for the events of a channel. -/
def Channel.pollfd (c : Channel) (fd : ℤ) : PollFd :=
  { fd := fd, events := c.events_.setWidth 16, revents := 0 }

namespace Polling

def setChannel (s : Polling ι) (c : ι) (ch : Channel) : Polling ι :=
  { s with channel := Function.update s.channel c ch }

def updateChannel (s : Polling ι) (c : ι) : Option (Polling ι) :=
  let channel := s.channel c
  if channel.index_ < 0 then
    let pfd := channel.pollfd channel.fd_
    let pollfds := s.pollfds_ ++ [pfd]
    let idx : ℤ := (pollfds.length : ℤ) - 1
    some { pollfds_ := pollfds
           channels_ := s.channels_.insert pfd.fd c
           channel := Function.update s.channel c (channel.set_index idx) }
  else
    let idx := channel.index_.toNat
    match s.pollfds_[idx]? with
    | none => none
    | some pfd =>
      let fd := if channel.isNoneEvent then ignoredFd channel.fd_ else pfd.fd
      some { s with pollfds_ := s.pollfds_.set idx (channel.pollfd fd) }

/-- `iter_swap` of the elements at `idx` and at the end, then `pop_back`. -/
def swapPop (pollfds : List PollFd) (idx : ℕ) (pfd last : PollFd) : List PollFd :=
  ((pollfds.set idx last).set (pollfds.length - 1) pfd).dropLast

def removeChannel (s : Polling ι) (c : ι) : Option (Polling ι) :=
  let channel := s.channel c
  let idx := channel.index_
  if idx < 0 then none
  else
    match s.pollfds_[idx.toNat]?, s.pollfds_.getLast? with
    | some pfd, some last =>
      let channels := s.channels_.erase channel.fd_
      if idx.toNat = s.pollfds_.length - 1 then
        some { s with pollfds_ := s.pollfds_.dropLast, channels_ := channels }
      else
        let channelAtEnd := if last.fd < 0 then ignoredFd last.fd else last.fd
        match channels.lookup channelAtEnd with
        | none => none
        | some d =>
          some { pollfds_ := swapPop s.pollfds_ idx.toNat pfd last
                 channels_ := channels
                 channel := Function.update s.channel d ((s.channel d).set_index idx) }
    | _, _ => none

/-! ## Polling -/

/-- The array after a `::poll` that succeeded: `revents` by position. -/
def reported (s : Polling ι) (revents : ℕ → BitVec 16) : Polling ι :=
  { s with pollfds_ := s.pollfds_.mapIdx fun i pfd => { pfd with revents := revents i } }

/-- What `::poll` returns: the number of entries with events. -/
def numEvents (s : Polling ι) : ℕ := s.pollfds_.countP fun pfd => pfd.revents != 0

/-- The loop of `fillActiveChannels`, over the entries still to come. `find` of a descriptor that
    `channels_` does not have gives `end()`, which has no `second`. -/
def fill (s : Polling ι) : List PollFd → ℤ → List ι → Option (Polling ι × List ι)
  | [], _, activeChannels => some (s, activeChannels)
  | pfd :: pollfds, numEvents, activeChannels =>
    if 0 < numEvents then
      if 0 < pfd.revents.toInt then
        match s.channels_.lookup pfd.fd with
        | none => none
        | some c =>
          (s.setChannel c ((s.channel c).set_revents (pfd.revents.signExtend 32))).fill pollfds
            (numEvents - 1) (activeChannels ++ [c])
      else s.fill pollfds numEvents activeChannels
    else some (s, activeChannels)

def fillActiveChannels (s : Polling ι) (numEvents : ℤ) (activeChannels : List ι) :
    Option (Polling ι × List ι) :=
  s.fill s.pollfds_ numEvents activeChannels

def poll (s : Polling ι) (activeChannels : List ι) : PollOutcome → Option (Polling ι × List ι)
  | .ready revents =>
    let s := s.reported revents
    if 0 < s.numEvents then s.fillActiveChannels s.numEvents activeChannels
    else some (s, activeChannels)
  | .err => some (s, activeChannels)

/-- The poller of a new loop, over channels just constructed for the given descriptors. -/
def init (fd : ι → ℤ) : Polling ι :=
  { pollfds_ := [], channels_ := ∅, channel := fun c => Channel.new (fd c) }

@[simp]
theorem setChannel_self (s : Polling ι) (c : ι) (ch : Channel) :
    (s.setChannel c ch).channel c = ch := Function.update_self ..

theorem setChannel_of_ne (s : Polling ι) {c d : ι} (ch : Channel) (h : d ≠ c) :
    (s.setChannel c ch).channel d = s.channel d := Function.update_of_ne h ..

/-! ## What each operation does

The equations below are the two branches of `updateChannel` and the two of `removeChannel`; later
proofs rewrite with them and never unfold the operations. -/

theorem updateChannel_new {s : Polling ι} {c : ι} (h : (s.channel c).index_ < 0) :
    s.updateChannel c = some
      { pollfds_ := s.pollfds_ ++ [(s.channel c).pollfd (s.channel c).fd_]
        channels_ := s.channels_.insert (s.channel c).fd_ c
        channel := Function.update s.channel c ((s.channel c).set_index s.pollfds_.length) } := by
  rw [updateChannel, if_pos h]
  simp [Channel.pollfd]

theorem updateChannel_old {s : Polling ι} {c : ι} {i : ℕ} {pfd : PollFd}
    (h : (s.channel c).index_ = i) (hpfd : s.pollfds_[i]? = some pfd) :
    s.updateChannel c = some
      { s with pollfds_ := s.pollfds_.set i ((s.channel c).pollfd
          (if (s.channel c).isNoneEvent then ignoredFd (s.channel c).fd_ else pfd.fd)) } := by
  rw [updateChannel, if_neg (by omega)]
  simp only [h, Int.toNat_natCast, hpfd]

theorem removeChannel_last {s : Polling ι} {c : ι} {i : ℕ}
    (h : (s.channel c).index_ = i) (hi : i < s.pollfds_.length) (hlast : i = s.pollfds_.length - 1) :
    s.removeChannel c = some
      { s with pollfds_ := s.pollfds_.dropLast
               channels_ := s.channels_.erase (s.channel c).fd_ } := by
  have hne : s.pollfds_ ≠ [] := List.ne_nil_of_length_pos (by omega)
  rw [removeChannel, if_neg (by omega)]
  simp only [h, Int.toNat_natCast, List.getElem?_eq_getElem hi, List.getLast?_eq_some_getLast hne,
    if_pos hlast]

theorem removeChannel_swap {s : Polling ι} {c d : ι} {i : ℕ} {pfd last : PollFd}
    (h : (s.channel c).index_ = i) (hpfd : s.pollfds_[i]? = some pfd)
    (hlast : s.pollfds_.getLast? = some last) (hne : i ≠ s.pollfds_.length - 1)
    (hd : (s.channels_.erase (s.channel c).fd_).lookup
      (if last.fd < 0 then ignoredFd last.fd else last.fd) = some d) :
    s.removeChannel c = some
      { pollfds_ := swapPop s.pollfds_ i pfd last
        channels_ := s.channels_.erase (s.channel c).fd_
        channel := Function.update s.channel d ((s.channel d).set_index i) } := by
  rw [removeChannel, if_neg (by omega)]
  simp only [h, Int.toNat_natCast, hpfd, hlast, if_neg hne, hd]

end Polling

end WwjMuduo
