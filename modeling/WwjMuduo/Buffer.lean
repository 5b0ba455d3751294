import Mathlib.Algebra.Group.Nat.Defs
import Mathlib.Data.Int.Basic
import Mathlib.Data.List.Basic
import Mathlib.Tactic.Common

set_option autoImplicit false

/-! # Buffer

A `Buffer` is a `std::vector<char>` with two indices, the readable bytes lying between them. The
indices are `size_t` and wrap. The constructor sets neither of them, so a new buffer has the two
values that were in memory; and the `append` that all others call has an empty body.

Access to bytes outside the vector is undefined behaviour, `none` here. An empty range has no byte
outside, wherever it starts. -/

namespace WwjMuduo

/-! ## The vector -/

/-- `std::vector<char>`; its size is a `size_t`. -/
structure CharVec where
  data : List UInt8
  size_lt : data.length < 2 ^ 64

namespace CharVec

def size (v : CharVec) : UInt64 := UInt64.ofNat v.data.length

/-- A vector of `n` zero bytes. -/
def zeros (n : UInt64) : CharVec :=
  ⟨List.replicate n.toNat 0, by rw [List.length_replicate]; exact n.toNat_lt⟩

def resize (v : CharVec) (n : UInt64) : CharVec :=
  ⟨v.data.take n.toNat ++ List.replicate (n.toNat - v.data.length) 0, by
    have := n.toNat_lt
    simp only [List.length_append, List.length_take, List.length_replicate]
    omega⟩

/-- The `len` bytes from `off` on. -/
def read (v : CharVec) (off len : UInt64) : Option (List UInt8) :=
  if len = 0 then some []
  else if off.toNat + len.toNat ≤ v.data.length then some ((v.data.drop off.toNat).take len.toNat)
  else none

/-- The vector with `bytes` stored from `off` on. -/
def write (v : CharVec) (off : UInt64) (bytes : List UInt8) : Option CharVec :=
  if bytes = [] then some v
  else if h : off.toNat + bytes.length ≤ v.data.length then
    some ⟨v.data.take off.toNat ++ bytes ++ v.data.drop (off.toNat + bytes.length), by
      have := v.size_lt
      simp only [List.length_append, List.length_take, List.length_drop]
      omega⟩
  else none

/-- `std::copy` of the range `[first, last)` of the vector to `dest` in the same vector. It copies
    forward, so the destination must not lie inside the range. -/
def copyWithin (v : CharVec) (first last dest : UInt64) : Option CharVec :=
  if first ≤ dest ∧ dest < last then none
  else (v.read first (last - first)).bind fun bytes => v.write dest bytes

@[simp]
theorem toNat_size (v : CharVec) : v.size.toNat = v.data.length :=
  UInt64.toNat_ofNat_of_lt' v.size_lt

@[simp]
theorem write_nil (v : CharVec) (off : UInt64) : v.write off [] = some v := rfl

theorem length_of_read {v : CharVec} {off len : UInt64} {bytes : List UInt8}
    (h : v.read off len = some bytes) : bytes.length = len.toNat := by
  unfold read at h
  split_ifs at h with h0 hin
  · subst h0
    rw [← Option.some.inj h]
    rfl
  · rw [← Option.some.inj h, List.length_take, List.length_drop]
    omega

/-- Bytes can be read exactly if they lie inside the vector. -/
theorem read_eq_some {v : CharVec} {off len : UInt64} (h : off.toNat + len.toNat ≤ v.data.length) :
    v.read off len = some ((v.data.drop off.toNat).take len.toNat) := by
  unfold read
  split_ifs with h0
  · subst h0
    rw [UInt64.toNat_zero, List.take_zero]
  · rfl

/-- Storing non-empty bytes is defined exactly if they fit inside the vector. -/
theorem write_eq_some {v : CharVec} {off : UInt64} {bytes : List UInt8} (hne : bytes ≠ [])
    {v' : CharVec} : v.write off bytes = some v' ↔ off.toNat + bytes.length ≤ v.data.length ∧
      v'.data = v.data.take off.toNat ++ bytes ++ v.data.drop (off.toNat + bytes.length) := by
  unfold write
  rw [if_neg hne]
  split_ifs with h
  · rw [Option.some.injEq]
    refine ⟨fun e => ⟨h, by rw [← e]⟩, fun e => ?_⟩
    cases v'
    simp only [mk.injEq]
    exact e.2.symm
  · exact ⟨fun e => absurd e (by simp), fun e => absurd e.1 h⟩

/-- Storing does not change the size. -/
theorem length_of_write {v v' : CharVec} {off : UInt64} {bytes : List UInt8}
    (h : v.write off bytes = some v') : v'.data.length = v.data.length := by
  by_cases hne : bytes = []
  · rw [hne, write_nil, Option.some.injEq] at h
    rw [h]
  · obtain ⟨hfits, hdata⟩ := (write_eq_some hne).1 h
    rw [hdata]
    simp only [List.length_append, List.length_take, List.length_drop]
    omega

/-- Bytes that fit can be stored, empty ones included. -/
theorem write_of_fits {v : CharVec} {off : UInt64} {bytes : List UInt8}
    (h : off.toNat + bytes.length ≤ v.data.length) : ∃ v', v.write off bytes = some v' ∧
      v'.data = v.data.take off.toNat ++ bytes ++ v.data.drop (off.toNat + bytes.length) := by
  cases bytes with
  | nil => exact ⟨v, write_nil v off, by simp⟩
  | cons x xs =>
      unfold write
      rw [if_neg (List.cons_ne_nil x xs), dif_pos h]
      exact ⟨_, rfl, rfl⟩

end CharVec

/-! ## The buffer -/

structure Buffer where
  buffer_ : CharVec
  readerIndex_ : UInt64
  writerIndex_ : UInt64

namespace Buffer

def kCheapPrepend : UInt64 := 8
def kInitialSize : UInt64 := 1024

/-- The constructor. The indices are the values it finds in memory. -/
def new (readerIndex writerIndex : UInt64) : Buffer :=
  { buffer_ := CharVec.zeros (kCheapPrepend + kInitialSize)
    readerIndex_ := readerIndex
    writerIndex_ := writerIndex }

def readableBytes (b : Buffer) : UInt64 := b.writerIndex_ - b.readerIndex_

def writableBytes (b : Buffer) : UInt64 := b.buffer_.size - b.writerIndex_

def prependableBytes (b : Buffer) : UInt64 := b.readerIndex_

/-- The offset from `begin()` of the pointer `peek()` returns. -/
def peek (b : Buffer) : UInt64 := b.readerIndex_

/-- The `readableBytes()` bytes from `peek()` on. -/
def readable (b : Buffer) : Option (List UInt8) := b.buffer_.read b.peek b.readableBytes

def retrieve (b : Buffer) (len : UInt64) : Buffer := { b with readerIndex_ := b.readerIndex_ + len }

/-- `retrieveUntil`, with the pointer given by its offset from `begin()`. -/
def retrieveUntil (b : Buffer) (stop : UInt64) : Buffer := b.retrieve (stop - b.peek)

def retrieveAll (b : Buffer) : Buffer :=
  { b with readerIndex_ := kCheapPrepend, writerIndex_ := kCheapPrepend }

def retrieveAsString (b : Buffer) : Option (List UInt8 × Buffer) :=
  b.readable.map fun str => (str, b.retrieveAll)

/-- `append(const char*, size_t)`. Its body is empty. -/
def append (b : Buffer) (_data : List UInt8) : Buffer := b

def makeSpace (b : Buffer) (len : UInt64) : Option Buffer :=
  if b.writableBytes + b.prependableBytes < len + kCheapPrepend then
    some { b with buffer_ := b.buffer_.resize (b.writerIndex_ + len) }
  else
    let readable := b.readableBytes
    (b.buffer_.copyWithin b.readerIndex_ b.writerIndex_ kCheapPrepend).map fun v =>
      { buffer_ := v, readerIndex_ := kCheapPrepend, writerIndex_ := kCheapPrepend + readable }

def ensureWritableBytes (b : Buffer) (len : UInt64) : Option Buffer :=
  if b.writableBytes < len then b.makeSpace len else some b

/-- The offset from `begin()` of the pointer `beginWrite()` returns. -/
def beginWrite (b : Buffer) : UInt64 := b.writerIndex_

def hasWritten (b : Buffer) (len : UInt64) : Buffer :=
  { b with writerIndex_ := b.writerIndex_ + len }

def prepend (b : Buffer) (data : List UInt8) : Option Buffer :=
  let readerIndex := b.readerIndex_ - UInt64.ofNat data.length
  (b.buffer_.write readerIndex data).map fun v => { b with buffer_ := v, readerIndex_ := readerIndex }

/-- `swap`: the two buffers after it. -/
def swap (b rhs : Buffer) : Buffer × Buffer := (rhs, b)

def shrink (b : Buffer) (reserve : UInt64) : Option Buffer :=
  b.readable.bind fun bytes =>
    ((CharVec.zeros (kCheapPrepend + b.readableBytes + reserve)).write kCheapPrepend bytes).map
      fun v => { b with buffer_ := v }

/-- The outcome of `readv`: the bytes it has stored, or an errno. -/
inductive ReadOutcome where
  | bytes (chunk : List UInt8)
  | err (errno : ℤ)

/-- `sizeof extrabuf`. -/
def extrabufSize : ℕ := 65536

/-- `readFd`: the buffer, the result of `readv`, and `*savedErrno` if it is set. `readv` fills the
    free space of the buffer first and the rest goes to `extrabuf`; it never returns more than both
    hold. -/
def readFd (b : Buffer) : ReadOutcome → Option (Buffer × ℤ × Option ℤ)
  | .err errno => some (b, -1, some errno)
  | .bytes chunk =>
    let writable := b.writableBytes
    if chunk.length ≤ writable.toNat + extrabufSize then
      (b.buffer_.write b.beginWrite (chunk.take writable.toNat)).map fun v =>
        let b := { b with buffer_ := v }
        if chunk.length ≤ writable.toNat then
          ({ b with writerIndex_ := b.writerIndex_ + UInt64.ofNat chunk.length }, chunk.length, none)
        else
          (({ b with writerIndex_ := b.buffer_.size }).append (chunk.drop writable.toNat),
            chunk.length, none)
    else none

/-- When `readv` returned bytes, `readFd` returns how many, and no errno. -/
theorem readFd_bytes {b b' : Buffer} {chunk : List UInt8} {n : ℤ} {e : Option ℤ}
    (h : b.readFd (.bytes chunk) = some (b', n, e)) : n = chunk.length ∧ e = none := by
  unfold readFd at h
  simp only at h
  split_ifs at h
  all_goals
    obtain ⟨v, -, hv⟩ := Option.map_eq_some_iff.1 h
    simp only [Prod.mk.injEq] at hv
    exact ⟨hv.2.1.symm, hv.2.2.symm⟩

/-! ## Facts about the indices -/

@[simp]
theorem append_eq (b : Buffer) (data : List UInt8) : b.append data = b := rfl

theorem readableBytes_eq_zero {b : Buffer} :
    b.readableBytes = 0 ↔ b.readerIndex_ = b.writerIndex_ := by
  unfold readableBytes
  rw [← UInt64.toNat_inj, ← UInt64.toNat_inj, UInt64.toNat_sub, UInt64.toNat_zero]
  have hr := b.readerIndex_.toNat_lt
  have hw := b.writerIndex_.toNat_lt
  omega

/-- Without readable bytes there is nothing to read, wherever the indices are. -/
theorem readable_of_empty {b : Buffer} (h : b.readableBytes = 0) : b.readable = some [] := by
  unfold readable
  rw [h]
  rfl

theorem length_readable {b : Buffer} {bytes : List UInt8} (h : b.readable = some bytes) :
    bytes.length = b.readableBytes.toNat :=
  CharVec.length_of_read h

/-! ## Indices in order -/

/-- The indices are in order and inside the vector. -/
structure WellFormed (b : Buffer) : Prop where
  reader_le : b.readerIndex_.toNat ≤ b.writerIndex_.toNat
  writer_le : b.writerIndex_.toNat ≤ b.buffer_.data.length

theorem toNat_readableBytes {b : Buffer} (h : b.readerIndex_.toNat ≤ b.writerIndex_.toNat) :
    b.readableBytes.toNat = b.writerIndex_.toNat - b.readerIndex_.toNat := by
  unfold readableBytes
  exact UInt64.toNat_sub_of_le _ _ h

theorem toNat_writableBytes {b : Buffer} (h : b.writerIndex_.toNat ≤ b.buffer_.data.length) :
    b.writableBytes.toNat = b.buffer_.data.length - b.writerIndex_.toNat := by
  unfold writableBytes
  rw [UInt64.toNat_sub_of_le _ _ (by rw [UInt64.le_iff_toNat_le, CharVec.toNat_size]; exact h),
    CharVec.toNat_size]

/-- The readable bytes of a buffer whose indices are in order. -/
theorem WellFormed.readable_eq {b : Buffer} (h : b.WellFormed) :
    b.readable = some ((b.buffer_.data.drop b.readerIndex_.toNat).take
      (b.writerIndex_.toNat - b.readerIndex_.toNat)) := by
  have hr := h.reader_le
  have hw := h.writer_le
  have hlen := toNat_readableBytes hr
  unfold readable peek
  rw [CharVec.read_eq_some (by omega), hlen]

/-- Storing at the end of the readable bytes puts the stored bytes behind them. -/
theorem readable_after_write {b : Buffer} (h : b.WellFormed) {stored : List UInt8} {v : CharVec}
    (hv : b.buffer_.write b.beginWrite stored = some v) {w : UInt64}
    (hw : w.toNat = b.writerIndex_.toNat + stored.length) {bytes : List UInt8}
    (hb : b.readable = some bytes) :
    ({ b with buffer_ := v, writerIndex_ := w } : Buffer).WellFormed ∧
      ({ b with buffer_ := v, writerIndex_ := w } : Buffer).readable = some (bytes ++ stored) := by
  have hr := h.reader_le
  have hwl := h.writer_le
  have hdata : b.writerIndex_.toNat + stored.length ≤ b.buffer_.data.length ∧
      v.data = b.buffer_.data.take b.writerIndex_.toNat ++ stored ++
        b.buffer_.data.drop (b.writerIndex_.toNat + stored.length) := by
    by_cases hne : stored = []
    · subst hne
      rw [CharVec.write_nil, Option.some.injEq] at hv
      subst hv
      refine ⟨by simpa using hwl, ?_⟩
      rw [List.append_nil, List.length_nil, Nat.add_zero, List.take_append_drop]
    · exact (CharVec.write_eq_some hne).1 hv
  obtain ⟨hfit, hdata⟩ := hdata
  have hlen := CharVec.length_of_write hv
  have hwf : ({ b with buffer_ := v, writerIndex_ := w } : Buffer).WellFormed :=
    ⟨by show b.readerIndex_.toNat ≤ w.toNat; omega, by show w.toNat ≤ v.data.length; omega⟩
  refine ⟨hwf, ?_⟩
  rw [hwf.readable_eq]
  rw [h.readable_eq, Option.some.injEq] at hb
  show some ((v.data.drop b.readerIndex_.toNat).take (w.toNat - b.readerIndex_.toNat)) = _
  have htake : (b.buffer_.data.take b.writerIndex_.toNat).length = b.writerIndex_.toNat := by
    rw [List.length_take]
    omega
  rw [hdata, List.append_assoc, List.drop_append_of_le_length (by omega), ← List.append_assoc,
    List.take_append_of_le_length (by simp only [List.length_append, List.length_drop]; omega),
    List.take_of_length_le (by simp only [List.length_append, List.length_drop]; omega)]
  rw [← hb, List.take_drop, show b.readerIndex_.toNat + (b.writerIndex_.toNat -
    b.readerIndex_.toNat) = b.writerIndex_.toNat by omega]

end Buffer

end WwjMuduo
