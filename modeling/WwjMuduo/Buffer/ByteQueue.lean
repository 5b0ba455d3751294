import WwjMuduo.Buffer
import WwjMuduo.Lib.Run

set_option autoImplicit false

/-! # A buffer as a byte queue

What a `Buffer` is for: a queue of bytes that takes bytes at the back, gives them up at the front,
and can take a few more at the front. `Represents b q` says that the indices are in order and the
readable bytes are `q`. `split_of` and `represents_of_split` turn it into a split of the vector in
three parts, free space before, the queue, free space behind; each operation moves bytes between the
parts. -/

namespace WwjMuduo

/-! ## The queue -/

/-- What an operation does to a queue of elements of any kind. -/
inductive QueueOp (α : Type*) where
  | keep
  | pushBack (xs : List α)
  | pushFront (xs : List α)
  | drop (n : ℕ)
  | takeAll

/-- The queue after an operation. -/
def QueueOp.apply {α : Type*} (q : List α) : QueueOp α → List α
  | .keep => q
  | .pushBack xs => q ++ xs
  | .pushFront xs => xs ++ q
  | .drop n => q.drop n
  | .takeAll => []

namespace Buffer

/-- The buffer stands for the queue `q`. -/
structure Represents (b : Buffer) (q : List UInt8) : Prop extends b.WellFormed where
  readable : b.readable = some q

/-- The vector in three parts, with the indices between them. -/
structure Split (b : Buffer) (front q back : List UInt8) : Prop where
  data : b.buffer_.data = front ++ q ++ back
  reader : b.readerIndex_.toNat = front.length
  writer : b.writerIndex_.toNat = front.length + q.length

theorem Split.represents {b : Buffer} {front q back : List UInt8} (h : b.Split front q back) :
    b.Represents q := by
  have hr := h.reader
  have hw := h.writer
  have hlen : b.buffer_.data.length = front.length + q.length + back.length := by
    rw [h.data, List.length_append, List.length_append]
  have hwf : b.WellFormed := ⟨by omega, by omega⟩
  refine ⟨hwf, ?_⟩
  rw [hwf.readable_eq, h.data, hr, hw, List.append_assoc, List.drop_left, Nat.add_sub_cancel_left,
    List.take_left]

theorem Represents.split {b : Buffer} {q : List UInt8} (h : b.Represents q) :
    ∃ front back, b.Split front q back := by
  have hr := h.reader_le
  have hw := h.writer_le
  have hq := h.readable
  rw [h.toWellFormed.readable_eq, Option.some.injEq] at hq
  refine ⟨b.buffer_.data.take b.readerIndex_.toNat, b.buffer_.data.drop b.writerIndex_.toNat, ?_, ?_, ?_⟩
  · rw [← hq, ← List.take_add, show b.readerIndex_.toNat +
      (b.writerIndex_.toNat - b.readerIndex_.toNat) = b.writerIndex_.toNat by omega,
      List.take_append_drop]
  · rw [List.length_take]
    omega
  · rw [← hq, List.length_take, List.length_take, List.length_drop]
    omega

theorem Split.length {b : Buffer} {front q back : List UInt8} (h : b.Split front q back) :
    b.buffer_.data.length = front.length + q.length + back.length := by
  rw [h.data, List.length_append, List.length_append]

/-! ## Each operation on the three parts -/

/-- Retrieving moves bytes from the front of the queue to the space before it. -/
theorem Split.retrieve {b : Buffer} {front q back : List UInt8} (h : b.Split front q back)
    {len : UInt64} (hlen : len.toNat ≤ q.length) :
    (b.retrieve len).Split (front ++ q.take len.toNat) (q.drop len.toNat) back := by
  have hr := h.reader
  have hw := h.writer
  have hw64 := b.writerIndex_.toNat_lt
  have htake : (q.take len.toNat).length = len.toNat := by
    rw [List.length_take]
    omega
  refine ⟨?_, ?_, ?_⟩
  · rw [List.append_assoc front, List.take_append_drop]
    exact h.data
  · show (b.readerIndex_ + len).toNat = _
    rw [UInt64.toNat_add, List.length_append, htake]
    omega
  · show b.writerIndex_.toNat = _
    rw [List.length_append, List.length_drop, htake]
    omega

/-- Emptying leaves room for what may be prepended, if the vector has that much. -/
theorem split_retrieveAll {b : Buffer} (h : kCheapPrepend.toNat ≤ b.buffer_.data.length) :
    b.retrieveAll.Split (b.buffer_.data.take 8) [] (b.buffer_.data.drop 8) := by
  have h8 : kCheapPrepend.toNat = 8 := rfl
  have htake : (b.buffer_.data.take 8).length = 8 := by
    rw [List.length_take]
    omega
  refine ⟨by simp [retrieveAll], ?_, ?_⟩
  · rw [htake]
    rfl
  · rw [htake]
    rfl

/-- Prepending stores bytes in the space before the queue. -/
theorem Split.prepend {b : Buffer} {front q back : List UInt8} (h : b.Split front q back)
    {data : List UInt8} (hlen : data.length ≤ b.prependableBytes.toNat) :
    ∃ b', b.prepend data = some b' ∧
      b'.Split (front.take (front.length - data.length)) (data ++ q) back := by
  have hr := h.reader
  have hw := h.writer
  have htotal := h.length
  have hr64 := b.readerIndex_.toNat_lt
  have hfits : data.length ≤ front.length := hr ▸ hlen
  have hoff : (b.readerIndex_ - UInt64.ofNat data.length).toNat = front.length - data.length := by
    rw [UInt64.toNat_sub_of_le _ _ (by rw [UInt64.le_iff_toNat_le, UInt64.toNat_ofNat']; omega),
      UInt64.toNat_ofNat']
    omega
  have hroom : (b.readerIndex_ - UInt64.ofNat data.length).toNat + data.length ≤
      b.buffer_.data.length := by omega
  obtain ⟨v, hv, hdata⟩ := CharVec.write_of_fits hroom
  refine ⟨{ b with buffer_ := v, readerIndex_ := b.readerIndex_ - UInt64.ofNat data.length }, ?_, ?_,
    ?_, ?_⟩
  · show (b.buffer_.write _ data).map _ = _
    rw [hv]
    rfl
  · show v.data = _
    rw [hdata, hoff, h.data, Nat.sub_add_cancel hfits, List.append_assoc front, List.drop_left,
      List.take_append_of_le_length (by omega)]
    simp only [List.append_assoc]
  · show (b.readerIndex_ - UInt64.ofNat data.length).toNat = _
    rw [hoff, List.length_take]
    omega
  · show b.writerIndex_.toNat = _
    rw [List.length_take, List.length_append]
    omega

/-- Storing at `beginWrite()` and then moving the write index takes bytes in at the back. -/
theorem Split.write {b : Buffer} {front q back : List UInt8} (h : b.Split front q back)
    {data : List UInt8} {len : UInt64} (hdata : data.length ≤ back.length)
    (hlen : len.toNat ≤ data.length) :
    ∃ v, b.buffer_.write b.beginWrite data = some v ∧
      ∃ rest, (({ b with buffer_ := v } : Buffer).hasWritten len).Split front
        (q ++ data.take len.toNat) rest := by
  have hr := h.reader
  have hw : b.beginWrite.toNat = (front ++ q).length := by
    rw [List.length_append]
    exact h.writer
  have htotal := h.length
  have hsize := b.buffer_.size_lt
  rw [List.length_append] at hw
  have hroom : b.beginWrite.toNat + data.length ≤ b.buffer_.data.length := by omega
  obtain ⟨v, hv, hvdata⟩ := CharVec.write_of_fits hroom
  refine ⟨v, hv, data.drop len.toNat ++ back.drop data.length, ?_, hr, ?_⟩
  · show v.data = _
    have htake : b.buffer_.data.take b.beginWrite.toNat = front ++ q := by
      rw [h.data, hw, ← List.length_append, List.take_left]
    have hdrop : b.buffer_.data.drop (b.beginWrite.toNat + data.length) = back.drop data.length := by
      rw [h.data, hw, ← List.length_append, ← List.drop_drop, List.drop_left]
    rw [hvdata, htake, hdrop]
    simp only [List.append_assoc]
    rw [← List.append_assoc (data.take len.toNat), List.take_append_drop]
  · show (b.writerIndex_ + len).toNat = _
    have hwriter : b.writerIndex_.toNat = front.length + q.length := h.writer
    rw [UInt64.toNat_add, List.length_append, List.length_take]
    omega

/-- `makeSpace` makes space. It compacts only when the reader has left more than `kCheapPrepend`
    bytes behind, so the bytes are copied forward to a place before their own. -/
theorem Split.makeSpace {b : Buffer} {front q back : List UInt8} (h : b.Split front q back)
    {len : UInt64} (hneed : back.length < len.toNat)
    (hsum : front.length + q.length + len.toNat < 2 ^ 64)
    (hsum8 : len.toNat + kCheapPrepend.toNat < 2 ^ 64) :
    ∃ b', b.makeSpace len = some b' ∧
      ∃ front' back', b'.Split front' q back' ∧ len.toNat ≤ back'.length ∧
        b.buffer_.data.length ≤ b'.buffer_.data.length := by
  have hr := h.reader
  have hw := h.writer
  have htotal := h.length
  have hsize := b.buffer_.size_lt
  have h8 : kCheapPrepend.toNat = 8 := rfl
  have hfree : b.writableBytes.toNat = back.length := by
    rw [toNat_writableBytes h.represents.writer_le]
    omega
  have hspare : (b.writableBytes + b.prependableBytes).toNat = back.length + front.length := by
    rw [UInt64.toNat_add, hfree, show b.prependableBytes.toNat = front.length from hr]
    omega
  have hwant : (len + kCheapPrepend).toNat = len.toNat + 8 := by
    rw [UInt64.toNat_add]
    omega
  unfold Buffer.makeSpace
  by_cases hc : b.writableBytes + b.prependableBytes < len + kCheapPrepend
  · have hnew : (b.writerIndex_ + len).toNat = front.length + q.length + len.toNat := by
      rw [UInt64.toNat_add]
      omega
    rw [if_pos hc]
    refine ⟨_, rfl, front, back ++ List.replicate (len.toNat - back.length) 0, ⟨?_, hr, hw⟩, ?_, ?_⟩
    · show b.buffer_.data.take _ ++ List.replicate _ 0 = _
      rw [List.take_of_length_le (by omega), hnew, h.data,
        show front.length + q.length + len.toNat - (front ++ q ++ back).length =
          len.toNat - back.length by simp only [List.length_append]; omega]
      simp only [List.append_assoc]
    · rw [List.length_append, List.length_replicate]
      omega
    · show _ ≤ (b.buffer_.data.take _ ++ List.replicate _ 0).length
      rw [List.length_append, List.length_take]
      simp only [List.length_replicate]
      omega
  · rw [UInt64.lt_iff_toNat_lt, hspare, hwant] at hc
    -- the free space behind was too small, so there must be more than 8 bytes in front
    have hfront : 8 < front.length := by omega
    have hbefore : ¬ (b.readerIndex_ ≤ kCheapPrepend ∧ kCheapPrepend < b.writerIndex_) := by
      rw [UInt64.le_iff_toNat_le]
      omega
    have hqlen : (b.writerIndex_ - b.readerIndex_).toNat = q.length := by
      rw [UInt64.toNat_sub_of_le _ _ (by rw [UInt64.le_iff_toNat_le]; omega)]
      omega
    have hread : b.buffer_.read b.readerIndex_ (b.writerIndex_ - b.readerIndex_) = some q :=
      h.represents.readable
    have hroom : kCheapPrepend.toNat + q.length ≤ b.buffer_.data.length := by omega
    obtain ⟨v, hv, hvdata⟩ := CharVec.write_of_fits hroom
    have hcopy : b.buffer_.copyWithin b.readerIndex_ b.writerIndex_ kCheapPrepend = some v := by
      rw [CharVec.copyWithin, if_neg hbefore, hread]
      exact hv
    have hvlen := CharVec.length_of_write hv
    have htake : (b.buffer_.data.take kCheapPrepend.toNat).length = 8 := by
      rw [List.length_take]
      omega
    rw [if_neg (by rw [UInt64.lt_iff_toNat_lt]; omega), hcopy]
    refine ⟨_, rfl, b.buffer_.data.take kCheapPrepend.toNat,
      b.buffer_.data.drop (kCheapPrepend.toNat + q.length), ⟨hvdata, ?_, ?_⟩, ?_, ?_⟩
    · rw [htake]
      rfl
    · show (kCheapPrepend + b.readableBytes).toNat = _
      rw [htake, UInt64.toNat_add, show b.readableBytes.toNat = q.length from hqlen]
      omega
    · rw [List.length_drop]
      omega
    · exact le_of_eq hvlen.symm

theorem Split.ensureWritableBytes {b : Buffer} {front q back : List UInt8}
    (h : b.Split front q back) {len : UInt64}
    (hsum : front.length + q.length + len.toNat < 2 ^ 64)
    (hsum8 : len.toNat + kCheapPrepend.toNat < 2 ^ 64) :
    ∃ b', b.ensureWritableBytes len = some b' ∧
      ∃ front' back', b'.Split front' q back' ∧ len.toNat ≤ back'.length ∧
        b.buffer_.data.length ≤ b'.buffer_.data.length := by
  have hw := h.writer
  have htotal := h.length
  have hfree : b.writableBytes.toNat = back.length := by
    rw [toNat_writableBytes h.represents.writer_le]
    omega
  unfold Buffer.ensureWritableBytes
  by_cases hc : b.writableBytes < len
  · rw [if_pos hc]
    rw [UInt64.lt_iff_toNat_lt, hfree] at hc
    exact h.makeSpace hc hsum hsum8
  · rw [if_neg hc]
    rw [UInt64.lt_iff_toNat_lt, hfree] at hc
    exact ⟨b, rfl, front, back, h, by omega, le_refl _⟩

/-! ## One operation -/

/-- The operations of one buffer. `write` stores `data` at `beginWrite()` and then calls
    `hasWritten(len)`; `retrieveUntil` is given the offset of its pointer from `begin()`. -/
inductive Op where
  | append (data : List UInt8)
  | ensureWritableBytes (len : UInt64)
  | write (data : List UInt8) (len : UInt64)
  | retrieve (len : UInt64)
  | retrieveUntil (stop : UInt64)
  | retrieveAll
  | retrieveAsString
  | prepend (data : List UInt8)

/-- The buffer after an operation, with the string it returned, if it returns one. -/
def apply (b : Buffer) : Op → Option (Buffer × Option (List UInt8))
  | .append data => some (b.append data, none)
  | .ensureWritableBytes len => (b.ensureWritableBytes len).map (·, none)
  | .write data len =>
    (b.buffer_.write b.beginWrite data).map fun v => ({ b with buffer_ := v }.hasWritten len, none)
  | .retrieve len => some (b.retrieve len, none)
  | .retrieveUntil stop => some (b.retrieveUntil stop, none)
  | .retrieveAll => some (b.retrieveAll, none)
  | .retrieveAsString => b.retrieveAsString.map fun r => (r.2, some r.1)
  | .prepend data => (b.prepend data).map (·, none)

/-- What callers owe: lengths within what the buffer says it has, and sums that fit a `size_t`. -/
def Allowed (b : Buffer) : Op → Prop
  | .append _ | .retrieveAll | .retrieveAsString => True
  | .ensureWritableBytes len => b.writerIndex_.toNat + len.toNat < 2 ^ 64 ∧
      len.toNat + kCheapPrepend.toNat < 2 ^ 64
  | .write data len => data.length ≤ b.writableBytes.toNat ∧ len.toNat ≤ data.length
  | .retrieve len => len ≤ b.readableBytes
  | .retrieveUntil stop => b.peek ≤ stop ∧ stop ≤ b.beginWrite
  | .prepend data => data.length ≤ b.prependableBytes.toNat

instance (b : Buffer) (op : Op) : Decidable (b.Allowed op) := by
  cases op <;> unfold Allowed <;> infer_instance

/-- What an operation is to the queue. -/
def Op.onQueue (b : Buffer) : Op → QueueOp UInt8
  | .append data => .pushBack data
  | .ensureWritableBytes _ => .keep
  | .write data len => .pushBack (data.take len.toNat)
  | .retrieve len => .drop len.toNat
  | .retrieveUntil stop => .drop (stop.toNat - b.peek.toNat)
  | .retrieveAll | .retrieveAsString => .takeAll
  | .prepend data => .pushFront data

/-- The string an operation returns, by the queue. -/
def Op.result (q : List UInt8) : Op → Option (List UInt8)
  | .retrieveAsString => some q
  | _ => none

/-- A call of `append` with something to append. -/
def Op.Appends : Op → Prop
  | .append data => data ≠ []
  | _ => False

instance (op : Op) : Decidable op.Appends := by
  cases op <;> unfold Op.Appends <;> infer_instance

/-- **One step.** On a buffer that stands for a queue, each operation the caller may use is defined
    and does to the queue what it should, unless it is an `append` of something. -/
theorem Represents.apply {b : Buffer} {q : List UInt8} (h : b.Represents q)
    (hsize : kCheapPrepend.toNat ≤ b.buffer_.data.length) {op : Op} (hop : b.Allowed op)
    (happend : ¬ op.Appends) :
    ∃ b', b.apply op = some (b', op.result q) ∧ b'.Represents ((op.onQueue b).apply q) ∧
      kCheapPrepend.toNat ≤ b'.buffer_.data.length := by
  obtain ⟨front, back, S⟩ := h.split
  have hw := S.writer
  have htotal := S.length
  have hwl := h.writer_le
  cases op with
  | append data =>
      obtain rfl : data = [] := by
        by_contra hne
        exact happend hne
      refine ⟨b, rfl, ?_, hsize⟩
      simpa [Op.onQueue, QueueOp.apply] using h
  | ensureWritableBytes len =>
      obtain ⟨b', hb', front', back', S', -, hlen⟩ := S.ensureWritableBytes
        (by rw [← hw]; exact hop.1) hop.2
      exact ⟨b', by simp [Buffer.apply, hb', Op.result], S'.represents, le_trans hsize hlen⟩
  | write data len =>
      have hfree := toNat_writableBytes hwl
      have hroom : data.length ≤ back.length := by
        have hin := hop.1
        omega
      obtain ⟨v, hv, rest, S'⟩ := S.write hroom hop.2
      exact ⟨_, by simp only [Buffer.apply, hv]; rfl, S'.represents,
        by rw [← CharVec.length_of_write hv] at hsize; exact hsize⟩
  | retrieve len =>
      have hlen : len.toNat ≤ q.length := by
        rw [length_readable h.readable]
        exact hop
      exact ⟨b.retrieve len, rfl, (S.retrieve hlen).represents, hsize⟩
  | retrieveUntil stop =>
      have hr := S.reader
      have hpeek : b.peek.toNat = b.readerIndex_.toNat := rfl
      have hwrite : b.beginWrite.toNat = b.writerIndex_.toNat := rfl
      have hstop : (stop - b.peek).toNat = stop.toNat - b.peek.toNat :=
        UInt64.toNat_sub_of_le _ _ hop.1
      have hin := UInt64.le_iff_toNat_le.1 hop.2
      have hlen : (stop - b.peek).toNat ≤ q.length := by omega
      have S' := S.retrieve hlen
      rw [hstop] at S'
      exact ⟨b.retrieveUntil stop, rfl, S'.represents, hsize⟩
  | retrieveAll => exact ⟨b.retrieveAll, rfl, (split_retrieveAll hsize).represents, hsize⟩
  | retrieveAsString =>
      refine ⟨b.retrieveAll, ?_, (split_retrieveAll hsize).represents, hsize⟩
      simp [Buffer.apply, retrieveAsString, h.readable, Op.result]
  | prepend data =>
      obtain ⟨b', hb', S'⟩ := S.prepend hop
      refine ⟨b', by simp [Buffer.apply, hb', Op.result], S'.represents, ?_⟩
      obtain ⟨v, hv, rfl⟩ := Option.map_eq_some_iff.1 hb'
      rw [← CharVec.length_of_write hv] at hsize
      exact hsize

/-- An `append` of something leaves the buffer as it is, so it then stands for the old queue. -/
theorem Represents.apply_append {b b' : Buffer} {q : List UInt8} (h : b.Represents q) {op : Op}
    (happend : op.Appends) {out : Option (List UInt8)} (hb' : b.apply op = some (b', out)) :
    ¬ b'.Represents ((op.onQueue b).apply q) := by
  cases op with
  | append data =>
      obtain ⟨rfl, -⟩ := Prod.mk.inj (Option.some.inj hb')
      intro h'
      have hsame := h'.readable.symm.trans h.readable
      simp only [Op.onQueue, QueueOp.apply, Option.some.injEq, List.append_right_eq_self] at hsame
      exact happend hsame
  | _ => exact absurd happend (by simp [Op.Appends])

end Buffer

/-! ## Any number of buffers

`swap` needs two buffers, so the machine is a family of buffers, each newly constructed over two
words of memory. Beside each buffer stands its queue, and beside the strings the code has returned
those the queues would have returned. -/

variable {ι : Type*}

structure Buffers (ι : Type*) where
  buffer : ι → Buffer
  queue : ι → List UInt8
  returned : List (List UInt8)
  expected : List (List UInt8)

inductive BufferCall (ι : Type*) where
  | on (i : ι) (op : Buffer.Op)
  | swap (i j : ι)

namespace Buffers

/-- New buffers, over the words found in memory. -/
def start (reader writer : ι → UInt64) : Buffers ι :=
  { buffer := fun i => Buffer.new (reader i) (writer i)
    queue := fun _ => []
    returned := []
    expected := [] }

variable [DecidableEq ι]

def step (s : Buffers ι) : BufferCall ι → Option (Buffers ι)
  | .on i op =>
    ((s.buffer i).apply op).map fun r =>
      { buffer := Function.update s.buffer i r.1
        queue := Function.update s.queue i ((op.onQueue (s.buffer i)).apply (s.queue i))
        returned := s.returned ++ r.2.toList
        expected := s.expected ++ (op.result (s.queue i)).toList }
  | .swap i j =>
    let bufs := (s.buffer i).swap (s.buffer j)
    some { s with buffer := Function.update (Function.update s.buffer i bufs.1) j bufs.2
                  queue := Function.update (Function.update s.queue i (s.queue j)) j (s.queue i) }

def Allowed (s : Buffers ι) : BufferCall ι → Prop
  | .on i op => (s.buffer i).Allowed op
  | .swap _ _ => True

instance (s : Buffers ι) (call : BufferCall ι) : Decidable (s.Allowed call) := by
  cases call <;> unfold Allowed <;> infer_instance

/-- Every buffer stands for its queue, the strings returned are the right ones, and whatever the
    callers may do next is defined. -/
structure Refines (s : Buffers ι) : Prop where
  represents : ∀ i, (s.buffer i).Represents (s.queue i)
  returned : s.returned = s.expected
  defined : ∀ call, s.Allowed call → (s.step call).isSome

/-- A call of `append` with something to append. -/
def Appends : BufferCall ι → Prop
  | .on _ op => op.Appends
  | .swap _ _ => False

/-- The vectors never get smaller than the prepend area. -/
def Inv (s : Buffers ι) : Prop := ∀ i, Buffer.kCheapPrepend.toNat ≤ (s.buffer i).buffer_.data.length

/-- Refinement is a matter of the contents: where it holds, the next call is defined. -/
theorem Refines.of_represents {s : Buffers ι} (I : s.Inv)
    (h : ∀ i, (s.buffer i).Represents (s.queue i)) (hret : s.returned = s.expected) : s.Refines := by
  refine ⟨h, hret, fun call hcall => ?_⟩
  cases call with
  | swap i j => rfl
  | on i op =>
      rw [step, Option.isSome_map]
      by_cases happend : op.Appends
      · cases op with
        | append data => rfl
        | _ => exact absurd happend (by simp [Buffer.Op.Appends])
      · obtain ⟨b', hb', -⟩ := (h i).apply (I i) hcall happend
        rw [hb']
        rfl

/-- A call other than an `append` of something keeps invariant and refinement. -/
theorem step_refines {s s' : Buffers ι} {call : BufferCall ι} (I : s.Inv) (h : s.Refines)
    (hstep : Run.restrict Allowed step s call = some s') (happend : ¬ Appends call) :
    s'.Inv ∧ s'.Refines := by
  obtain ⟨hallowed, hstep⟩ := Run.restrict_eq_some.1 hstep
  cases call with
  | on i op =>
      obtain ⟨b', hb', hrep, hsize⟩ := (h.represents i).apply (I i) hallowed happend
      rw [step, hb', Option.map_some, Option.some.injEq] at hstep
      subst hstep
      have hinv : ∀ k, Buffer.kCheapPrepend.toNat ≤
          (Function.update s.buffer i b' k).buffer_.data.length := by
        intro k
        by_cases hk : k = i
        · subst hk
          rwa [Function.update_self]
        · rw [Function.update_of_ne hk]
          exact I k
      refine ⟨hinv, Refines.of_represents hinv (fun k => ?_) (by rw [h.returned])⟩
      by_cases hk : k = i
      · subst hk
        simpa using hrep
      · simpa [Function.update_of_ne hk] using h.represents k
  | swap i j =>
      rw [step, Option.some.injEq] at hstep
      -- each place has the buffer and the queue of one and the same place before
      have hfrom : ∀ k, ∃ m, s'.buffer k = s.buffer m ∧ s'.queue k = s.queue m := by
        intro k
        subst hstep
        by_cases hkj : k = j
        · subst hkj
          exact ⟨i, by simp [Buffer.swap]⟩
        · by_cases hki : k = i
          · subst hki
            exact ⟨j, by simp [Buffer.swap, Function.update_of_ne hkj]⟩
          · exact ⟨k, by simp [Function.update_of_ne hkj, Function.update_of_ne hki]⟩
      have hinv : s'.Inv := by
        intro k
        obtain ⟨m, hm, -⟩ := hfrom k
        rw [hm]
        exact I m
      refine ⟨hinv, Refines.of_represents hinv (fun k => ?_) (by subst hstep; exact h.returned)⟩
      obtain ⟨m, hm, hmq⟩ := hfrom k
      rw [hm, hmq]
      exact h.represents m

/-- An `append` of something ends the refinement. -/
theorem step_appends {s s' : Buffers ι} {call : BufferCall ι} (h : s.Refines)
    (hstep : Run.restrict Allowed step s call = some s') (happend : Appends call) :
    ¬ s'.Refines := by
  obtain ⟨-, hstep⟩ := Run.restrict_eq_some.1 hstep
  cases call with
  | on i op =>
      simp only [step, Option.map_eq_some_iff] at hstep
      obtain ⟨⟨b', out⟩, hb', rfl⟩ := hstep
      intro h'
      have hrep := h'.represents i
      simp only [Function.update_self] at hrep
      exact (h.represents i).apply_append happend hb' hrep
  | swap i j => exact absurd happend (by simp [Appends])

omit [DecidableEq ι] in
/-- A new buffer stands for the empty queue if the words it found are equal and in range. -/
theorem represents_new_iff (r w : UInt64) :
    (Buffer.new r w).Represents [] ↔ r = w ∧ w.toNat ≤ 1032 := by
  have hlen : (Buffer.new r w).buffer_.data.length = 1032 := List.length_replicate
  constructor
  · intro h
    have hempty := Buffer.length_readable h.readable
    rw [Buffer.toNat_readableBytes h.reader_le, List.length_nil] at hempty
    have hr : r.toNat ≤ w.toNat := h.reader_le
    have hw : w.toNat ≤ (Buffer.new r w).buffer_.data.length := h.writer_le
    have hzero : 0 = w.toNat - r.toNat := hempty
    exact ⟨UInt64.toNat_inj.1 (by omega), by omega⟩
  · rintro ⟨rfl, hw⟩
    exact ⟨⟨le_refl _, by rw [hlen]; exact hw⟩,
      Buffer.readable_of_empty (Buffer.readableBytes_eq_zero.2 rfl)⟩

omit [DecidableEq ι] in
theorem start_inv (reader writer : ι → UInt64) : (start reader writer).Inv := by
  intro i
  have hlen : ((start reader writer).buffer i).buffer_.data.length = 1032 := List.length_replicate
  rw [hlen]
  decide

theorem start_refines_iff (reader writer : ι → UInt64) : (start reader writer).Refines ↔
    ∀ i, reader i = writer i ∧ (writer i).toNat ≤ 1032 :=
  ⟨fun h i => (represents_new_iff _ _).1 (h.represents i), fun h =>
    Refines.of_represents (start_inv reader writer) (fun i => (represents_new_iff _ _).2 (h i)) rfl⟩

/-- **When a buffer is a byte queue.** Over all runs of calls within the callers' rules, the buffers
    stand for their queues all along exactly if each was constructed over two equal words of at most
    1032, and no `append` gets anything to append. -/
theorem refines_iff (reader writer : ι → UInt64) (calls : List (BufferCall ι)) :
    Run.Along (Run.restrict Allowed step) Refines (start reader writer) calls ↔
      (∀ i, reader i = writer i ∧ (writer i).toNat ≤ 1032) ∧
      Run.Meets (Run.restrict Allowed step) (fun _ call => ¬ Appends call) (start reader writer)
        calls := by
  rw [← start_refines_iff]
  -- an `append` leaves the sizes alone too, but there the run is over
  refine Run.along_iff_meets (I := Inv) ?_ ?_ (start_inv reader writer) calls
  · intro s call s' I h hstep h'
    by_cases happend : Appends call
    · exact absurd h' (step_appends h hstep happend)
    · exact (step_refines I h hstep happend).1
  · intro s call s' I h hstep
    constructor
    · intro h' happend
      exact step_appends h hstep happend h'
    · intro happend
      exact (step_refines I h hstep happend).2

/-- Over the words the constructor should have set, one `append` of one byte: nothing is stored. -/
theorem append_stores_nothing :
    ¬ Run.Along (Run.restrict Allowed step) Refines
      (start (fun _ : Unit => 8) (fun _ => 8)) [.on () (.append [97])] := by
  intro h
  have hstep : Run.restrict Allowed step (start (fun _ : Unit => 8) (fun _ => 8))
      (.on () (.append [97])) = some
      { buffer := fun _ => Buffer.new 8 8, queue := fun _ => [97], returned := [], expected := [] } :=
    rfl
  have hread := ((h.2 _ hstep).head.represents ()).readable
  have hempty : (Buffer.new 8 8).readable = some [] := rfl
  rw [hempty] at hread
  exact absurd hread (by simp)

end Buffers

end WwjMuduo
