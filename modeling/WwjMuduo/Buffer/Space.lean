import WwjMuduo.Buffer.ByteQueue

set_option autoImplicit false

/-! # Room in a buffer

The two functions that move a buffer's bytes to make or give back room. `ensureWritableBytes` grows
the vector or moves the queue down to `kCheapPrepend`, and sets the indices accordingly. `shrink`
puts the queue at `kCheapPrepend` of a new vector and leaves the indices where they were. -/

namespace WwjMuduo

namespace Buffer

/-! ## Making room -/

/-- `ensureWritableBytes(len)` takes the compacting branch of `makeSpace`. -/
def Compacts (b : Buffer) (len : UInt64) : Prop :=
  b.writableBytes < len ∧ ¬ b.writableBytes + b.prependableBytes < len + kCheapPrepend

instance (b : Buffer) (len : UInt64) : Decidable (b.Compacts len) := by
  unfold Compacts
  infer_instance

/-- What the compacting branch does: the copy, from `readerIndex_` to `kCheapPrepend`. -/
theorem Compacts.ensureWritableBytes_eq {b : Buffer} {len : UInt64} (h : b.Compacts len) :
    b.ensureWritableBytes len =
      (b.buffer_.copyWithin b.readerIndex_ b.writerIndex_ kCheapPrepend).map fun v =>
        { buffer_ := v, readerIndex_ := kCheapPrepend,
          writerIndex_ := kCheapPrepend + b.readableBytes } := by
  rw [ensureWritableBytes, if_pos h.1, makeSpace, if_neg h.2]

/-- The free bytes of both ends together never wrap. -/
theorem toNat_spare {b : Buffer} (h : b.WellFormed) :
    (b.writableBytes + b.prependableBytes).toNat =
      b.writableBytes.toNat + b.readerIndex_.toNat := by
  have hr := h.reader_le
  have hw := h.writer_le
  have hsize := b.buffer_.size_lt
  have hfree := toNat_writableBytes hw
  have hfront : b.prependableBytes.toNat = b.readerIndex_.toNat := rfl
  rw [UInt64.toNat_add, hfront]
  omega

/-- Compacting moves the queue down. By the first test the room behind it is less than `len`, by the
    second both ends together have `len + kCheapPrepend`; so the front has more than
    `kCheapPrepend`. -/
theorem Compacts.dest_lt {b : Buffer} {len : UInt64} (hc : b.Compacts len) (h : b.WellFormed)
    (hsum : len.toNat + kCheapPrepend.toNat < 2 ^ 64) : kCheapPrepend < b.readerIndex_ := by
  obtain ⟨hneed, henough⟩ := hc
  have hspare := toNat_spare h
  have hwant : (len + kCheapPrepend).toNat = len.toNat + kCheapPrepend.toNat := by
    rw [UInt64.toNat_add]
    omega
  rw [UInt64.lt_iff_toNat_lt] at hneed henough ⊢
  omega

/-- **Making room.** After `ensureWritableBytes(len)` there is room for `len` bytes, the readable
    bytes are the ones before, the indices are in order; and where it compacts, the copy goes to a
    place before its source, also with the reader below `kCheapPrepend`. -/
theorem ensureWritableBytes_makes_room {b : Buffer} {len : UInt64} (h : b.WellFormed)
    (hsum : b.writerIndex_.toNat + len.toNat < 2 ^ 64)
    (hsum8 : len.toNat + kCheapPrepend.toNat < 2 ^ 64) :
    (∃ b', b.ensureWritableBytes len = some b' ∧ len ≤ b'.writableBytes ∧
      b'.readable = b.readable ∧ b'.WellFormed) ∧
    (b.Compacts len → kCheapPrepend < b.readerIndex_) := by
  obtain ⟨q, hrep⟩ : ∃ q, b.Represents q := ⟨_, h, h.readable_eq⟩
  obtain ⟨front, back, S⟩ := hrep.split
  obtain ⟨b', hb', front', back', S', hroom, -⟩ := S.ensureWritableBytes
    (by rw [← S.writer]; exact hsum) hsum8
  have hwl := S'.represents.writer_le
  have hw := S'.writer
  have hlen := S'.length
  refine ⟨⟨b', hb', ?_, ?_, S'.represents.toWellFormed⟩, fun hc => hc.dest_lt h hsum8⟩
  · rw [UInt64.le_iff_toNat_le, toNat_writableBytes hwl]
    omega
  · rw [S'.represents.readable, hrep.readable]

/-- Sixteen bytes with the queue near the end: four more need the room in front. -/
theorem ensureWritableBytes_makes_room_compacting :
    (∃ b', (Buffer.mk ⟨List.replicate 16 7, by decide⟩ 12 14).ensureWritableBytes 4 = some b' ∧
      4 ≤ b'.writableBytes ∧
      b'.readable = (Buffer.mk ⟨List.replicate 16 7, by decide⟩ 12 14).readable ∧
      b'.WellFormed) ∧
    ((Buffer.mk ⟨List.replicate 16 7, by decide⟩ 12 14).Compacts 4 → kCheapPrepend < 12) :=
  ensureWritableBytes_makes_room ⟨by decide, by decide⟩ (by decide) (by decide)

/-! ## Giving room back -/

/-- The new vector has the queue at `kCheapPrepend`, and `reserve` bytes behind it. -/
theorem shrink_eq {b : Buffer} {reserve : UInt64} {q : List UInt8} (h : b.Represents q)
    (hsum : kCheapPrepend.toNat + b.readableBytes.toNat + reserve.toNat < 2 ^ 64) :
    ∃ v, b.shrink reserve = some { b with buffer_ := v } ∧
      v.data = List.replicate 8 0 ++ q ++ List.replicate reserve.toNat 0 := by
  have h8 : kCheapPrepend.toNat = 8 := rfl
  have hq := length_readable h.readable
  have hsize : (kCheapPrepend + b.readableBytes + reserve).toNat = 8 + q.length + reserve.toNat := by
    rw [UInt64.toNat_add, UInt64.toNat_add]
    omega
  have hlen : (CharVec.zeros (kCheapPrepend + b.readableBytes + reserve)).data =
      List.replicate (8 + q.length + reserve.toNat) 0 := by
    rw [← hsize]
    rfl
  have hfits : kCheapPrepend.toNat + q.length ≤
      (CharVec.zeros (kCheapPrepend + b.readableBytes + reserve)).data.length := by
    rw [hlen, List.length_replicate]
    omega
  obtain ⟨v, hv, hdata⟩ := CharVec.write_of_fits hfits
  refine ⟨v, ?_, ?_⟩
  · rw [shrink, h.readable, Option.bind_some, hv]
    rfl
  · rw [hdata, hlen, h8, List.take_replicate, List.drop_replicate]
    congr 3 <;> omega

/-- Where the reader stood at `kCheapPrepend`, the indices are right for the new vector too. -/
theorem Represents.shrink_split {b : Buffer} {q : List UInt8} (h : b.Represents q) {v : CharVec}
    {n : ℕ} (hdata : v.data = List.replicate 8 0 ++ q ++ List.replicate n 0)
    (hr : b.readerIndex_ = kCheapPrepend) :
    ({ b with buffer_ := v } : Buffer).Split (List.replicate 8 0) q (List.replicate n 0) := by
  have hq := length_readable h.readable
  rw [toNat_readableBytes h.reader_le] at hq
  have hle := h.reader_le
  have h8 : b.readerIndex_.toNat = 8 := by
    rw [hr]
    rfl
  exact ⟨hdata, by rw [List.length_replicate]; exact h8,
    by rw [List.length_replicate]; show b.writerIndex_.toNat = _; omega⟩

/-- The buffer after a `shrink` is in order only if the reader was within `reserve` bytes of
    `kCheapPrepend`, and then its room is off by the reader's distance from it. -/
theorem room_after_shrink {b b' : Buffer} {reserve : UInt64} (h : b.WellFormed)
    (hsum : kCheapPrepend.toNat + b.readableBytes.toNat + reserve.toNat < 2 ^ 64)
    (hb' : b.shrink reserve = some b') (h' : b'.WellFormed) :
    b'.writableBytes.toNat + b.readerIndex_.toNat = reserve.toNat + kCheapPrepend.toNat := by
  obtain ⟨v, hv, hdata⟩ := shrink_eq ⟨h, h.readable_eq⟩ hsum
  rw [hv, Option.some.injEq] at hb'
  subst hb'
  have h8 : kCheapPrepend.toNat = 8 := rfl
  have hr := h.reader_le
  have hw := h.writer_le
  have hlen : v.data.length = 8 + (b.writerIndex_.toNat - b.readerIndex_.toNat) + reserve.toNat := by
    rw [hdata]
    simp only [List.length_append, List.length_replicate, List.length_take, List.length_drop]
    omega
  have hw' : b.writerIndex_.toNat ≤ v.data.length := h'.writer_le
  rw [toNat_writableBytes h'.writer_le]
  show v.data.length - b.writerIndex_.toNat + _ = _
  omega

/-- **Shrinking.** `shrink(reserve)` keeps the readable bytes, leaves the indices in order and
    `reserve` bytes of room exactly if the reader stands at `kCheapPrepend`. -/
theorem shrink_keeps_iff {b : Buffer} {reserve : UInt64} (h : b.WellFormed)
    (hsum : kCheapPrepend.toNat + b.readableBytes.toNat + reserve.toNat < 2 ^ 64) :
    (∃ b', b.shrink reserve = some b' ∧ b'.readable = b.readable ∧ b'.WellFormed ∧
      b'.writableBytes = reserve) ↔ b.readerIndex_ = kCheapPrepend := by
  constructor
  · rintro ⟨b', hb', -, h', hroom⟩
    have hoff := room_after_shrink h hsum hb' h'
    rw [hroom] at hoff
    exact UInt64.toNat_inj.1 (by omega)
  · intro hr
    obtain ⟨q, hrep⟩ : ∃ q, b.Represents q := ⟨_, h, h.readable_eq⟩
    obtain ⟨v, hv, hdata⟩ := shrink_eq hrep hsum
    have S := hrep.shrink_split hdata hr
    have hwl := S.represents.writer_le
    have hw := S.writer
    have hlen := S.length
    refine ⟨_, hv, ?_, S.represents.toWellFormed, ?_⟩
    · rw [S.represents.readable, hrep.readable]
    · rw [← UInt64.toNat_inj, toNat_writableBytes hwl, hlen, hw, Nat.add_sub_cancel_left,
        List.length_replicate]

/-- A buffer that nothing was read from, shrunk to four spare bytes. -/
theorem shrink_keeps_iff_fresh :
    (∃ b', (Buffer.mk ⟨List.replicate 16 7, by decide⟩ 8 10).shrink 4 = some b' ∧
      b'.readable = (Buffer.mk ⟨List.replicate 16 7, by decide⟩ 8 10).readable ∧ b'.WellFormed ∧
      b'.writableBytes = 4) ↔ (8 : UInt64) = kCheapPrepend :=
  shrink_keeps_iff ⟨by decide, by decide⟩ (by decide)

/-- One byte has been read, and the next one is lost: the queue `[2, 3]` reads `[3, 0]` afterwards. -/
theorem shrink_loses_a_byte :
    ∃ b b', b = Buffer.mk ⟨[0, 0, 0, 0, 0, 0, 0, 0, 1, 2, 3], by decide⟩ 9 11 ∧ b.WellFormed ∧
      b.readable = some [2, 3] ∧ b.shrink 4 = some b' ∧ b'.readable = some [3, 0] :=
  ⟨_, _, rfl, ⟨by decide, by decide⟩, rfl, rfl, rfl⟩

end Buffer

end WwjMuduo
