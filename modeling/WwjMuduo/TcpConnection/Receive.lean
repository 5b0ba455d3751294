import WwjMuduo.Lib.Run
import WwjMuduo.TcpConnection

set_option autoImplicit false

/-! # The receive path

A run is a sequence of `handleRead` calls on a connection nobody retrieves from, each with the chunk its
`readv` returned. The input buffer should hold all chunks so far, and each call should end in one
`messageCallback` that sees them.

`handleRead` has an empty branch for bytes that have arrived, so no callback is ever made. The
contents fail separately: the part of a chunk that does not fit the free space goes through
`Buffer::append`, which stores nothing, and before the first chunk the indices are whatever was in
memory. -/

namespace WwjMuduo

/-- The bytes of one `readv` that returned any. -/
abbrev Chunk := {bytes : List UInt8 // bytes ≠ []}

namespace Buffer

/-- What `readFd` does with a chunk on a well formed buffer: it keeps the part that fits the free
    space. -/
theorem WellFormed.readFd {b : Buffer} (h : b.WellFormed) {bytes : List UInt8}
    (hb : b.readable = some bytes) {chunk : List UInt8}
    (hlen : chunk.length ≤ b.writableBytes.toNat + extrabufSize) :
    ∃ b' : Buffer, b.readFd (.bytes chunk) = some (b', (chunk.length : ℤ), none) ∧ b'.WellFormed ∧
      b'.readable = some (bytes ++ chunk.take b.writableBytes.toNat) ∧
      b'.readerIndex_ = b.readerIndex_ ∧ b'.buffer_.data.length = b.buffer_.data.length := by
  have hfree := toNat_writableBytes h.writer_le
  have hwl := h.writer_le
  let stored := chunk.take b.writableBytes.toNat
  have hstored : stored.length = min b.writableBytes.toNat chunk.length := List.length_take
  have hroom : b.beginWrite.toNat + stored.length ≤ b.buffer_.data.length := by
    show b.writerIndex_.toNat + _ ≤ _
    omega
  obtain ⟨v, hv, -⟩ := CharVec.write_of_fits hroom
  have hvlen := CharVec.length_of_write hv
  unfold Buffer.readFd
  simp only
  rw [if_pos hlen, show b.buffer_.write b.beginWrite (chunk.take b.writableBytes.toNat) = some v
    from hv]
  by_cases hfits : chunk.length ≤ b.writableBytes.toNat
  · have hbound := b.buffer_.size_lt
    have hw : (b.writerIndex_ + UInt64.ofNat chunk.length).toNat =
        b.writerIndex_.toNat + stored.length := by
      rw [UInt64.toNat_add, UInt64.toNat_ofNat', hstored, Nat.min_eq_right hfits]
      omega
    obtain ⟨hwf, hread⟩ := readable_after_write h hv hw hb
    exact ⟨_, by simp only [Option.map_some, if_pos hfits], hwf, hread, rfl, hvlen⟩
  · -- The rest went to `extrabuf`, and `append` drops it.
    have hw : v.size.toNat = b.writerIndex_.toNat + stored.length := by
      rw [CharVec.toNat_size, hvlen, hstored]
      omega
    obtain ⟨hwf, hread⟩ := readable_after_write h hv hw hb
    exact ⟨_, by simp only [Option.map_some, if_neg hfits, append_eq], hwf, hread, rfl, hvlen⟩

/-- With its write index outside the vector, a buffer cannot take a chunk: the free space wraps
    around to a positive number of bytes, which `readv` stores outside. -/
theorem readFd_outside {b : Buffer} (h : b.buffer_.data.length < b.writerIndex_.toNat)
    {chunk : List UInt8} (hne : chunk ≠ []) : b.readFd (.bytes chunk) = none := by
  have hwritable : b.writableBytes.toNat ≠ 0 := by
    unfold writableBytes
    rw [UInt64.toNat_sub, CharVec.toNat_size]
    have := b.writerIndex_.toNat_lt
    omega
  have hstored : chunk.take b.writableBytes.toNat ≠ [] := by
    rw [Ne, List.take_eq_nil_iff]
    exact not_or.2 ⟨hwritable, hne⟩
  have hwrite : b.buffer_.write b.beginWrite (chunk.take b.writableBytes.toNat) = none := by
    rw [Option.eq_none_iff_forall_not_mem]
    intro v hv
    have hin := ((CharVec.write_eq_some hstored).1 hv).1
    have : b.beginWrite.toNat = b.writerIndex_.toNat := rfl
    omega
  unfold Buffer.readFd
  simp only [hwrite, Option.map_none, ite_self]

end Buffer

namespace TcpConnection

/-- One `handleRead` whose `readv` returned a chunk. -/
def receive (c : TcpConnection) (chunk : Chunk) : Option TcpConnection :=
  c.handleRead (.bytes chunk.1)

/-- The chunks, in order. -/
def bytesOf (chunks : List Chunk) : List UInt8 := (chunks.map Subtype.val).flatten

/-- What the input buffer held at each `messageCallback`. -/
def messages : List Effect → List (Option (List UInt8))
  | [] => []
  | .messageCallback readable :: es => readable :: messages es
  | _ :: es => messages es

/-- The input buffer holds the bytes of the chunks so far. -/
def Holds (c : TcpConnection) (chunks : List Chunk) : Prop :=
  c.inputBuffer_.readable = some (bytesOf chunks)

/-- There was one `messageCallback` for each chunk, and it saw the chunks up to that one. -/
def Notifies (c : TcpConnection) (chunks : List Chunk) : Prop :=
  messages c.effects = (List.range chunks.length).map fun i => some (bytesOf (chunks.take (i + 1)))

/-- `P` holds after each call of a sequence, which is defined up to there. -/
def AfterEach (P : TcpConnection → List Chunk → Prop) (c : TcpConnection) (chunks : List Chunk) :
    Prop :=
  ∀ pre, pre <+: chunks → pre ≠ [] → ∃ c', Run.run receive c pre = some c' ∧ P c' pre

theorem bytesOf_cons (chunk : Chunk) (chunks : List Chunk) :
    bytesOf (chunk :: chunks) = chunk.1 ++ bytesOf chunks := rfl

theorem bytesOf_length_le_of_prefix {pre chunks : List Chunk} (h : pre <+: chunks) :
    (bytesOf pre).length ≤ (bytesOf chunks).length := by
  obtain ⟨rest, rfl⟩ := h
  simp [bytesOf]

/-! ## The callback -/

/-- What a `handleRead` that has read bytes does: it stores them, and nothing else. -/
theorem receive_eq_some {c c' : TcpConnection} {chunk : Chunk} (h : c.receive chunk = some c') :
    ∃ b, c.inputBuffer_.readFd (.bytes chunk.1) = some (b, (chunk.1.length : ℤ), none) ∧
      c' = { c with inputBuffer_ := b, effects := c.effects ++ [.readv chunk.1] } := by
  unfold receive handleRead at h
  obtain ⟨⟨b, n, e⟩, hread, hc⟩ := Option.map_eq_some_iff.1 h
  obtain ⟨rfl, rfl⟩ := Buffer.readFd_bytes hread
  have hpos : (0 : ℤ) < chunk.1.length := by
    have := List.length_pos_of_ne_nil chunk.2
    omega
  refine ⟨b, hread, ?_⟩
  simp only [if_pos hpos] at hc
  exact hc.symm

@[simp]
theorem messages_append_readv (es : List Effect) (chunk : List UInt8) :
    messages (es ++ [.readv chunk]) = messages es := by
  induction es with
  | nil => rfl
  | cons e es ih =>
      cases e with
      | messageCallback readable => simp [messages, ih]
      | _ => simpa [messages] using ih

/-- However many chunks arrive, there is no `messageCallback`. -/
theorem messages_run {c c' : TcpConnection} {chunks : List Chunk}
    (h : Run.run receive c chunks = some c') : messages c'.effects = messages c.effects := by
  refine Run.inv_run (I := fun d => messages d.effects = messages c.effects) ?_ rfl h
  intro d chunk d' hd hstep
  obtain ⟨b, -, rfl⟩ := receive_eq_some hstep
  rw [← hd]
  exact messages_append_readv ..

/-! ## The contents -/

/-- A buffer whose indices are in order, that nobody has read from since its reader index was `i`,
    and that has never grown. -/
def Fixed (i : UInt64) (b : Buffer) : Prop :=
  b.WellFormed ∧ b.readerIndex_ = i ∧ b.buffer_.data.length = 1032

/-- A chunk taken by such a buffer: it keeps what fits the free space. -/
theorem Fixed.receive {c : TcpConnection} {i : UInt64} (h : Fixed i c.inputBuffer_)
    {bytes : List UInt8} (hb : c.inputBuffer_.readable = some bytes) (chunk : Chunk)
    (hlen : chunk.1.length ≤ c.inputBuffer_.writableBytes.toNat + Buffer.extrabufSize) :
    ∃ c', c.receive chunk = some c' ∧ Fixed i c'.inputBuffer_ ∧
      c'.inputBuffer_.readable = some (bytes ++ chunk.1.take c.inputBuffer_.writableBytes.toNat) := by
  obtain ⟨hwf, hreader, hsize⟩ := h
  obtain ⟨b, hread, hwf', hbytes, hreader', hsize'⟩ := hwf.readFd hb hlen
  obtain ⟨c', hc'⟩ : ∃ c', c.receive chunk = some c' := by
    unfold TcpConnection.receive handleRead
    rw [hread]
    exact ⟨_, rfl⟩
  obtain ⟨b₁, hread₁, rfl⟩ := receive_eq_some hc'
  rw [hread, Option.some.injEq, Prod.mk.injEq] at hread₁
  obtain ⟨rfl, -⟩ := hread₁
  exact ⟨_, hc', ⟨hwf', hreader'.trans hreader, hsize'.trans hsize⟩, hbytes⟩

/-- A run on such a buffer keeps it so. -/
theorem Fixed.run {c c' : TcpConnection} {i : UInt64} (h : Fixed i c.inputBuffer_)
    {chunks : List Chunk} (hrun : Run.run TcpConnection.receive c chunks = some c') :
    Fixed i c'.inputBuffer_ := by
  refine Run.inv_run (I := fun d => Fixed i d.inputBuffer_) ?_ h hrun
  intro d chunk d' hd hstep
  obtain ⟨b, hread, -⟩ := receive_eq_some hstep
  have hlen : chunk.1.length ≤ d.inputBuffer_.writableBytes.toNat + Buffer.extrabufSize := by
    unfold Buffer.readFd at hread
    simp only at hread
    by_contra hlt
    rw [if_neg hlt] at hread
    exact absurd hread (by simp)
  obtain ⟨d₁, hd₁, hfixed, -⟩ := hd.receive hd.1.readable_eq chunk hlen
  rw [hstep, Option.some.injEq] at hd₁
  exact hd₁ ▸ hfixed

/-- Such a buffer never holds more than lies behind its reader index. -/
theorem Fixed.length_le {i : UInt64} {b : Buffer} (h : Fixed i b) {bytes : List UInt8}
    (hb : b.readable = some bytes) : i.toNat + bytes.length ≤ 1032 := by
  obtain ⟨hwf, rfl, hsize⟩ := h
  have hlen := Buffer.length_readable hb
  have hr := hwf.reader_le
  have hw := hwf.writer_le
  rw [Buffer.toNat_readableBytes hr] at hlen
  omega

/-- Chunks that all fit are all kept. -/
theorem Fixed.keeps {c : TcpConnection} {i : UInt64} (h : Fixed i c.inputBuffer_)
    {bytes : List UInt8} (hb : c.inputBuffer_.readable = some bytes) (chunks : List Chunk)
    (hfit : i.toNat + bytes.length + (bytesOf chunks).length ≤ 1032) :
    ∃ c', Run.run TcpConnection.receive c chunks = some c' ∧
      c'.inputBuffer_.readable = some (bytes ++ bytesOf chunks) := by
  induction chunks generalizing c bytes with
  | nil => exact ⟨c, rfl, by rw [hb]; simp [bytesOf]⟩
  | cons chunk chunks ih =>
      rw [bytesOf_cons, List.length_append] at hfit
      have hfree : c.inputBuffer_.writableBytes.toNat = 1032 - (i.toNat + bytes.length) := by
        have hlen := Buffer.length_readable hb
        have hr := h.1.reader_le
        rw [Buffer.toNat_readableBytes hr] at hlen
        rw [Buffer.toNat_writableBytes h.1.writer_le, h.2.2]
        rw [h.2.1] at hlen hr
        omega
      obtain ⟨c₁, hc₁, hfixed, hb₁⟩ := h.receive hb chunk (by omega)
      rw [List.take_of_length_le (by omega)] at hb₁
      obtain ⟨c', hrun, hb'⟩ := ih hfixed hb₁ (by rw [List.length_append]; omega)
      refine ⟨c', Run.run_cons_eq_some.2 ⟨c₁, hc₁, hrun⟩, ?_⟩
      rw [hb', bytesOf_cons, List.append_assoc]

/-! ## A connection that has just been established -/

section Established

variable (memory : Uninitialised) (loop : ℕ) (name : String) (sockfd : ℤ)
  (localAddr peerAddr : InetAddress)

/-- If the memory of the buffer's two indices held equal values, the buffer holds every chunk after
    every call exactly if there is none, or they all fit behind the index. -/
theorem holds_iff (h : memory.inputReader = memory.inputWriter) (chunks : List Chunk) :
    AfterEach Holds (new memory loop name sockfd localAddr peerAddr).connectEstablished chunks ↔
      chunks = [] ∨ memory.inputReader.toNat + (bytesOf chunks).length ≤ 1032 := by
  let c := (new memory loop name sockfd localAddr peerAddr).connectEstablished
  have hsize : c.inputBuffer_.buffer_.data.length = 1032 := List.length_replicate
  have hreadable : c.inputBuffer_.readable = some [] :=
    Buffer.readable_of_empty (Buffer.readableBytes_eq_zero.2 h)
  have hfixed (hi : memory.inputReader.toNat ≤ 1032) : Fixed memory.inputReader c.inputBuffer_ := by
    refine ⟨⟨?_, ?_⟩, rfl, hsize⟩
    · show memory.inputReader.toNat ≤ memory.inputWriter.toNat
      rw [h]
    · rw [hsize]
      show memory.inputWriter.toNat ≤ 1032
      rw [← h]
      exact hi
  constructor
  · intro hall
    by_cases hnil : chunks = []
    · exact .inl hnil
    right
    by_cases hi : memory.inputReader.toNat ≤ 1032
    · obtain ⟨c', hrun, hholds⟩ := hall chunks (List.prefix_refl _) hnil
      exact (Fixed.run (hfixed hi) hrun).length_le hholds
    · -- The write index lies outside the vector, so already the first chunk is stored outside.
      exfalso
      obtain ⟨chunk, rest, rfl⟩ := List.exists_cons_of_ne_nil hnil
      obtain ⟨c', hrun, -⟩ := hall [chunk] ⟨rest, rfl⟩ (List.cons_ne_nil _ _)
      rw [Run.run_singleton] at hrun
      obtain ⟨b, hread, -⟩ := receive_eq_some hrun
      rw [Buffer.readFd_outside (by rw [hsize]; show 1032 < memory.inputWriter.toNat; rw [← h]; omega)
        chunk.2] at hread
      exact absurd hread (by simp)
  · intro hfit pre hpre hne
    have hle := bytesOf_length_le_of_prefix hpre
    have hroom : memory.inputReader.toNat + (bytesOf chunks).length ≤ 1032 := by
      rcases hfit with rfl | hroom
      · exact absurd (List.prefix_nil.1 hpre) hne
      · exact hroom
    obtain ⟨c', hrun, hb'⟩ := (hfixed (by omega)).keeps hreadable pre
      (by rw [List.length_nil]; omega)
    exact ⟨c', hrun, hb'⟩

/-- **Receive path.** For every connection and every sequence of chunks, the buffer holds the chunks
    so far after each call and each call has ended in a `messageCallback` exactly if there is no
    chunk at all. The contents alone, where the memory of the buffer's indices held equal values,
    are right exactly as long as everything fits behind them. -/
theorem receives_iff (chunks : List Chunk) :
    let c := (new memory loop name sockfd localAddr peerAddr).connectEstablished
    (AfterEach (fun c' pre => Holds c' pre ∧ Notifies c' pre) c chunks ↔ chunks = []) ∧
      (memory.inputReader = memory.inputWriter → (AfterEach Holds c chunks ↔
        chunks = [] ∨ memory.inputReader.toNat + (bytesOf chunks).length ≤ 1032)) := by
  intro c
  refine ⟨⟨?_, ?_⟩, fun h => holds_iff memory loop name sockfd localAddr peerAddr h chunks⟩
  · intro hall
    by_contra hne
    obtain ⟨c', hrun, -, hnotifies⟩ := hall chunks (List.prefix_refl _) hne
    have hnone : messages c'.effects = [] := messages_run hrun
    have hlen : (messages c'.effects).length = chunks.length := by
      rw [hnotifies, List.length_map, List.length_range]
    rw [hnone] at hlen
    exact hne (List.length_eq_zero_iff.1 hlen.symm)
  · rintro rfl pre hpre hne
    exact absurd (List.prefix_nil.1 hpre) hne

end Established

/-- One byte arrives at a connection whose indices were 8: the buffer holds it, and nobody is told. -/
theorem receives_fails_on_one_byte :
    ∃ c, Run.run receive
      (new (.asMeant ⟨.zero⟩) 0 "#1" 5 ⟨.zero⟩ ⟨.zero⟩).connectEstablished
      [⟨[1], List.cons_ne_nil _ _⟩] = some c ∧
      c.inputBuffer_.readable = some [1] ∧ messages c.effects = [] ∧
      ¬ Notifies c [⟨[1], List.cons_ne_nil _ _⟩] := by
  obtain ⟨c, hrun, hholds⟩ := (holds_iff (.asMeant ⟨.zero⟩) 0 "#1" 5 ⟨.zero⟩ ⟨.zero⟩
    rfl [⟨[1], List.cons_ne_nil _ _⟩]).2 (.inr (by decide)) _ (List.prefix_refl _)
    (List.cons_ne_nil _ _)
  have hnone : messages c.effects = [] := messages_run hrun
  refine ⟨c, hrun, hholds, hnone, fun h => ?_⟩
  rw [Notifies, hnone] at h
  exact absurd (congrArg List.length h) (by decide)

end TcpConnection

end WwjMuduo
