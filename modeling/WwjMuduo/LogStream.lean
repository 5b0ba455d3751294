import Mathlib.Data.BitVec
import Mathlib.Data.Nat.Digits.Lemmas
import Mathlib.Tactic.Common
import Mathlib.Tactic.IntervalCases
import WwjMuduo.Lib.Run

set_option autoImplicit false

/-! # LogStream

A `LogStream` collects the texts of its arguments in an array of fixed size. A string is copied to
`cur_` if there is more room than its length; an integer is written in place, digits first and then
reversed, if there is room for the longest one. The array starts with whatever was in memory.

Pointers into the array are offsets from `data_`, and a write that does not lie inside the array is
`none`. Characters are bytes. -/

namespace WwjMuduo

/-! ## The array -/

/-- `char[n]`. -/
structure CharArray (n : ℕ) where
  data : List UInt8
  length_eq : data.length = n

namespace CharArray

variable {n : ℕ}

/-- The array with `bytes` written from `off` on. -/
def store (a : CharArray n) (off : ℕ) (bytes : List UInt8) : Option (CharArray n) :=
  if h : off + bytes.length ≤ n then
    some ⟨a.data.take off ++ bytes ++ a.data.drop (off + bytes.length), by
      have := a.length_eq
      simp only [List.length_append, List.length_take, List.length_drop]
      omega⟩
  else none

/-- `memcpy` of the first `count` bytes of `src`, which must have that many. -/
def memcpy (a : CharArray n) (dst : ℕ) (src : List UInt8) (count : ℕ) : Option (CharArray n) :=
  if count ≤ src.length then a.store dst (src.take count) else none

/-- `std::reverse` of the range `[first, last)`. -/
def reverse (a : CharArray n) (first last : ℕ) : CharArray n :=
  ⟨a.data.take first ++ ((a.data.drop first).take (last - first)).reverse ++
      a.data.drop (first + (last - first)), by
    have := a.length_eq
    simp only [List.length_append, List.length_take, List.length_drop, List.length_reverse]
    omega⟩

/-- `a'` is `a` with `xs` written from `off` on. -/
def Written (a a' : CharArray n) (off : ℕ) (xs : List UInt8) : Prop :=
  a'.data = a.data.take off ++ xs ++ a.data.drop (off + xs.length)

theorem length_take (a : CharArray n) {off : ℕ} (h : off ≤ n) : (a.data.take off).length = off := by
  rw [List.length_take, a.length_eq]
  exact Nat.min_eq_left h

theorem length_take_append (a : CharArray n) {off : ℕ} (h : off ≤ n) (xs : List UInt8) :
    (a.data.take off ++ xs).length = off + xs.length := by
  rw [List.length_append, a.length_take h]

theorem written_nil (a : CharArray n) (off : ℕ) : Written a a off [] := by
  simp [Written]

theorem store_eq_some {a : CharArray n} {off : ℕ} {bytes : List UInt8}
    (h : off + bytes.length ≤ n) : ∃ a', a.store off bytes = some a' ∧ Written a a' off bytes := by
  unfold store
  rw [dif_pos h]
  exact ⟨_, rfl, rfl⟩

namespace Written

variable {a a' : CharArray n} {off : ℕ} {xs ys : List UInt8}

/-- The array in front of what was written is as before. -/
theorem take (h : Written a a' off xs) (hfit : off + xs.length ≤ n) :
    a'.data.take off = a.data.take off := by
  rw [h, List.append_assoc]
  exact List.take_left' (a.length_take (by omega))

theorem take_add (h : Written a a' off xs) (hfit : off + xs.length ≤ n) :
    a'.data.take (off + xs.length) = a.data.take off ++ xs := by
  rw [h]
  exact List.take_left' (a.length_take_append (by omega) xs)

theorem drop_add (h : Written a a' off xs) (hfit : off + xs.length ≤ n) :
    a'.data.drop (off + xs.length) = a.data.drop (off + xs.length) := by
  conv_lhs => rw [h]
  exact List.drop_left' (a.length_take_append (by omega) xs)

/-- A second write right behind the first. -/
theorem store (h : Written a a' off xs) (hfit : off + xs.length + ys.length ≤ n) :
    ∃ a'', a'.store (off + xs.length) ys = some a'' ∧ Written a a'' off (xs ++ ys) := by
  obtain ⟨a'', ha'', hdata⟩ := store_eq_some hfit
  refine ⟨a'', ha'', ?_⟩
  rw [Written, hdata, h.take_add (by omega), ← List.drop_drop, h.drop_add (by omega),
    List.drop_drop, List.append_assoc (a.data.take off), List.length_append, Nat.add_assoc]

/-- Reversing just what was written, not what follows it. -/
theorem reverse (h : Written a a' off (xs ++ ys)) (hfit : off + xs.length + ys.length ≤ n) :
    Written a (a'.reverse off (off + xs.length)) off (xs.reverse ++ ys) := by
  have hfit' : off + (xs ++ ys).length ≤ n := by
    rw [List.length_append]
    omega
  have hmid : (a'.data.drop off).take (off + xs.length - off) = xs := by
    rw [h, List.append_assoc, List.drop_left' (a.length_take (by omega)), Nat.add_sub_cancel_left,
      List.append_assoc, List.take_left]
  have hback : a'.data.drop (off + (off + xs.length - off)) =
      ys ++ a.data.drop (off + (xs ++ ys).length) := by
    rw [Nat.add_sub_cancel_left, ← List.drop_drop, h, List.append_assoc,
      List.drop_left' (a.length_take (by omega)), List.append_assoc, List.drop_left]
  show a'.data.take off ++ ((a'.data.drop off).take (off + xs.length - off)).reverse ++
    a'.data.drop (off + (off + xs.length - off)) = _
  rw [h.take hfit', hmid, hback]
  simp only [List.length_append, List.length_reverse, List.append_assoc]

end Written

end CharArray

/-! ## Integers -/

def digits : List UInt8 :=
  ['9', '8', '7', '6', '5', '4', '3', '2', '1', '0', '1', '2', '3', '4', '5', '6', '7', '8',
    '9'].map Char.toUInt8

/-- `zero[lsd]`, where `zero` points at the `0` inside `digits`. -/
def zero (lsd : ℤ) : Option UInt8 := if 0 ≤ 9 + lsd then digits[(9 + lsd).toNat]? else none

/-- The `do`-`while` loop of `convert`: the array and `p` after it. -/
def convertLoop {n : ℕ} (buf : CharArray n) (p : ℕ) (i : ℤ) : Option (CharArray n × ℕ) :=
  let lsd := i.tmod 10
  let i' := i.tdiv 10
  (zero lsd).bind fun c => (buf.store p [c]).bind fun buf =>
    if i' = 0 then some (buf, p + 1) else convertLoop buf (p + 1) i'
termination_by i.natAbs
decreasing_by
  have h : ¬ i.tdiv 10 = 0 := by assumption
  have hlt : i.natAbs / 10 < i.natAbs := by
    refine Nat.div_lt_self ?_ (by decide)
    rw [Int.natAbs_pos]
    rintro rfl
    exact h rfl
  rw [Int.natAbs_tdiv]
  exact hlt

/-- `convert`, for a signed type of any width: the array and the length it returns. -/
def convert {n : ℕ} (buf : CharArray n) (cur : ℕ) (value : ℤ) : Option (CharArray n × ℕ) :=
  (convertLoop buf cur value).bind fun r =>
    (if value < 0 then (r.1.store r.2 ['-'.toUInt8]).map (·, r.2 + 1) else some r).bind fun r =>
      (r.1.store r.2 [0]).map fun buf => (buf.reverse cur r.2, r.2 - cur)

/-! ## The stream -/

structure FixedBuffer (SIZE : ℕ) where
  data_ : CharArray SIZE
  cur_ : ℕ

namespace FixedBuffer

variable {SIZE : ℕ}

/-- The constructor. It leaves the array as it is. -/
def new (data : CharArray SIZE) : FixedBuffer SIZE := { data_ := data, cur_ := 0 }

def length (b : FixedBuffer SIZE) : ℤ := b.cur_

def avail (b : FixedBuffer SIZE) : ℤ := SIZE - b.cur_

def add (b : FixedBuffer SIZE) (len : ℕ) : FixedBuffer SIZE := { b with cur_ := b.cur_ + len }

/-- `append(buf, len)`, called with the length of `buf`. `len` is an `int` and goes to `memcpy` as a
    `size_t`. -/
def append (b : FixedBuffer SIZE) (buf : List UInt8) : Option (FixedBuffer SIZE) :=
  let len : ℤ := (BitVec.ofNat 32 buf.length).toInt
  if len < b.avail then
    (b.data_.memcpy b.cur_ buf (BitVec.ofInt 64 len).toNat).map fun data =>
      { data_ := data, cur_ := b.cur_ + len.toNat }
  else some b

end FixedBuffer

/-- A string that an operator is given: its length is that of an `int`. -/
abbrev Text := {str : List UInt8 // str.length < 2 ^ 31}

/-- An argument of an `operator<<`. A C string is its bytes before the NUL; the constructor of `T`
    asserts that `len_` is the length of `str_`. -/
inductive Arg where
  | char (v : UInt8)
  | cString (v : Text)
  | t (v : Text)
  | int (v : Int32)

namespace LogStream

def kSmallBuffer : ℕ := 4000
def kMaxNumericSize : ℤ := 32

end LogStream

structure LogStream where
  buffer_ : FixedBuffer LogStream.kSmallBuffer

namespace LogStream

/-- A new stream, over an array with what was in memory. -/
def new (data : CharArray kSmallBuffer) : LogStream := { buffer_ := FixedBuffer.new data }

def formatInteger (s : LogStream) (v : ℤ) : Option LogStream :=
  if kMaxNumericSize ≤ s.buffer_.avail then
    (convert s.buffer_.data_ s.buffer_.cur_ v).map fun r =>
      { buffer_ := { s.buffer_ with data_ := r.1 }.add r.2 }
  else some s

/-- The four `operator<<`. -/
def shl (s : LogStream) : Arg → Option LogStream
  | .char v => (s.buffer_.append [v]).map LogStream.mk
  | .cString v => (s.buffer_.append v.val).map LogStream.mk
  | .t v => (s.buffer_.append v.val).map LogStream.mk
  | .int v => s.formatInteger v.toInt

end LogStream

/-! ## Decimal text -/

def digitChar (d : ℕ) : UInt8 := UInt8.ofNat ('0'.toNat + d)

/-- The canonical decimal text of a number. -/
def decimal (v : ℤ) : List UInt8 :=
  (if v < 0 then ['-'.toUInt8] else []) ++
    (if v = 0 then ['0'.toUInt8] else (Nat.digits 10 v.natAbs).reverse.map digitChar)

/-- What the loop writes for a number without its sign: at least one digit, the lowest one first. -/
def lowFirst (k : ℕ) : List UInt8 :=
  if k = 0 then [digitChar 0] else (Nat.digits 10 k).map digitChar

/-- One round of the loop. -/
theorem lowFirst_eq (k : ℕ) :
    lowFirst k = digitChar (k % 10) :: if k / 10 = 0 then [] else lowFirst (k / 10) := by
  by_cases hk : k = 0
  · subst hk
    rfl
  · rw [lowFirst, if_neg hk, Nat.digits_def' (by decide) (Nat.pos_of_ne_zero hk), List.map_cons]
    split
    · next h => rw [h, Nat.digits_zero, List.map_nil]
    · next h => rw [lowFirst, if_neg h]

theorem decimal_eq (v : ℤ) : decimal v =
    (lowFirst v.natAbs ++ if v < 0 then ['-'.toUInt8] else []).reverse := by
  have hsign : (if v < 0 then ['-'.toUInt8] else []).reverse =
      if v < 0 then ['-'.toUInt8] else [] := by
    split <;> rfl
  rw [decimal, List.reverse_append, hsign, lowFirst]
  by_cases hv : v = 0
  · subst hv
    rfl
  · rw [if_neg hv, if_neg (Int.natAbs_ne_zero.2 hv), List.map_reverse]

theorem length_lowFirst_le {k w : ℕ} (hw : 0 < w) (hk : k < 10 ^ w) : (lowFirst k).length ≤ w := by
  unfold lowFirst
  split
  · exact hw
  · rw [List.length_map, Nat.digits_length_le_iff (by decide)]
    exact hk

/-- A number of at most `w` digits takes at most `w` bytes and one for the sign. -/
theorem length_decimal_le {v : ℤ} {w : ℕ} (hw : 0 < w) (hv : v.natAbs < 10 ^ w) :
    (decimal v).length ≤ w + 1 := by
  have hlow := length_lowFirst_le hw hv
  rw [decimal_eq, List.length_reverse, List.length_append]
  split
  · simpa using hlow
  · exact le_trans hlow (Nat.le_succ w)

theorem length_decimal_int (v : Int32) : (decimal v.toInt).length ≤ 11 := by
  have hlo := v.le_toInt
  have hhi := v.toInt_lt
  exact length_decimal_le (w := 10) (by decide) (by omega)

theorem decimal_ne_nil (v : ℤ) : decimal v ≠ [] := by
  have hlow : lowFirst v.natAbs ≠ [] := by
    rw [lowFirst_eq]
    exact List.cons_ne_nil _ _
  rw [decimal_eq]
  simp [hlow]

/-! ## Conversion -/

/-- The table has a digit on both sides of `zero`, so the sign of the remainder does not matter. -/
theorem zero_eq {d : ℤ} (h : d.natAbs < 10) : zero d = some (digitChar d.natAbs) := by
  have hlo : -9 ≤ d := by omega
  have hhi : d ≤ 9 := by omega
  interval_cases d <;> rfl

/-- The loop writes the digits of a number behind what is already there. -/
theorem convertLoop_written {n : ℕ} {a buf : CharArray n} {off : ℕ} {xs : List UInt8}
    (h : a.Written buf off xs) (i : ℤ) (hfit : off + xs.length + (lowFirst i.natAbs).length ≤ n) :
    ∃ buf', convertLoop buf (off + xs.length) i =
        some (buf', off + (xs ++ lowFirst i.natAbs).length) ∧
      a.Written buf' off (xs ++ lowFirst i.natAbs) := by
  induction hk : i.natAbs using Nat.strong_induction_on generalizing i buf xs with
  | _ k ih =>
      have hdiv : (i.tdiv 10).natAbs = k / 10 := by
        rw [Int.natAbs_tdiv, hk]
        rfl
      have hmod : (i.tmod 10).natAbs = k % 10 := by
        rw [Int.natAbs_tmod, hk]
        rfl
      have hzero : zero (i.tmod 10) = some (digitChar (k % 10)) := by
        rw [zero_eq (by omega), hmod]
      rw [hk, lowFirst_eq, List.length_cons] at hfit
      have hroom : off + xs.length + [digitChar (k % 10)].length ≤ n := by
        rw [List.length_singleton]
        omega
      obtain ⟨buf₁, hbuf₁, h₁⟩ := h.store hroom
      rw [convertLoop, hzero, Option.bind_some, hbuf₁, Option.bind_some, lowFirst_eq k]
      by_cases hlast : i.tdiv 10 = 0
      · have hk0 : k / 10 = 0 := by omega
        rw [if_pos hlast, if_pos hk0]
        exact ⟨buf₁, by rw [List.length_append]; rfl, h₁⟩
      · have hk0 : k / 10 ≠ 0 := by
          rw [← hdiv]
          exact Int.natAbs_ne_zero.2 hlast
        have hlen : (xs ++ [digitChar (k % 10)]).length = xs.length + 1 := List.length_append
        rw [if_neg hlast, if_neg hk0]
        rw [if_neg hk0] at hfit
        obtain ⟨buf', hbuf', h'⟩ := ih (k / 10) (by omega) h₁ (i.tdiv 10)
          (by rw [hlen, hdiv]; omega) hdiv
        rw [hlen] at hbuf'
        rw [List.append_assoc] at hbuf' h'
        exact ⟨buf', hbuf', h'⟩

/-- `convert` writes the decimal text and a NUL behind it, and returns the length of the text. -/
theorem convert_written {n : ℕ} (buf : CharArray n) (cur : ℕ) (v : ℤ)
    (hfit : cur + (decimal v).length + 1 ≤ n) :
    ∃ buf', convert buf cur v = some (buf', (decimal v).length) ∧
      buf.Written buf' cur (decimal v ++ [0]) := by
  let sign : List UInt8 := if v < 0 then ['-'.toUInt8] else []
  have htext : decimal v = (lowFirst v.natAbs ++ sign).reverse := decimal_eq v
  have hlen : (decimal v).length = (lowFirst v.natAbs).length + sign.length := by
    rw [htext, List.length_reverse, List.length_append]
  obtain ⟨buf₁, hbuf₁, h₁⟩ := convertLoop_written (buf.written_nil cur) v
    (by rw [List.length_nil]; omega)
  rw [List.nil_append] at hbuf₁ h₁
  rw [List.length_nil, Nat.add_zero] at hbuf₁
  -- the sign
  obtain ⟨buf₂, hbuf₂, h₂⟩ : ∃ buf₂,
      (if v < 0 then (buf₁.store (cur + (lowFirst v.natAbs).length) ['-'.toUInt8]).map
          (·, cur + (lowFirst v.natAbs).length + 1)
        else some (buf₁, cur + (lowFirst v.natAbs).length)) =
          some (buf₂, cur + (lowFirst v.natAbs ++ sign).length) ∧
        buf.Written buf₂ cur (lowFirst v.natAbs ++ sign) := by
    by_cases hv : v < 0
    · have hsign : sign = ['-'.toUInt8] := if_pos hv
      rw [hsign, List.length_singleton] at hlen
      have hroom : cur + (lowFirst v.natAbs).length + ['-'.toUInt8].length ≤ n := by
        rw [List.length_singleton]
        omega
      obtain ⟨buf₂, hbuf₂, h₂⟩ := h₁.store hroom
      refine ⟨buf₂, ?_, by rw [hsign]; exact h₂⟩
      rw [if_pos hv, hbuf₂, hsign, List.length_append, List.length_singleton]
      rfl
    · have hsign : sign = [] := if_neg hv
      exact ⟨buf₁, by rw [if_neg hv, hsign, List.append_nil], by rw [hsign, List.append_nil]; exact h₁⟩
  have hroom : cur + (lowFirst v.natAbs ++ sign).length + [(0 : UInt8)].length ≤ n := by
    rw [List.length_append, List.length_singleton]
    omega
  obtain ⟨buf₃, hbuf₃, h₃⟩ := h₂.store hroom
  have h₄ := h₃.reverse (by rw [List.length_append, List.length_singleton]; omega)
  refine ⟨buf₃.reverse cur (cur + (lowFirst v.natAbs ++ sign).length), ?_, by rw [htext]; exact h₄⟩
  rw [convert, hbuf₁, Option.bind_some, hbuf₂, Option.bind_some, hbuf₃, Option.map_some,
    Nat.add_sub_cancel_left, htext, List.length_reverse]

/-! ## What a stream keeps -/

namespace FixedBuffer

variable {SIZE : ℕ}

/-- The bytes from `data()` on, `length()` of them. -/
def contents (b : FixedBuffer SIZE) : List UInt8 := b.data_.data.take b.cur_

/-- The cursor is inside the array. -/
def Room (b : FixedBuffer SIZE) : Prop := b.cur_ < SIZE

/-- Bytes written at the cursor are contents once the cursor is behind them. -/
theorem contents_add {b : FixedBuffer SIZE} {data : CharArray SIZE} {xs ys : List UInt8}
    (h : b.data_.Written data b.cur_ (xs ++ ys)) (hfit : b.cur_ + xs.length ≤ SIZE) :
    ({ b with data_ := data }.add xs.length).contents = b.contents ++ xs := by
  show data.data.take (b.cur_ + xs.length) = b.data_.data.take b.cur_ ++ xs
  rw [h, ← List.append_assoc, List.append_assoc (b.data_.data.take b.cur_ ++ xs)]
  exact List.take_left' (b.data_.length_take_append (by omega) xs)

/-- `append` copies the whole string or nothing, and leaves one byte free. -/
theorem append_eq {b : FixedBuffer SIZE} (hroom : b.Room) {buf : List UInt8}
    (hlen : buf.length < 2 ^ 31) : ∃ b', b.append buf = some b' ∧ b'.Room ∧
      b'.contents = b.contents ++ (if (buf.length : ℤ) < b.avail then buf else []) ∧
      b'.avail = b.avail - (if (buf.length : ℤ) < b.avail then buf else []).length := by
  have hint : (BitVec.ofNat 32 buf.length).toInt = buf.length := by
    rw [BitVec.toInt_ofNat', Int.bmod_eq_of_le] <;> omega
  have hcount : (BitVec.ofInt 64 (buf.length : ℤ)).toNat = buf.length := by
    rw [BitVec.toNat_ofInt]
    omega
  rw [append, hint]
  by_cases h : (buf.length : ℤ) < b.avail
  · have hfit : b.cur_ + buf.length < SIZE := by
      rw [avail] at h
      omega
    obtain ⟨data, hdata, hwritten⟩ := CharArray.store_eq_some (a := b.data_) (le_of_lt hfit)
    rw [if_pos h, if_pos h, hcount, CharArray.memcpy, if_pos (le_refl _), List.take_length, hdata]
    have hwritten' : b.data_.Written data b.cur_ (buf ++ []) := by rwa [List.append_nil]
    refine ⟨_, rfl, hfit, contents_add hwritten' (le_of_lt hfit), ?_⟩
    simp only [avail, Int.toNat_natCast]
    omega
  · rw [if_neg h, if_neg h]
    exact ⟨b, rfl, hroom, (List.append_nil _).symm, by simp⟩

end FixedBuffer

namespace Arg

/-- The text of an argument. -/
def text : Arg → List UInt8
  | .char v => [v]
  | .cString v => v.val
  | .t v => v.val
  | .int v => decimal v.toInt

/-- An argument finds enough room: a string more than its length, an integer 32 bytes. -/
def Fits (avail : ℤ) : Arg → Prop
  | .int _ => 32 ≤ avail
  | arg => (arg.text.length : ℤ) < avail

instance (avail : ℤ) (arg : Arg) : Decidable (arg.Fits avail) := by
  cases arg <;> unfold Fits <;> infer_instance

/-- The arguments that find enough room at their turn. -/
def kept (avail : ℤ) : List Arg → List Arg
  | [] => []
  | arg :: args =>
    if arg.Fits avail then arg :: kept (avail - arg.text.length) args else kept avail args

theorem kept_sublist (avail : ℤ) (args : List Arg) : (kept avail args).Sublist args := by
  induction args generalizing avail with
  | nil => exact List.Sublist.slnil
  | cons arg args ih =>
      rw [kept]
      split
      · exact (ih _).cons_cons arg
      · exact (ih _).cons arg

/-- An argument that fits leaves a byte free. -/
theorem Fits.lt {avail : ℤ} {arg : Arg} (h : arg.Fits avail) : (arg.text.length : ℤ) < avail := by
  cases arg with
  | char v => exact h
  | cString v => exact h
  | t v => exact h
  | int v =>
      have hlen := length_decimal_int v
      have hroom : 32 ≤ avail := h
      show ((decimal v.toInt).length : ℤ) < avail
      omega

/-- An argument that is dropped has a text, unless nothing is free. -/
theorem text_ne_nil_of_not_fits {avail : ℤ} (hpos : 0 < avail) {arg : Arg} (h : ¬ arg.Fits avail) :
    arg.text ≠ [] := by
  cases arg with
  | int v => exact decimal_ne_nil v.toInt
  | char v => exact List.cons_ne_nil v []
  | cString v | t v =>
      intro hnil
      apply h
      show (v.val.length : ℤ) < avail
      rw [show v.val = [] from hnil]
      exact hpos

/-- The texts that are kept leave a byte free. -/
theorem length_kept_lt {avail : ℤ} (hpos : 0 < avail) (args : List Arg) :
    (((kept avail args).flatMap text).length : ℤ) < avail := by
  induction args generalizing avail with
  | nil => exact hpos
  | cons arg args ih =>
      rw [kept]
      split
      · next h =>
        have hrest := ih (sub_pos.2 h.lt)
        rw [List.flatMap_cons, List.length_append, Nat.cast_add]
        omega
      · exact ih hpos

theorem kept_append (avail : ℤ) (xs ys : List Arg) :
    kept avail (xs ++ ys) =
      kept avail xs ++ kept (avail - ((kept avail xs).flatMap text).length) ys := by
  induction xs generalizing avail with
  | nil => simp [kept]
  | cons x xs ih =>
      rw [List.cons_append, kept, kept]
      split
      · rw [ih, List.cons_append, List.flatMap_cons, List.length_append, Nat.cast_add, sub_sub]
      · exact ih avail

/-- Arguments are all kept if each finds room behind the ones before it. -/
theorem kept_cons_eq_self {avail : ℤ} {arg : Arg} {args : List Arg} :
    kept avail (arg :: args) = arg :: args ↔
      arg.Fits avail ∧ kept (avail - arg.text.length) args = args := by
  rw [kept]
  by_cases h : arg.Fits avail
  · rw [if_pos h, List.cons.injEq]
    exact and_congr_left fun _ => iff_of_true rfl h
  · rw [if_neg h]
    refine iff_of_false (fun heq => ?_) fun hand => h hand.1
    have hle := (kept_sublist avail args).length_le
    rw [heq, List.length_cons] at hle
    omega

/-- Dropping an argument makes the text shorter. -/
theorem kept_texts_eq_iff {avail : ℤ} (hpos : 0 < avail) (args : List Arg) :
    (kept avail args).flatMap text = args.flatMap text ↔ kept avail args = args := by
  constructor
  · intro h
    induction args generalizing avail with
    | nil => rfl
    | cons arg args ih =>
        rw [kept] at h ⊢
        by_cases hfit : arg.Fits avail
        · rw [if_pos hfit, List.flatMap_cons, List.flatMap_cons, List.append_cancel_left_eq] at h
          rw [if_pos hfit, ih (sub_pos.2 hfit.lt) h]
        · rw [if_neg hfit, List.flatMap_cons] at h
          have hle := ((kept_sublist avail args).flatMap text).length_le
          have hsome := List.length_pos_iff.2 (text_ne_nil_of_not_fits hpos hfit)
          rw [h, List.length_append] at hle
          omega
  · intro h
    rw [h]

/-- With 32 bytes to spare behind all the texts, nothing is dropped. -/
theorem kept_eq_self {avail : ℤ} {args : List Arg}
    (h : ((args.flatMap text).length : ℤ) + 32 ≤ avail) : kept avail args = args := by
  induction args generalizing avail with
  | nil => rfl
  | cons arg args ih =>
      rw [List.flatMap_cons, List.length_append, Nat.cast_add] at h
      refine kept_cons_eq_self.2 ⟨?_, ih (by omega)⟩
      cases arg with
      | int v =>
          show 32 ≤ avail
          omega
      | char v | cString v | t v =>
          show (text _).length < avail
          omega

end Arg

namespace LogStream

/-- The operators on strings are `append`. -/
theorem append_shl {s : LogStream} (hroom : s.buffer_.Room) {buf : List UInt8}
    (hlen : buf.length < 2 ^ 31) :
    ∃ s', (s.buffer_.append buf).map LogStream.mk = some s' ∧ s'.buffer_.Room ∧
      s'.buffer_.contents =
        s.buffer_.contents ++ (if (buf.length : ℤ) < s.buffer_.avail then buf else []) ∧
      s'.buffer_.avail = s.buffer_.avail -
        (if (buf.length : ℤ) < s.buffer_.avail then buf else []).length := by
  obtain ⟨b', hb', h⟩ := FixedBuffer.append_eq hroom hlen
  exact ⟨⟨b'⟩, by rw [hb', Option.map_some], h⟩

/-- An `int` needs less than the 32 bytes it asks for, the NUL included. -/
theorem formatInteger_eq {s : LogStream} (hroom : s.buffer_.Room) (v : Int32) :
    ∃ s', s.formatInteger v.toInt = some s' ∧ s'.buffer_.Room ∧
      s'.buffer_.contents =
        s.buffer_.contents ++ (if 32 ≤ s.buffer_.avail then decimal v.toInt else []) ∧
      s'.buffer_.avail = s.buffer_.avail -
        (if 32 ≤ s.buffer_.avail then decimal v.toInt else []).length := by
  have hlen := length_decimal_int v
  rw [formatInteger, kMaxNumericSize]
  by_cases h : 32 ≤ s.buffer_.avail
  · have hfit : s.buffer_.cur_ + 32 ≤ kSmallBuffer := by
      rw [FixedBuffer.avail] at h
      omega
    obtain ⟨data, hdata, hwritten⟩ := convert_written s.buffer_.data_ s.buffer_.cur_ v.toInt
      (by omega)
    rw [if_pos h, if_pos h, hdata, Option.map_some]
    refine ⟨_, rfl, ?_, FixedBuffer.contents_add hwritten (by omega), ?_⟩
    · show s.buffer_.cur_ + (decimal v.toInt).length < kSmallBuffer
      omega
    · simp only [FixedBuffer.avail, FixedBuffer.add]
      omega
  · rw [if_neg h, if_neg h]
    exact ⟨s, rfl, hroom, (List.append_nil _).symm, by simp⟩

/-- One operator keeps the cursor inside the array, and its argument whole or not at all. -/
theorem shl_eq {s : LogStream} (hroom : s.buffer_.Room) (arg : Arg) :
    ∃ s', s.shl arg = some s' ∧ s'.buffer_.Room ∧
      s'.buffer_.contents = s.buffer_.contents ++ (if arg.Fits s.buffer_.avail then arg.text else []) ∧
      s'.buffer_.avail =
        s.buffer_.avail - (if arg.Fits s.buffer_.avail then arg.text else []).length := by
  cases arg with
  | char v =>
      have hlen : [v].length < 2 ^ 31 := show 1 < 2 ^ 31 by decide
      exact append_shl hroom hlen
  | cString v => exact append_shl hroom v.property
  | t v => exact append_shl hroom v.property
  | int v => exact formatInteger_eq hroom v

/-- Any number of operators from a stream with its cursor inside the array. -/
theorem run_shl {s : LogStream} (hroom : s.buffer_.Room) (args : List Arg) :
    ∃ s', Run.run shl s args = some s' ∧ s'.buffer_.Room ∧
      s'.buffer_.contents =
        s.buffer_.contents ++ (Arg.kept s.buffer_.avail args).flatMap Arg.text := by
  induction args generalizing s with
  | nil => exact ⟨s, rfl, hroom, by simp [Arg.kept]⟩
  | cons arg args ih =>
      obtain ⟨s₁, hs₁, hroom₁, hcontents₁, havail₁⟩ := shl_eq hroom arg
      obtain ⟨s', hs', hroom', hcontents'⟩ := ih hroom₁
      refine ⟨s', Run.run_cons_eq_some.2 ⟨s₁, hs₁, hs'⟩, hroom', ?_⟩
      rw [hcontents', hcontents₁, havail₁, Arg.kept]
      split
      · rw [List.flatMap_cons, List.append_assoc]
      · rw [List.append_nil, List.length_nil, Nat.cast_zero, sub_zero]

/-- **A log stream is safe and keeps whole arguments.** Whatever is written to a new stream, every
    write lies inside the array, a byte stays free, and the contents are the texts of the arguments
    that found enough room at their turn. -/
theorem keeps_whole_arguments (data : CharArray kSmallBuffer) (args : List Arg) :
    ∃ s, Run.run shl (new data) args = some s ∧
      0 ≤ s.buffer_.length ∧ s.buffer_.length ≤ kSmallBuffer - 1 ∧
      (Arg.kept kSmallBuffer args).Sublist args ∧
      s.buffer_.contents = (Arg.kept kSmallBuffer args).flatMap Arg.text := by
  have hroom : (new data).buffer_.Room := by
    show 0 < kSmallBuffer
    decide
  have havail : (new data).buffer_.avail = kSmallBuffer := sub_zero _
  obtain ⟨s, hs, hroom', hcontents⟩ := run_shl hroom args
  refine ⟨s, hs, Int.natCast_nonneg _, ?_, Arg.kept_sublist _ args, ?_⟩
  · rw [FixedBuffer.Room] at hroom'
    rw [FixedBuffer.length]
    omega
  · rw [hcontents, havail]
    rfl

end LogStream

end WwjMuduo
