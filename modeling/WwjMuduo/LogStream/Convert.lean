import Mathlib.Data.BitVec
import Mathlib.Data.Nat.Digits.Lemmas
import Mathlib.Tactic.Common
import WwjMuduo.LogStream

set_option autoImplicit false

/-! # `convert` on machine words

`convert<T>` for a signed `T` of any width. A quotient or a remainder is computed in `T`, or in
`int` if that is wider, and converted back; both cut towards zero, so that the remainder of a
negative value is negative and the minimum is never negated. On words the loop does what it does on
integers, and the text it leaves reads back as the value. -/

namespace WwjMuduo

namespace detail

/-! ## The loop on words -/

variable {n w : ℕ}

/-- The width of the type in which a `T` is divided by an `int`. -/
def arithWidth (w : ℕ) : ℕ := max w 32

/-- `int lsd = i % 10`. -/
def lsd (i : BitVec w) : BitVec 32 :=
  ((i.signExtend (arithWidth w)).srem 10#(arithWidth w)).signExtend 32

/-- `i = i / 10`. -/
def quotient (i : BitVec w) : BitVec w :=
  ((i.signExtend (arithWidth w)).sdiv 10#(arithWidth w)).signExtend w

/-- A word that is in the range of another signed type keeps its value there. -/
theorem toInt_signExtend_of_fits {v : ℕ} {x : BitVec w} (hlo : -2 ^ v ≤ x.toInt * 2)
    (hhi : x.toInt * 2 < 2 ^ v) : (x.signExtend v).toInt = x.toInt := by
  by_cases h : w ≤ v
  · exact BitVec.toInt_signExtend_of_le h
  · have hmin : min v w = v := Nat.min_eq_left (by omega)
    rw [BitVec.toInt_signExtend, hmin]
    exact Int.bmod_eq_of_le_mul_two (by simpa using hlo) (by simpa using hhi)

theorem two_pow_arithWidth (w : ℕ) : 2 ^ 32 ≤ 2 ^ arithWidth w :=
  Nat.pow_le_pow_right (by decide) (Nat.le_max_right w 32)

theorem toInt_extend (i : BitVec w) : (i.signExtend (arithWidth w)).toInt = i.toInt :=
  BitVec.toInt_signExtend_of_le (Nat.le_max_left w 32)

theorem toInt_ten (w : ℕ) : (10#(arithWidth w)).toInt = 10 := by
  have h := two_pow_arithWidth w
  rw [BitVec.toInt_ofNat', Int.bmod_eq_of_le_mul_two] <;> omega

theorem natAbs_tmod_ten_lt (i : ℤ) : (i.tmod 10).natAbs < 10 := by
  rw [Int.natAbs_tmod]
  exact Nat.mod_lt _ (by decide)

theorem toInt_lsd (i : BitVec w) : (lsd i).toInt = i.toInt.tmod 10 := by
  have hrem : ((i.signExtend (arithWidth w)).srem 10#(arithWidth w)).toInt = i.toInt.tmod 10 := by
    rw [BitVec.toInt_srem, toInt_ten, toInt_extend]
  have hlt := natAbs_tmod_ten_lt i.toInt
  rw [lsd, toInt_signExtend_of_fits, hrem] <;> rw [hrem] <;> omega

/-- The index is inside the table, whatever the sign of the value. -/
theorem zero_lsd (i : BitVec w) : (zero (lsd i).toInt).isSome := by
  rw [toInt_lsd, zero_eq (natAbs_tmod_ten_lt i.toInt)]
  rfl

/-- A quotient lies between zero and the value, so it is in range wherever the value is. -/
theorem tdiv_ten_between (i : ℤ) :
    (0 ≤ i.tdiv 10 ∧ i.tdiv 10 ≤ i) ∨ (i ≤ i.tdiv 10 ∧ i.tdiv 10 ≤ 0) := by
  have habs : (i.tdiv 10).natAbs ≤ i.natAbs := by
    rw [Int.natAbs_tdiv]
    exact Nat.div_le_self _ _
  rcases Int.le_total 0 i with hi | hi
  · have h : 0 ≤ i.tdiv 10 := Int.tdiv_nonneg hi (by decide)
    omega
  · have h : 0 ≤ (-i).tdiv 10 := Int.tdiv_nonneg (neg_nonneg.2 hi) (by decide)
    rw [Int.neg_tdiv] at h
    omega

theorem toInt_quotient (i : BitVec w) : (quotient i).toInt = i.toInt.tdiv 10 := by
  have hlo := i.le_two_mul_toInt
  have hhi := i.two_mul_toInt_lt
  have hpow : (2 : ℤ) ^ w ≤ 2 ^ arithWidth w := by
    exact_mod_cast Nat.pow_le_pow_right (by decide) (Nat.le_max_left w 32)
  have hpos : (0 : ℤ) < 2 ^ w := by positivity
  have hrange : -2 ^ w ≤ i.toInt.tdiv 10 * 2 ∧ i.toInt.tdiv 10 * 2 < 2 ^ w := by
    rcases tdiv_ten_between i.toInt with h | h <;> omega
  have hdiv : ((i.signExtend (arithWidth w)).sdiv 10#(arithWidth w)).toInt = i.toInt.tdiv 10 := by
    rw [BitVec.toInt_sdiv, toInt_ten, toInt_extend]
    refine Int.bmod_eq_of_le_mul_two ?_ ?_ <;> rw [Nat.cast_pow, Nat.cast_ofNat]
    · exact le_trans (neg_le_neg hpow) hrange.1
    · exact lt_of_lt_of_le hrange.2 hpow
  rw [quotient, toInt_signExtend_of_fits, hdiv] <;> rw [hdiv]
  · exact hrange.1
  · exact hrange.2

/-- The loop goes on with a smaller value. -/
theorem natAbs_quotient_lt {i : BitVec w} (h : quotient i ≠ 0#w) :
    (quotient i).toInt.natAbs < i.toInt.natAbs := by
  have hne : i.toInt.tdiv 10 ≠ 0 := by
    rw [← toInt_quotient]
    intro h0
    exact h (BitVec.eq_of_toInt_eq (h0.trans BitVec.toInt_zero.symm))
  have hpos : 0 < i.toInt.natAbs := by
    rw [Int.natAbs_pos]
    intro h0
    rw [h0] at hne
    exact hne rfl
  rw [toInt_quotient, Int.natAbs_tdiv]
  exact Nat.div_lt_self hpos (by decide)

/-- The `do`-`while` loop. -/
def convertLoop (buf : CharArray n) (p : ℕ) (i : BitVec w) : Option (CharArray n × ℕ) :=
  (zero (lsd i).toInt).bind fun c => (buf.store p [c]).bind fun buf =>
    if quotient i = 0#w then some (buf, p + 1) else convertLoop buf (p + 1) (quotient i)
termination_by i.toInt.natAbs
decreasing_by exact natAbs_quotient_lt (by assumption)

/-- `convert(buf + cur, value)`: the array and the length it returns. -/
def convert (buf : CharArray n) (cur : ℕ) (value : BitVec w) : Option (CharArray n × ℕ) :=
  (convertLoop buf cur value).bind fun r =>
    (if value.toInt < 0 then (r.1.store r.2 ['-'.toUInt8]).map (·, r.2 + 1) else some r).bind
      fun r => (r.1.store r.2 [0]).map fun buf => (buf.reverse cur r.2, r.2 - cur)

/-- The loop on words is the loop on their values. -/
theorem convertLoop_eq (buf : CharArray n) (p : ℕ) (i : BitVec w) :
    convertLoop buf p i = WwjMuduo.convertLoop buf p i.toInt := by
  induction buf, p, i using convertLoop.induct with
  | case1 buf p i ih =>
      rw [convertLoop, WwjMuduo.convertLoop, toInt_lsd, ← toInt_quotient]
      congr 1
      funext c
      congr 1
      funext buf'
      by_cases h : quotient i = 0#w
      · have hval : (quotient i).toInt = 0 := by rw [h, BitVec.toInt_zero]
        rw [if_pos h, if_pos hval]
      · have hval : (quotient i).toInt ≠ 0 := by
          rw [← BitVec.toInt_zero (w := w)]
          exact BitVec.toInt_ne.2 h
        rw [if_neg h, if_neg hval]
        exact ih buf' h

theorem convert_eq (buf : CharArray n) (cur : ℕ) (value : BitVec w) :
    convert buf cur value = WwjMuduo.convert buf cur value.toInt := by
  rw [convert, WwjMuduo.convert, convertLoop_eq]

/-- `operator<<(int)` converts a word of 32 bits. -/
theorem formatInteger_eq_convert (s : LogStream) (v : Int32) :
    s.formatInteger v.toInt =
      if LogStream.kMaxNumericSize ≤ s.buffer_.avail then
        (convert s.buffer_.data_ s.buffer_.cur_ v.toBitVec).map fun r =>
          { buffer_ := { s.buffer_ with data_ := r.1 }.add r.2 }
      else some s := by
  rw [convert_eq]
  rfl

/-- A value of at most 64 bits has at most 19 digits. -/
theorem natAbs_lt_of_width (hw : w ≤ 64) (value : BitVec w) : value.toInt.natAbs < 10 ^ 19 := by
  have hlo := value.le_two_mul_toInt
  have hhi := value.two_mul_toInt_lt
  have hpow : (2 : ℤ) ^ w ≤ 2 ^ 64 := pow_le_pow_right₀ (by decide) hw
  omega

end detail

/-! ## Decimal text, read back -/

/-- The digit that a byte stands for. -/
def digitValue (c : UInt8) : Option ℕ :=
  if '0'.toUInt8 ≤ c ∧ c ≤ '9'.toUInt8 then some (c - '0'.toUInt8).toNat else none

/-- The number that digits stand for, read from the left behind `acc`. -/
def readDigits (acc : ℕ) : List UInt8 → Option ℕ
  | [] => some acc
  | c :: cs => (digitValue c).bind fun d => readDigits (acc * 10 + d) cs

/-- The text behind the sign, if there is one. -/
def unsigned : List UInt8 → List UInt8
  | [] => []
  | c :: cs => if c = '-'.toUInt8 then cs else c :: cs

/-- The value of a decimal text: a sign or none, and at least one digit. -/
def readDecimal (text : List UInt8) : Option ℤ :=
  if unsigned text = [] then none
  else (readDigits 0 (unsigned text)).map fun k : ℕ =>
    if text.head? = some '-'.toUInt8 then -(k : ℤ) else k

/-- The one text that a value should have. -/
structure Canonical (text : List UInt8) (v : ℤ) : Prop where
  /-- A sign for negative values and for no other. -/
  sign : text.head? = some '-'.toUInt8 ↔ v < 0
  /-- Only digits behind it, and at least one. -/
  digits : ∀ c ∈ unsigned text, (digitValue c).isSome
  ne_nil : unsigned text ≠ []
  /-- No zero in front, but for zero itself. -/
  no_leading_zero : (unsigned text).head? = some '0'.toUInt8 → v = 0 ∧ text = ['0'.toUInt8]

theorem digitValue_digitChar {d : ℕ} (h : d < 10) : digitValue (digitChar d) = some d := by
  interval_cases d <;> rfl

theorem digitChar_ne_sign {d : ℕ} (h : d < 10) : digitChar d ≠ '-'.toUInt8 := by
  interval_cases d <;> decide

theorem digitChar_eq_zero {d : ℕ} (h : d < 10) (h0 : digitChar d = '0'.toUInt8) : d = 0 := by
  interval_cases d <;> revert h0 <;> decide

theorem readDigits_append (acc : ℕ) (xs ys : List UInt8) :
    readDigits acc (xs ++ ys) = (readDigits acc xs).bind fun acc => readDigits acc ys := by
  induction xs generalizing acc with
  | nil => rfl
  | cons c cs ih =>
      rw [List.cons_append, readDigits, readDigits]
      cases digitValue c with
      | none => rfl
      | some d => exact ih (acc * 10 + d)

/-- Digits written lowest first, read from the other end. -/
theorem readDigits_reverse {ds : List ℕ} (h : ∀ d ∈ ds, d < 10) :
    readDigits 0 (ds.map digitChar).reverse = some (Nat.ofDigits 10 ds) := by
  induction ds with
  | nil => rfl
  | cons d ds ih =>
      have hd : d < 10 := h d List.mem_cons_self
      have hds : ∀ d ∈ ds, d < 10 := fun e he => h e (List.mem_cons_of_mem d he)
      rw [List.map_cons, List.reverse_cons, readDigits_append, ih hds, Option.bind_some, readDigits,
        digitValue_digitChar hd, Option.bind_some, readDigits, Nat.ofDigits_cons]
      congr 1
      omega

/-- The digits of a number, lowest first; zero has one. -/
def digitList (k : ℕ) : List ℕ := if k = 0 then [0] else Nat.digits 10 k

theorem lowFirst_eq_map (k : ℕ) : lowFirst k = (digitList k).map digitChar := by
  unfold lowFirst digitList
  split <;> rfl

theorem digitList_lt {k d : ℕ} (h : d ∈ digitList k) : d < 10 := by
  unfold digitList at h
  split at h
  · rw [List.mem_singleton] at h
    omega
  · exact Nat.digits_lt_base (by decide) h

theorem ofDigits_digitList (k : ℕ) : Nat.ofDigits 10 (digitList k) = k := by
  unfold digitList
  split
  · next h => rw [h, Nat.ofDigits_singleton]
  · exact Nat.ofDigits_digits 10 k

theorem digitList_ne_nil (k : ℕ) : digitList k ≠ [] := by
  unfold digitList
  split
  · exact List.cons_ne_nil 0 []
  · next h => exact Nat.digits_ne_nil_iff_ne_zero.2 h

/-- The last digit written, which comes first in the text, is zero for zero alone. -/
theorem getLast?_digitList {k : ℕ} (h : (digitList k).getLast? = some 0) : k = 0 := by
  unfold digitList at h
  split at h
  · assumption
  · next hk =>
    rw [List.getLast?_eq_some_getLast (Nat.digits_ne_nil_iff_ne_zero.2 hk), Option.some.injEq] at h
    exact absurd h (Nat.getLast_digit_ne_zero 10 hk)

/-- The text without a sign begins with a digit. -/
theorem head_lowFirst (k : ℕ) : ∃ d < 10, (digitList k).getLast? = some d ∧
    (lowFirst k).reverse.head? = some (digitChar d) := by
  have hlast := List.getLast?_eq_some_getLast (digitList_ne_nil k)
  refine ⟨_, digitList_lt (List.getLast_mem (digitList_ne_nil k)), hlast, ?_⟩
  rw [lowFirst_eq_map, List.head?_reverse, List.getLast?_map, hlast, Option.map_some]

theorem head_lowFirst_ne_sign (k : ℕ) : (lowFirst k).reverse.head? ≠ some '-'.toUInt8 := by
  obtain ⟨d, hd, -, hhead⟩ := head_lowFirst k
  rw [hhead, ne_eq, Option.some.injEq]
  exact digitChar_ne_sign hd

theorem decimal_of_neg {v : ℤ} (h : v < 0) :
    decimal v = '-'.toUInt8 :: (lowFirst v.natAbs).reverse := by
  rw [decimal_eq, if_pos h, List.reverse_append, List.reverse_singleton, List.singleton_append]

theorem decimal_of_nonneg {v : ℤ} (h : ¬ v < 0) : decimal v = (lowFirst v.natAbs).reverse := by
  rw [decimal_eq, if_neg h, List.append_nil]

theorem unsigned_of_head {text : List UInt8} (h : text.head? ≠ some '-'.toUInt8) :
    unsigned text = text := by
  cases text with
  | nil => rfl
  | cons c cs =>
      rw [List.head?_cons, ne_eq, Option.some.injEq] at h
      rw [unsigned, if_neg h]

theorem unsigned_decimal (v : ℤ) : unsigned (decimal v) = (lowFirst v.natAbs).reverse := by
  by_cases h : v < 0
  · rw [decimal_of_neg h, unsigned, if_pos rfl]
  · rw [decimal_of_nonneg h]
    exact unsigned_of_head (head_lowFirst_ne_sign _)

theorem head_decimal (v : ℤ) : (decimal v).head? = some '-'.toUInt8 ↔ v < 0 := by
  by_cases h : v < 0
  · rw [decimal_of_neg h]
    exact iff_of_true rfl h
  · rw [decimal_of_nonneg h]
    exact iff_of_false (head_lowFirst_ne_sign _) h

theorem unsigned_decimal_ne_nil (v : ℤ) : unsigned (decimal v) ≠ [] := by
  rw [unsigned_decimal, lowFirst_eq_map]
  simpa using digitList_ne_nil v.natAbs

theorem canonical_decimal (v : ℤ) : Canonical (decimal v) v where
  sign := head_decimal v
  digits := by
    intro c hc
    rw [unsigned_decimal, List.mem_reverse, lowFirst_eq_map] at hc
    obtain ⟨d, hd, rfl⟩ := List.mem_map.1 hc
    rw [digitValue_digitChar (digitList_lt hd)]
    rfl
  ne_nil := unsigned_decimal_ne_nil v
  no_leading_zero := by
    intro hzero
    obtain ⟨d, hd, hlast, hhead⟩ := head_lowFirst v.natAbs
    rw [unsigned_decimal, hhead, Option.some.injEq] at hzero
    rw [digitChar_eq_zero hd hzero] at hlast
    obtain rfl : v = 0 := Int.natAbs_eq_zero.1 (getLast?_digitList hlast)
    exact ⟨rfl, rfl⟩

theorem readDecimal_decimal (v : ℤ) : readDecimal (decimal v) = some v := by
  have hread : readDigits 0 (unsigned (decimal v)) = some v.natAbs := by
    rw [unsigned_decimal, lowFirst_eq_map, readDigits_reverse fun d => digitList_lt,
      ofDigits_digitList]
  rw [readDecimal, if_neg (unsigned_decimal_ne_nil v), hread, Option.map_some]
  congr 1
  by_cases h : v < 0
  · rw [if_pos ((head_decimal v).2 h)]
    omega
  · rw [if_neg (mt (head_decimal v).1 h)]
    omega

example : readDecimal (decimal (-2147483648)) = some (-2147483648) := by decide +kernel

/-- **`convert` is right for every signed type of up to 64 bits.** Where 32 bytes are free it
    returns. It has written the canonical decimal text of the value and a NUL, in at most 32 bytes
    and nothing beside them, it returns the length of the text, and the text reads back as the
    value. In no round is the index outside the table. -/
theorem convert_writes_canonical {n w : ℕ} (hw : w ≤ 64) (buf : CharArray n) (cur : ℕ)
    (hroom : cur + LogStream.kMaxNumericSize ≤ n) (value : BitVec w) :
    ∃ buf' text, detail.convert buf cur value = some (buf', text.length) ∧
      buf.Written buf' cur (text ++ [0]) ∧
      ((text ++ [0]).length : ℤ) ≤ LogStream.kMaxNumericSize ∧
      Canonical text value.toInt ∧ readDecimal text = some value.toInt ∧
      ∀ i : BitVec w, (zero (detail.lsd i).toInt).isSome := by
  have hlen : (decimal value.toInt).length ≤ 19 + 1 :=
    length_decimal_le (by decide) (detail.natAbs_lt_of_width hw value)
  have hsize : LogStream.kMaxNumericSize = 32 := rfl
  obtain ⟨buf', hconvert, hwritten⟩ := convert_written buf cur value.toInt (by omega)
  refine ⟨buf', decimal value.toInt, ?_, hwritten, ?_, canonical_decimal _, readDecimal_decimal _,
    detail.zero_lsd⟩
  · rw [detail.convert_eq, hconvert]
  · rw [List.length_append, List.length_singleton]
    omega

/-- The minimum of the 64-bit type, in an array of 32 bytes. -/
theorem convert_writes_canonical_min :
    let buf : CharArray 32 := ⟨List.replicate 32 0, List.length_replicate⟩
    ∃ buf' text, detail.convert buf 0 (BitVec.intMin 64) = some (buf', text.length) ∧
      buf.Written buf' 0 (text ++ [0]) ∧
      ((text ++ [0]).length : ℤ) ≤ LogStream.kMaxNumericSize ∧
      Canonical text (BitVec.intMin 64).toInt ∧
      readDecimal text = some (BitVec.intMin 64).toInt ∧
      ∀ i : BitVec 64, (zero (detail.lsd i).toInt).isSome :=
  convert_writes_canonical le_rfl _ 0 (by decide) (BitVec.intMin 64)

end WwjMuduo
