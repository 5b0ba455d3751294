import WwjMuduo.Logging.Stamp

set_option autoImplicit false

/-! # The text of a Timestamp

`Timestamp::toString` prints the seconds and the microseconds of a time with a point between them, the
second number in a column of six. Of a time before the epoch both are negative, and the sign takes a
place in the column. The buffer is large enough for all times, and no two have one text. -/

namespace WwjMuduo

namespace Timestamp

/-- `Timestamp::toString`. `snprintf` may write all but one of the 32 bytes of `buf`. -/
def toString (microSecondsSinceEpoch_ : Timestamp) : Text :=
  let seconds := microSecondsSinceEpoch_.tdiv 1000000
  let microseconds := microSecondsSinceEpoch_.tmod 1000000
  ⟨(decimal seconds ++ ascii "." ++ zeroPadded 6 microseconds).take 30,
    lt_of_le_of_lt (List.length_take_le 30 _) (by decide)⟩

example : (toString 1700000000000042).val = ascii "1700000000.000042" := by decide +kernel

example : (toString (-1500000)).val = ascii "-1.-500000" := by decide +kernel

end Timestamp

/-! ## Columns of digits, read back -/

/-- Zeros in front change nothing. -/
theorem readDigits_zeros (n : ℕ) (text : List UInt8) :
    readDigits 0 (List.replicate n '0'.toUInt8 ++ text) = readDigits 0 text := by
  induction n with
  | zero => rfl
  | succ n ih =>
      rw [List.replicate_succ, List.cons_append, readDigits]
      exact ih

theorem zeroPadded_of_neg {w : ℕ} {v : ℤ} (h : v < 0) : zeroPadded w v =
    '-'.toUInt8 :: (List.replicate (w - (decimal v).length) '0'.toUInt8 ++ decimal (-v)) :=
  if_pos h

/-- A column has a sign where its number has one. -/
theorem head_zeroPadded (w : ℕ) (v : ℤ) : (zeroPadded w v).head? = some '-'.toUInt8 ↔ v < 0 := by
  rcases lt_or_ge v 0 with h | h
  · rw [zeroPadded_of_neg h, List.head?_cons]
    exact iff_of_true rfl h
  · rw [zeroPadded_of_nonneg h]
    cases w - (decimal v).length with
    | zero => exact head_decimal v
    | succ n =>
        rw [List.replicate_succ, List.cons_append, List.head?_cons]
        exact iff_of_false (by decide) (not_lt.2 h)

theorem unsigned_zeroPadded (w : ℕ) (v : ℤ) : unsigned (zeroPadded w v) =
    List.replicate (w - (decimal v).length) '0'.toUInt8 ++ unsigned (decimal v) := by
  rw [unsigned_decimal]
  rcases lt_or_ge v 0 with h | h
  · rw [zeroPadded_of_neg h, unsigned, if_pos rfl, decimal_of_nonneg (show ¬ -v < 0 by omega),
      Int.natAbs_neg]
  · rw [unsigned_of_head (mt (head_zeroPadded w v).1 (not_lt.2 h)), zeroPadded_of_nonneg h,
      ← decimal_of_nonneg (not_lt.2 h)]

/-- A column reads back as its number. -/
theorem readDecimal_zeroPadded (w : ℕ) (v : ℤ) : readDecimal (zeroPadded w v) = some v := by
  have hne : unsigned (zeroPadded w v) ≠ [] := by
    rw [unsigned_zeroPadded]
    exact List.append_ne_nil_of_right_ne_nil _ (unsigned_decimal_ne_nil v)
  have hdecimal := readDecimal_decimal v
  rw [readDecimal, if_neg (unsigned_decimal_ne_nil v)] at hdecimal
  rw [readDecimal, if_neg hne, unsigned_zeroPadded, readDigits_zeros]
  simp only [head_zeroPadded, head_decimal] at hdecimal ⊢
  exact hdecimal

namespace Timestamp

/-- A number of 64 bits, as a time is in the source. -/
structure Fits (now : ℤ) : Prop where
  le : -2 ^ 63 ≤ now
  lt : now < 2 ^ 63

theorem length_zeroPadded_le {w : ℕ} (hw : 0 < w) {v : ℤ} (h : v.natAbs < 10 ^ w) :
    (zeroPadded w v).length ≤ w + 1 := by
  have hlen := length_decimal_le hw h
  rcases lt_or_ge v 0 with hneg | hnonneg
  · have hdecimal := Logger.length_decimal_of_neg hneg
    rw [zeroPadded_of_neg hneg, List.length_cons, List.length_append, List.length_replicate]
    omega
  · rw [zeroPadded_of_nonneg hnonneg, List.length_append, List.length_replicate]
    omega

/-- The text of a time is never cut off. -/
theorem toString_eq {now : ℤ} (h : Fits now) : (toString now).val =
    decimal (now.tdiv 1000000) ++ ascii "." ++ zeroPadded 6 (now.tmod 1000000) := by
  have hle := h.le
  have hlt := h.lt
  have hdiv : (now.tdiv 1000000).natAbs = now.natAbs / 1000000 := Int.natAbs_tdiv now 1000000
  have hmod : (now.tmod 1000000).natAbs = now.natAbs % 1000000 := Int.natAbs_tmod now 1000000
  have hseconds : (decimal (now.tdiv 1000000)).length ≤ 13 + 1 :=
    length_decimal_le (by decide) (by omega)
  have hmicroseconds : (zeroPadded 6 (now.tmod 1000000)).length ≤ 6 + 1 :=
    length_zeroPadded_le (by decide) (by omega)
  have hpoint : (ascii ".").length = 1 := rfl
  refine List.take_of_length_le ?_
  rw [List.length_append, List.length_append, hpoint]
  omega

/-- The time that a text says: seconds, a point, and microseconds. -/
def ofText (text : List UInt8) : Option ℤ :=
  match text.splitOn '.'.toUInt8 with
  | [seconds, microseconds] =>
    (readDecimal seconds).bind fun seconds => (readDecimal microseconds).map fun microseconds =>
      seconds * 1000000 + microseconds
  | _ => none

/-- **Times from their texts.** The text of every time is never cut off by the buffer and says which
    time it is, before the epoch too. -/
theorem ofText_toString {now : ℤ} (h : Fits now) :
    (toString now).val =
        decimal (now.tdiv 1000000) ++ ascii "." ++ zeroPadded 6 (now.tmod 1000000) ∧
      ofText (toString now).val = some now := by
  refine ⟨toString_eq h, ?_⟩
  have hdigit : digitValue '.'.toUInt8 = none := by decide
  have hsign : '.'.toUInt8 ≠ '-'.toUInt8 := by decide
  have hpoint : ascii "." = ['.'.toUInt8] := rfl
  have hsplit : (toString now).val.splitOn '.'.toUInt8 =
      [decimal (now.tdiv 1000000), zeroPadded 6 (now.tmod 1000000)] := by
    rw [toString_eq h, hpoint, List.append_assoc, List.singleton_append,
      List.splitOn_append_cons_self_of_not_mem (not_mem_decimal hdigit hsign _),
      List.splitOn_eq_singleton (not_mem_zeroPadded hdigit hsign 6 _)]
  have hsum : now.tdiv 1000000 * 1000000 + now.tmod 1000000 = now := Int.tdiv_mul_add_tmod now 1000000
  rw [ofText, hsplit]
  simp only [readDecimal_decimal, readDecimal_zeroPadded, Option.bind_some, Option.map_some, hsum]

/-- Half a second before the epoch. -/
theorem ofText_toString_before_epoch : (toString (-500000)).val = ascii "0.-500000" ∧
    decimal 0 ++ ascii "." ++ zeroPadded 6 (-500000) = ascii "0.-500000" ∧
    ofText (ascii "0.-500000") = some (-500000) := by
  have htext : (toString (-500000)).val = ascii "0.-500000" := by decide +kernel
  obtain ⟨hwhole, hread⟩ := @ofText_toString (-500000) ⟨by decide, by decide⟩
  rw [htext] at hwhole hread
  exact ⟨htext, hwhole.symm, hread⟩

end Timestamp

end WwjMuduo
