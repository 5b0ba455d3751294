import Mathlib
import WwjMuduo.Lib.FixedWidth
import WwjMuduo.Logging

set_option autoImplicit false

/-! # The time in front of a record

A record begins with the date, the time of day and the microseconds in columns of fixed width. The
assertions on these widths hold up to the end of the year 9999, and in that range records compare as
texts in the order of their times.

The calendar is followed day by day: the next day is the next one of the same year, counted from March
on, or the first of the next. -/

namespace WwjMuduo

/-! ## The calendar -/

/-- A day of a cycle of four years, the last of which may have a day more: year and day in it. -/
def inFour (day : ℤ) : ℤ × ℤ := (min (day / 365) 3, day - 365 * min (day / 365) 3)

/-- A day of a century. -/
def inCentury (day : ℤ) : ℤ × ℤ :=
  (4 * (day / 1461) + (inFour (day % 1461)).1, (inFour (day % 1461)).2)

/-- A day of a cycle of four centuries, the last of which may have a day more. -/
def inCycle (day : ℤ) : ℤ × ℤ :=
  (100 * min (day / 36524) 3 + (inCentury (day - 36524 * min (day / 36524) 3)).1,
    (inCentury (day - 36524 * min (day / 36524) 3)).2)

/-- A day since the first of March of the year 0: the year, from March on, and the day in it. -/
def civil (day : ℤ) : ℤ × ℤ :=
  (400 * (day / 146097) + (inCycle (day % 146097)).1, (inCycle (day % 146097)).2)

/-- The next day of a year, or the first of the next. -/
def Next (date date' : ℤ × ℤ) : Prop :=
  date' = (date.1, date.2 + 1) ∨ date' = (date.1 + 1, 0)

theorem inFour_succ {day : ℤ} (h0 : 0 ≤ day) (h : day < 1460) :
    Next (inFour day) (inFour (day + 1)) := by
  simp only [Next, inFour, Prod.mk.injEq]
  omega

theorem inCentury_succ (day : ℤ) : Next (inCentury day) (inCentury (day + 1)) := by
  rcases (by omega : (day + 1) / 1461 = day / 1461 ∧ (day + 1) % 1461 = day % 1461 + 1 ∧
      day % 1461 < 1460 ∨ (day + 1) / 1461 = day / 1461 + 1 ∧ (day + 1) % 1461 = 0 ∧
      day % 1461 = 1460) with ⟨hdiv, hmod, hlt⟩ | ⟨hdiv, hmod, heq⟩
  · have hnext := inFour_succ (Int.emod_nonneg day (by decide : (1461 : ℤ) ≠ 0)) hlt
    simp only [Next, inCentury, hdiv, hmod, Prod.mk.injEq] at hnext ⊢
    rcases hnext with h | h
    · exact .inl (by rw [h]; simp)
    · exact .inr (by rw [h]; simp; omega)
  · right
    have hlast : inFour 1460 = (3, 365) := by decide
    have hfirst : inFour 0 = (0, 0) := by decide
    refine Prod.ext ?_ ?_
    · simp only [inCentury, hdiv, hmod, heq, hlast, hfirst]
      omega
    · simp only [inCentury, hmod, hfirst]

theorem inCycle_succ {day : ℤ} (h0 : 0 ≤ day) (h : day < 146096) :
    Next (inCycle day) (inCycle (day + 1)) := by
  rcases (by omega : min ((day + 1) / 36524) 3 = min (day / 36524) 3 ∨
      min ((day + 1) / 36524) 3 = min (day / 36524) 3 + 1 ∧
      day - 36524 * min (day / 36524) 3 = 36523) with hsame | ⟨hdiv, heq⟩
  · have hday : day + 1 - 36524 * min (day / 36524) 3 = day - 36524 * min (day / 36524) 3 + 1 := by
      omega
    have hnext := inCentury_succ (day - 36524 * min (day / 36524) 3)
    simp only [Next, inCycle, hsame, hday, Prod.mk.injEq] at hnext ⊢
    rcases hnext with h | h
    · exact .inl (by rw [h]; simp)
    · exact .inr (by rw [h]; simp; omega)
  · right
    have hlast : inCentury 36523 = (99, 364) := by decide
    have hfirst : inCentury 0 = (0, 0) := by decide
    have hday : day + 1 - 36524 * (min (day / 36524) 3 + 1) = 0 := by omega
    refine Prod.ext ?_ ?_
    · simp only [inCycle, hdiv, hday, heq, hlast, hfirst]
      omega
    · simp only [inCycle, hdiv, hday, hfirst]

theorem civil_succ (day : ℤ) : Next (civil day) (civil (day + 1)) := by
  rcases (by omega : (day + 1) / 146097 = day / 146097 ∧
      (day + 1) % 146097 = day % 146097 + 1 ∧ day % 146097 < 146096 ∨
      (day + 1) / 146097 = day / 146097 + 1 ∧ (day + 1) % 146097 = 0 ∧
      day % 146097 = 146096) with ⟨hdiv, hmod, hlt⟩ | ⟨hdiv, hmod, heq⟩
  · have hnext := inCycle_succ (Int.emod_nonneg day (by decide : (146097 : ℤ) ≠ 0)) hlt
    simp only [Next, civil, hdiv, hmod, Prod.mk.injEq] at hnext ⊢
    rcases hnext with h | h
    · exact .inl (by rw [h]; simp)
    · exact .inr (by rw [h]; simp; omega)
  · right
    have hlast : inCycle 146096 = (399, 365) := by decide
    have hfirst : inCycle 0 = (0, 0) := by decide
    refine Prod.ext ?_ ?_
    · simp only [civil, hdiv, hmod, heq, hlast, hfirst]
      omega
    · simp only [civil, hmod, hfirst]

/-- The calendar of `gmtime_r`. -/
theorem civil_eq (day : ℤ) : civil day =
    (let in400 := day % 146097
     let century := min (in400 / 36524) 3
     let in100 := in400 - 36524 * century
     let in4 := in100 % 1461
     let year := min (in4 / 365) 3
     (400 * (day / 146097) + 100 * century + 4 * (in100 / 1461) + year, in4 - 365 * year)) := by
  simp only [civil, inCycle, inCentury, inFour, add_assoc]

theorem civil_bounds (day : ℤ) : 0 ≤ (civil day).2 ∧ (civil day).2 ≤ 365 := by
  simp only [civil, inCycle, inCentury, inFour]
  omega

/-- The month from March on that holds a day of the year. -/
def monthOf (yday : ℤ) : ℤ := (5 * yday + 2) / 153

theorem gmtime_r_eq (seconds : ℤ) : gmtime_r seconds =
    let date := civil (seconds / 86400 + 719468)
    { tm_sec := seconds % 86400 % 60
      tm_min := seconds % 86400 / 60 % 60
      tm_hour := seconds % 86400 / 3600
      tm_mday := date.2 - (153 * monthOf date.2 + 2) / 5 + 1
      tm_mon := if monthOf date.2 < 10 then monthOf date.2 + 2 else monthOf date.2 - 10
      tm_year := date.1 + (if monthOf date.2 < 10 then 0 else 1) - 1900 } := by
  rw [civil_eq]
  rfl

/-- Year, month and day of the month as one number. -/
def Tm.dateKey (tm : Tm) : ℤ := ((tm.tm_year + 1900) * 12 + tm.tm_mon) * 32 + tm.tm_mday

/-- January and February belong to the year before, from March on. -/
theorem dateKey_gmtime_r (seconds : ℤ) :
    let date := civil (seconds / 86400 + 719468)
    (gmtime_r seconds).dateKey =
      (date.1 * 12 + monthOf date.2 + 2) * 32 + (date.2 - (153 * monthOf date.2 + 2) / 5 + 1) := by
  rw [gmtime_r_eq, Tm.dateKey]
  simp only
  split_ifs <;> omega

/-- A later day has a greater date. -/
theorem dateKey_strictMono : StrictMono fun day : ℤ => (gmtime_r (day * 86400)).dateKey := by
  refine strictMono_int_of_lt_succ fun day => ?_
  simp only [dateKey_gmtime_r, Int.mul_ediv_cancel _ (by decide : (86400 : ℤ) ≠ 0)]
  have hbounds := civil_bounds (day + 719468)
  have hnext := civil_succ (day + 719468)
  rw [show day + 719468 + 1 = day + 1 + 719468 by omega] at hnext
  rcases hnext with h | h
  · have hmonth : monthOf (civil (day + 719468)).2 ≤ monthOf ((civil (day + 719468)).2 + 1) := by
      simp only [monthOf]
      omega
    rw [h]
    simp only [monthOf] at hmonth ⊢
    omega
  · rw [h]
    simp only [monthOf]
    omega

theorem dateKey_eq_of_day (seconds : ℤ) :
    (gmtime_r seconds).dateKey = (gmtime_r (seconds / 86400 * 86400)).dateKey := by
  rw [dateKey_gmtime_r, dateKey_gmtime_r, Int.mul_ediv_cancel _ (by decide : (86400 : ℤ) ≠ 0)]

/-- The fields of a date and of a time of day. -/
theorem gmtime_r_fields (seconds : ℤ) :
    let tm := gmtime_r seconds
    (0 ≤ tm.tm_mon ∧ tm.tm_mon < 12) ∧ (1 ≤ tm.tm_mday ∧ tm.tm_mday < 32) ∧
      (0 ≤ tm.tm_hour ∧ tm.tm_hour < 24) ∧ (0 ≤ tm.tm_min ∧ tm.tm_min < 60) ∧
      (0 ≤ tm.tm_sec ∧ tm.tm_sec < 60) ∧
      (tm.tm_hour * 60 + tm.tm_min) * 60 + tm.tm_sec = seconds % 86400 := by
  have hbounds := civil_bounds (seconds / 86400 + 719468)
  rw [gmtime_r_eq]
  simp only [monthOf]
  refine ⟨?_, ?_, ?_, ?_, ?_, ?_⟩
  · split_ifs <;> omega
  all_goals omega

/-! ## Columns of digits -/

theorem digitChar_lt_iff {a b : ℕ} (ha : a < 10) (hb : b < 10) :
    digitChar a < digitChar b ↔ a < b := by
  have h : ∀ a : Fin 10, ∀ b : Fin 10, digitChar a < digitChar b ↔ (a : ℕ) < b := by decide
  exact h ⟨a, ha⟩ ⟨b, hb⟩

theorem decimal_of_lt_ten {v : ℤ} (h0 : 0 ≤ v) (h : v < 10) : decimal v = [digitChar v.toNat] := by
  have hdiv : v.natAbs / 10 = 0 := by omega
  have hmod : v.natAbs % 10 = v.toNat := by omega
  rw [decimal_of_nonneg (not_lt.2 h0), lowFirst_eq, if_pos hdiv, hmod, List.reverse_singleton]

theorem decimal_of_ten_le {v : ℤ} (h : 10 ≤ v) :
    decimal v = decimal (v / 10) ++ [digitChar (v % 10).toNat] := by
  have hdiv : v.natAbs / 10 = (v / 10).natAbs := by omega
  have hne : (v / 10).natAbs ≠ 0 := by omega
  have hmod : v.natAbs % 10 = (v % 10).toNat := by omega
  rw [decimal_of_nonneg (by omega), decimal_of_nonneg (by omega), lowFirst_eq v.natAbs, hdiv,
    if_neg hne, hmod, List.reverse_cons]

/-- A number is at least as long as its size. -/
theorem lt_length_decimal {n : ℕ} {v : ℤ} (h : 10 ^ n ≤ v) : n < (decimal v).length := by
  induction n generalizing v with
  | zero => exact List.length_pos_of_ne_nil (decimal_ne_nil v)
  | succ n ih =>
      have hpow : (10 : ℤ) ^ (n + 1) = 10 ^ n * 10 := pow_succ 10 n
      have hpos : (1 : ℤ) ≤ 10 ^ n := one_le_pow₀ (by decide)
      have hlast : 10 ^ n ≤ v / 10 := by omega
      rw [decimal_of_ten_le (by omega), List.length_append, List.length_singleton]
      exact Nat.succ_lt_succ (ih hlast)

/-- A number is digits, perhaps with a sign. -/
theorem not_mem_decimal {c : UInt8} (hdigit : digitValue c = none) (hsign : c ≠ '-'.toUInt8) (v : ℤ) :
    c ∉ decimal v := by
  have hunsigned : c ∉ (lowFirst v.natAbs).reverse := by
    intro h
    rw [← unsigned_decimal] at h
    have hsome := (canonical_decimal v).digits c h
    rw [hdigit] at hsome
    exact absurd hsome (by simp)
  rcases lt_or_ge v 0 with h | h
  · rw [decimal_of_neg h, List.mem_cons]
    exact not_or.2 ⟨hsign, hunsigned⟩
  · rw [decimal_of_nonneg (not_lt.2 h)]
    exact hunsigned

theorem not_mem_zeroPadded {c : UInt8} (hdigit : digitValue c = none) (hsign : c ≠ '-'.toUInt8)
    (width : ℕ) (v : ℤ) : c ∉ zeroPadded width v := by
  have hzero (n : ℕ) : c ∉ List.replicate n '0'.toUInt8 := by
    intro h
    rw [List.eq_of_mem_replicate h] at hdigit
    exact absurd hdigit (by decide)
  unfold zeroPadded
  split_ifs <;> simp [hzero, hsign, not_mem_decimal hdigit hsign]

theorem not_mem_padded {c : UInt8} (hdigit : digitValue c = none) (hsign : c ≠ '-'.toUInt8)
    (hspace : c ≠ ' '.toUInt8) (width : ℕ) (v : ℤ) : c ∉ padded width v := by
  have hblank (n : ℕ) : c ∉ List.replicate n ' '.toUInt8 := fun h =>
    hspace (List.eq_of_mem_replicate h)
  simp [padded, hblank, not_mem_decimal hdigit hsign]

theorem not_mem_snprintf {c : UInt8} {text : List UInt8} (h : c ∉ text) : c ∉ (snprintf text).val :=
  fun hc => h (List.mem_of_mem_take hc)

/-- A number that fills its column needs no padding. -/
theorem padded_eq_zeroPadded {w : ℕ} {v : ℤ} (hw : 1 ≤ w) (h : 10 ^ (w - 1) ≤ v) :
    padded w v = zeroPadded w v := by
  have hlen := lt_length_decimal h
  have hpos : (0 : ℤ) ≤ 10 ^ (w - 1) := by positivity
  have hfull : w - (decimal v).length = 0 := by omega
  rw [padded, zeroPadded, if_neg (by omega), hfull, List.replicate_zero, List.replicate_zero]

theorem zeroPadded_of_nonneg {w : ℕ} {v : ℤ} (h : 0 ≤ v) :
    zeroPadded w v = List.replicate (w - (decimal v).length) '0'.toUInt8 ++ decimal v :=
  if_neg (not_lt.2 h)

/-- One digit more is the last one. -/
theorem zeroPadded_succ {w : ℕ} {v : ℤ} (hw : 1 ≤ w) (h0 : 0 ≤ v) :
    zeroPadded (w + 1) v = zeroPadded w (v / 10) ++ zeroPadded 1 (v % 10) := by
  have hlow : zeroPadded 1 (v % 10) = [digitChar (v % 10).toNat] := by
    rw [zeroPadded_of_nonneg (by omega), decimal_of_lt_ten (by omega) (by omega)]
    rfl
  rw [hlow, zeroPadded_of_nonneg h0, zeroPadded_of_nonneg (by omega : 0 ≤ v / 10)]
  rcases lt_or_ge v 10 with h | h
  · have hdiv : v / 10 = 0 := by omega
    have hmod : v % 10 = v := by omega
    have hzero : decimal 0 = ['0'.toUInt8] := rfl
    rw [hdiv, hmod, hzero, decimal_of_lt_ten h0 h, List.length_singleton, List.length_singleton,
      ← List.replicate_succ', Nat.sub_add_cancel hw, Nat.add_sub_cancel]
  · rw [decimal_of_ten_le h, List.length_append, List.length_singleton, Nat.add_sub_add_right,
      List.append_assoc]

/-- Numbers with leading zeros. -/
theorem keepsOrder_zeroPadded {w : ℕ} (hw : 1 ≤ w) :
    KeepsOrder (Set.Ico 0 (10 ^ w)) w (zeroPadded w) := by
  have hone : KeepsOrder (Set.Ico 0 10) 1 (zeroPadded 1) := by
    have hdigit {v : ℤ} (h : v ∈ Set.Ico 0 10) : zeroPadded 1 v = [digitChar v.toNat] := by
      rw [zeroPadded_of_nonneg h.1, decimal_of_lt_ten h.1 h.2]
      rfl
    refine ⟨fun v hv => by rw [hdigit hv]; rfl, fun a ha b hb => ?_⟩
    obtain ⟨ha0, ha1⟩ := ha
    obtain ⟨hb0, hb1⟩ := hb
    rw [hdigit ⟨ha0, ha1⟩, hdigit ⟨hb0, hb1⟩, List.cons_lt_cons_iff,
      digitChar_lt_iff (by omega) (by omega)]
    simp
    omega
  induction w, hw using Nat.le_induction with
  | base => exact hone
  | succ w hw ih =>
      have hpow : (10 : ℤ) ^ (w + 1) = 10 ^ w * 10 := pow_succ 10 w
      rw [hpow]
      exact (ih.radix (by decide) hone).congr fun v hv => (zeroPadded_succ hw hv.1).symm

namespace Logger

/-! ## The columns of a stamp -/

/-- The first second of the year 10000. -/
def endOfYears : ℤ := 253402300800

/-- The time as it stands in front of a record. -/
def stamp (now : Timestamp) : List UInt8 := (t_time now).val ++ (us now).val

/-- The columns of a stamp as one number in mixed radix. -/
def stampKey (now : ℤ) : ℤ :=
  let tm := gmtime_r (now / 1000000)
  ((((tm.dateKey * 24 + tm.tm_hour) * 60 + tm.tm_min) * 60 + tm.tm_sec) * 1000000) + now % 1000000

/-- The text of that number. -/
def stampText (key : ℤ) : List UInt8 :=
  let sec := key / 1000000
  let min := sec / 60
  let hour := min / 60
  let day := hour / 24
  let month := day / 32
  (((((zeroPadded 4 (month / 12) ++ zeroPadded 2 (month % 12 + 1)) ++ zeroPadded 2 (day % 32) ++
    ascii " ") ++ zeroPadded 2 (hour % 24) ++ ascii ":") ++ zeroPadded 2 (min % 60) ++ ascii ":") ++
    zeroPadded 2 (sec % 60) ++ ascii ".") ++ zeroPadded 6 (key % 1000000) ++ ascii "Z "

theorem keepsOrder_stampText :
    KeepsOrder (Set.Ico 0 (10000 * 12 * 32 * 24 * 60 * 60 * 1000000)) 26 stampText := by
  have htwo {n : ℤ} (hn : n ≤ 100) : KeepsOrder (Set.Ico 0 n) 2 (zeroPadded 2) :=
    (keepsOrder_zeroPadded (w := 2) (by decide)).mono (Set.Ico_subset_Ico_right hn)
  have hmonth : KeepsOrder (Set.Ico 0 12) 2 fun month : ℤ => zeroPadded 2 (month + 1) :=
    (htwo (le_refl 100)).comp (fun month h => ⟨by have := h.1; omega, by have := h.2; omega⟩)
      fun a _ b _ => by omega
  have hsix : KeepsOrder (Set.Ico (0 : ℤ) 1000000) 6 (zeroPadded 6) :=
    keepsOrder_zeroPadded (w := 6) (by decide)
  have hyear : KeepsOrder (Set.Ico (0 : ℤ) 10000) 4 (zeroPadded 4) :=
    keepsOrder_zeroPadded (w := 4) (by decide)
  have hdate := ((hyear.radix (by decide) hmonth).radix (by decide)
    (htwo (by decide : (32 : ℤ) ≤ 100))).suffix (ascii " ")
  have hhour := (hdate.radix (by decide) (htwo (by decide : (24 : ℤ) ≤ 100))).suffix (ascii ":")
  have hmin := (hhour.radix (by decide) (htwo (by decide : (60 : ℤ) ≤ 100))).suffix (ascii ":")
  have hsec := (hmin.radix (by decide) (htwo (by decide : (60 : ℤ) ≤ 100))).suffix (ascii ".")
  exact (hsec.radix (by decide) hsix).suffix (ascii "Z ")

/-- Later times have greater keys. -/
theorem stampKey_strictMono : StrictMono stampKey := by
  intro a b hlt
  have hkey (now : ℤ) : stampKey now =
      ((gmtime_r (now / 1000000 / 86400 * 86400)).dateKey * 86400 + now / 1000000 % 86400) * 1000000 +
        now % 1000000 := by
    obtain ⟨-, -, -, -, -, hsum⟩ := gmtime_r_fields (now / 1000000)
    have hday := dateKey_eq_of_day (now / 1000000)
    simp only [stampKey]
    omega
  rw [hkey a, hkey b]
  rcases lt_or_eq_of_le (by omega : a / 1000000 / 86400 ≤ b / 1000000 / 86400) with hday | hday
  · have hdate := dateKey_strictMono hday
    simp only at hdate
    omega
  · rw [hday]
    omega

/-- A time up to the end of the year 9999. -/
structure InYears (now : ℤ) : Prop where
  nonneg : 0 ≤ now
  lt : now < endOfYears * 1000000

/-- The year has four digits. -/
theorem InYears.year {now : ℤ} (h : InYears now) :
    let tm := gmtime_r (now / 1000000)
    1000 ≤ tm.tm_year + 1900 ∧ tm.tm_year + 1900 < 10000 := by
  have h0 := h.nonneg
  have hlt := h.lt
  simp only [endOfYears] at hlt
  have hprintable : (gmtime_r (now / 1000000)).Printable := gmtime_r_printable (by omega) (by omega)
  refine ⟨?_, hprintable.year.2⟩
  simp only [gmtime_r]
  omega

theorem stampKey_mem {now : ℤ} (h : InYears now) :
    stampKey now ∈ Set.Ico 0 (10000 * 12 * 32 * 24 * 60 * 60 * 1000000 : ℤ) := by
  obtain ⟨hyear0, hyear1⟩ := h.year
  obtain ⟨hmon, hmday, hhour, hmin, hsec, -⟩ := gmtime_r_fields (now / 1000000)
  simp only [stampKey, Tm.dateKey, Set.mem_Ico]
  omega

/-- The columns of a number in mixed radix are its digits. -/
theorem stampText_radix {year mon mday hour min sec us : ℤ} (hmon : 0 ≤ mon ∧ mon < 12)
    (hmday : 1 ≤ mday ∧ mday < 32) (hhour : 0 ≤ hour ∧ hour < 24) (hmin : 0 ≤ min ∧ min < 60)
    (hsec : 0 ≤ sec ∧ sec < 60) (hus : 0 ≤ us ∧ us < 1000000) :
    stampText ((((((year * 12 + mon) * 32 + mday) * 24 + hour) * 60 + min) * 60 + sec) * 1000000 +
        us) =
      (((((zeroPadded 4 year ++ zeroPadded 2 (mon + 1)) ++ zeroPadded 2 mday ++ ascii " ") ++
        zeroPadded 2 hour ++ ascii ":") ++ zeroPadded 2 min ++ ascii ":") ++
        zeroPadded 2 sec ++ ascii ".") ++ zeroPadded 6 us ++ ascii "Z " := by
  have hdigit {n q r : ℤ} (hn : 0 < n) (hr : 0 ≤ r ∧ r < n) :
      (q * n + r) / n = q ∧ (q * n + r) % n = r := by
    constructor
    · rw [add_comm, Int.add_mul_ediv_right _ _ (ne_of_gt hn), Int.ediv_eq_zero_of_lt hr.1 hr.2,
        zero_add]
    · rw [add_comm, Int.add_mul_emod_self_right, Int.emod_eq_of_lt hr.1 hr.2]
  simp only [stampText, hdigit (by decide : (0 : ℤ) < 1000000) hus,
    hdigit (by decide : (0 : ℤ) < 60) hsec, hdigit (by decide : (0 : ℤ) < 60) hmin,
    hdigit (by decide : (0 : ℤ) < 24) hhour, hdigit (by decide : (0 : ℤ) < 32) ⟨by omega, hmday.2⟩,
    hdigit (by decide : (0 : ℤ) < 12) hmon]

/-- A stamp is the text of its key. -/
theorem stamp_eq {now : ℤ} (h : InYears now) : stamp now = stampText (stampKey now) := by
  have h0 := h.nonneg
  obtain ⟨hyear0, hyear1⟩ := h.year
  obtain ⟨hmon, hmday, hhour, hmin, hsec, -⟩ := gmtime_r_fields (now / 1000000)
  have hstamped : Stamped now := stamped_of_lt h0 h.lt
  have hwhole {text : List UInt8} (hlen : (snprintf text).val.length < 31) :
      (snprintf text).val = text := by
    have htake : (snprintf text).val = text.take 31 := rfl
    rw [htake, List.length_take] at hlen
    rw [htake, List.take_of_length_le (by omega)]
  have ht : (t_time now).val.length < 31 := by
    rw [hstamped.length_t_time]
    decide
  have hu : (us now).val.length < 31 := by
    rw [hstamped.length_us]
    decide
  have hus : 0 ≤ now % 1000000 ∧ now % 1000000 < 1000000 := by omega
  have hyear : padded 4 ((gmtime_r (now / 1000000)).tm_year + 1900) =
      zeroPadded 4 ((gmtime_r (now / 1000000)).tm_year + 1900) :=
    padded_eq_zeroPadded (by decide) hyear0
  rw [stamp, t_time, hwhole ht, us, hwhole hu, Int.tdiv_eq_ediv_of_nonneg h0,
    Int.tmod_eq_emod_of_nonneg h0, hyear]
  simp only [stampKey, Tm.dateKey, stampText_radix hmon hmday hhour hmin hsec hus,
    List.append_assoc]

/-- **Stamps are in the order of time.** Up to the end of the year 9999 the texts in front of two
    records compare as their times. -/
theorem stamp_lt_iff {a b : ℤ} (ha : InYears a) (hb : InYears b) : stamp a < stamp b ↔ a < b := by
  rw [stamp_eq ha, stamp_eq hb, keepsOrder_stampText.lt_iff _ (stampKey_mem ha) _ (stampKey_mem hb),
    stampKey_strictMono.lt_iff_lt]

theorem stamp_eq_iff {a b : ℤ} (ha : InYears a) (hb : InYears b) : stamp a = stamp b ↔ a = b := by
  rw [stamp_eq ha, stamp_eq hb, keepsOrder_stampText.eq_iff (stampKey_mem ha) (stampKey_mem hb),
    stampKey_strictMono.injective.eq_iff]

/-! ## When the assertions hold -/

theorem length_decimal_of_neg {v : ℤ} (h : v < 0) :
    (decimal v).length = (decimal (-v)).length + 1 := by
  rw [decimal_of_neg h, decimal_of_nonneg (by omega), List.length_cons, Int.natAbs_neg]

/-- A sign takes a place. -/
theorem length_decimal_le_iff {w : ℕ} (hw : 0 < w) (v : ℤ) :
    (decimal v).length ≤ w + 1 ↔ -10 ^ w < v ∧ v < 10 ^ (w + 1) := by
  have hpow (n : ℕ) : (1 : ℤ) ≤ 10 ^ n := one_le_pow₀ (by decide)
  have hnonneg {u : ℤ} {n : ℕ} (hn : 0 < n) (hu : 0 ≤ u) : (decimal u).length ≤ n ↔ u < 10 ^ n := by
    constructor
    · intro hle
      by_contra hge
      have hlt := lt_length_decimal (not_lt.1 hge)
      omega
    · intro hlt
      exact length_decimal_of_lt hn ⟨hu, hlt⟩
  have hw0 := hpow w
  have hw1 := hpow (w + 1)
  rcases lt_or_ge v 0 with h | h
  · rw [length_decimal_of_neg h, Nat.succ_le_succ_iff, hnonneg hw (by omega)]
    omega
  · rw [hnonneg (Nat.succ_pos w) h]
    omega

theorem length_padded_eq_iff {w : ℕ} (v : ℤ) :
    (padded w v).length = w ↔ (decimal v).length ≤ w := by
  rw [padded, List.length_append, List.length_replicate]
  omega

theorem length_zeroPadded_eq_iff {w : ℕ} (v : ℤ) :
    (zeroPadded w v).length = w ↔ (decimal v).length ≤ w := by
  have hzeros (n : ℕ) : (List.replicate n '0'.toUInt8).length = n := List.length_replicate
  rw [zeroPadded]
  split_ifs with h
  · have hlen := length_decimal_of_neg h
    rw [List.length_append, List.length_cons, hzeros]
    omega
  · rw [List.length_append, hzeros]
    omega

/-- The years that fit their column begin and end with these seconds. -/
theorem year_fits_iff (seconds : ℤ) :
    (-1000 < (gmtime_r seconds).tm_year + 1900 ∧ (gmtime_r seconds).tm_year + 1900 < 10000) ↔
      -93692592000 ≤ seconds ∧ seconds < endOfYears := by
  obtain ⟨hmon, hmday, -⟩ := gmtime_r_fields seconds
  have hday := dateKey_eq_of_day seconds
  have hfirst : (gmtime_r (-1084405 * 86400)).dateKey = (-999 * 12) * 32 + 1 := by decide +kernel
  have hlast : (gmtime_r (2932896 * 86400)).dateKey = (9999 * 12 + 11) * 32 + 31 := by decide +kernel
  have hge := dateKey_strictMono.le_iff_le (a := -1084405) (b := seconds / 86400)
  have hle := dateKey_strictMono.le_iff_le (a := seconds / 86400) (b := 2932896)
  simp only [hfirst, hlast, ← hday] at hge hle
  simp only [Tm.dateKey] at hge hle
  rw [endOfYears]
  omega

theorem length_t_time (now : Timestamp) : (t_time now).val.length =
    min 31 ((padded 4 ((gmtime_r (now.tdiv 1000000)).tm_year + 1900)).length + 13) := by
  obtain ⟨hmon, hmday, hhour, hmin, hsec, -⟩ := gmtime_r_fields (now.tdiv 1000000)
  have htwo {v : ℤ} (h0 : 0 ≤ v) (h : v < 100) : (zeroPadded 2 v).length = 2 :=
    length_zeroPadded (by decide) ⟨h0, by omega⟩
  have hspace : (ascii " ").length = 1 := rfl
  have hcolon : (ascii ":").length = 1 := rfl
  simp only [t_time, snprintf, List.length_take, List.length_append, hspace, hcolon]
  rw [htwo (by omega) (by omega), htwo (by omega) (by omega), htwo (by omega) (by omega),
    htwo (by omega) (by omega), htwo (by omega) (by omega)]

theorem length_us (now : Timestamp) :
    (us now).val.length = min 31 ((zeroPadded 6 (now.tmod 1000000)).length + 3) := by
  have hdot : (ascii ".").length = 1 := rfl
  have hzone : (ascii "Z ").length = 2 := rfl
  simp only [us, snprintf, List.length_take, List.length_append, hdot, hzone]
  omega

theorem stamped_iff (now : ℤ) : Stamped now ↔
    (-93692592000 ≤ now.tdiv 1000000 ∧ now.tdiv 1000000 < endOfYears) ∧
      -100000 < now.tmod 1000000 := by
  have hyear := year_fits_iff (now.tdiv 1000000)
  have hcolumn := length_padded_eq_iff (w := 4) ((gmtime_r (now.tdiv 1000000)).tm_year + 1900)
  have hdigits := length_decimal_le_iff (by decide : 0 < 3)
    ((gmtime_r (now.tdiv 1000000)).tm_year + 1900)
  have hcolumn' := length_zeroPadded_eq_iff (w := 6) (now.tmod 1000000)
  have hdigits' := length_decimal_le_iff (by decide : 0 < 5) (now.tmod 1000000)
  have hlt : now.tmod 1000000 < 1000000 := Int.tmod_lt_of_pos now (by decide)
  have ht := length_t_time now
  have hu := length_us now
  norm_num at hdigits hdigits'
  constructor
  · rintro ⟨h1, h2⟩
    rw [h1] at ht
    rw [h2] at hu
    have hfour : (padded 4 ((gmtime_r (now.tdiv 1000000)).tm_year + 1900)).length = 4 := by omega
    have hsix : (zeroPadded 6 (now.tmod 1000000)).length = 6 := by omega
    exact ⟨hyear.1 (hdigits.1 (hcolumn.1 hfour)), (hdigits'.1 (hcolumn'.1 hsix)).1⟩
  · rintro ⟨h1, h2⟩
    have hfour := hcolumn.2 (hdigits.2 (hyear.2 h1))
    have hsix := hcolumn'.2 (hdigits'.2 ⟨h2, hlt⟩)
    exact ⟨by rw [ht, hfour]; rfl, by rw [hu, hsix]; rfl⟩

/-- **When a logger can be made.** The assertions on the two texts of the time hold, for every level,
    file and message, exactly for the times from the first second of the year -999 to the last of the
    year 9999 whose microseconds, negative before the epoch, fit their column with the sign. -/
theorem logger_made_iff (strerror_r : Int32 → Text) (data : CharArray LogStream.kSmallBuffer)
    (now : ℤ) (errno : Int32) (file : Text) (line : Int32) (ctor : Ctor) :
    (∃ logger, Logger.new strerror_r data now errno file line ctor = some logger) ↔
      (-93692592000 ≤ now.tdiv 1000000 ∧ now.tdiv 1000000 < 253402300800) ∧
        -100000 < now.tmod 1000000 := by
  rw [← show endOfYears = 253402300800 from rfl, ← stamped_iff now]
  exact ⟨fun ⟨_, hnew⟩ => stamped_of_new hnew, fun h => new_of_stamped h⟩

/-! ## Records -/

section Records

variable {strerror_r strerror_r' : Int32 → Text} {data data' : CharArray LogStream.kSmallBuffer}
  {a b : ℤ} {errno errno' : Int32} {file file' : Text} {line line' : Int32} {ctor ctor' : Ctor}
  {logger logger' : Logger}

/-- Whatever is logged, the record begins with the stamp. -/
theorem stamp_prefix (hnew : Logger.new strerror_r data a errno file line ctor = some logger)
    {args : List Arg} {record : List UInt8} {abort : Bool}
    (hrecord : (logger.shl args).bind Logger.destroy = some (record, abort)) :
    ∃ rest, record = stamp a ++ rest := by
  have hstamped := stamped_of_new hnew
  rw [destroy_eq hnew, Option.some.injEq, Prod.mk.injEq] at hrecord
  have hsize : (LogStream.kSmallBuffer : ℤ) = 4000 := rfl
  have hfirst : (Arg.t (t_time a)).Fits 4000 := by
    show ((t_time a).val.length : ℤ) < 4000
    rw [hstamped.length_t_time]
    decide
  have hsecond : (Arg.t (us a)).Fits (4000 - (t_time a).val.length) := by
    show ((us a).val.length : ℤ) < 4000 - (t_time a).val.length
    rw [hstamped.length_t_time, hstamped.length_us]
    decide
  refine ⟨(Arg.kept (4000 - (t_time a).val.length - (us a).val.length)
    ([.t (LogLevelName ctor.recordLevel)] ++ errnoArgs strerror_r (ctor.savedErrno errno) ++
      ctor.args ++ args ++ trailer file line)).flatMap Arg.text, ?_⟩
  rw [← hrecord.1, hsize, header]
  simp only [List.cons_append, List.nil_append, List.append_assoc]
  have htext (str : Text) : (Arg.t str).text = str.val := rfl
  rw [Arg.kept, if_pos hfirst, Arg.kept, htext, htext, if_pos hsecond]
  simp only [List.flatMap_cons, stamp, htext, List.append_assoc]

/-- **Records sort by time.** Two records of different times, up to the end of the year 9999, compare
    as texts as their times do, whatever else stands in them and however much of it was dropped. -/
theorem records_in_order (ha : InYears a) (hb : InYears b) (hne : a ≠ b)
    (hnew : Logger.new strerror_r data a errno file line ctor = some logger)
    (hnew' : Logger.new strerror_r' data' b errno' file' line' ctor' = some logger')
    {args args' : List Arg} {record record' : List UInt8} {abort abort' : Bool}
    (hrecord : (logger.shl args).bind Logger.destroy = some (record, abort))
    (hrecord' : (logger'.shl args').bind Logger.destroy = some (record', abort')) :
    record < record' ↔ a < b := by
  obtain ⟨rest, hrest⟩ := stamp_prefix hnew hrecord
  obtain ⟨rest', hrest'⟩ := stamp_prefix hnew' hrecord'
  have hlength {now : ℤ} (h : InYears now) : (stamp now).length = 26 := by
    have hstamped : Stamped now := stamped_of_lt h.nonneg h.lt
    rw [stamp, List.length_append, hstamped.length_t_time, hstamped.length_us]
  rw [hrest, hrest', List.append_lt_append_iff ((hlength ha).trans (hlength hb).symm),
    stamp_lt_iff ha hb]
  exact or_iff_left fun h => hne ((stamp_eq_iff ha hb).1 h.1)

/-- The last microsecond of a February and the first of its leap day. -/
theorem records_in_order_leap_day :
    let file : Text := ⟨ascii "a.cc", by decide⟩
    ∃ logger logger' record record', Logger.new (fun _ => ⟨[], by decide⟩)
        ⟨List.replicate 4000 0, List.length_replicate⟩ 951782399999999 0 file 1 .plain = some logger ∧
      Logger.new (fun _ => ⟨[], by decide⟩) ⟨List.replicate 4000 0, List.length_replicate⟩
        951782400000000 0 file 1 (.level .FATAL) = some logger' ∧
      (logger.shl []).bind Logger.destroy = some (record, false) ∧
      (logger'.shl []).bind Logger.destroy = some (record', true) ∧ record < record' := by
  intro file
  have ha : InYears 951782399999999 := ⟨by decide, by decide⟩
  have hb : InYears 951782400000000 := ⟨by decide, by decide⟩
  have hmake {now : ℤ} (h : InYears now) (ctor : Ctor) : ∃ logger,
      Logger.new (fun _ => ⟨[], by decide⟩) ⟨List.replicate 4000 0, List.length_replicate⟩ now 0 file 1
        ctor = some logger := new_of_stamped (stamped_of_lt h.nonneg h.lt)
  obtain ⟨logger, hnew⟩ := hmake ha .plain
  obtain ⟨logger', hnew'⟩ := hmake hb (.level .FATAL)
  have hrecord := destroy_eq hnew []
  have hrecord' := destroy_eq hnew' []
  exact ⟨logger, logger', _, _, hnew, hnew', hrecord, hrecord',
    (records_in_order ha hb (by decide) hnew hnew' hrecord hrecord').2 (by decide)⟩

end Records

end Logger

end WwjMuduo
