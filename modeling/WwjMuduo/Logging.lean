import Mathlib.Tactic.Common
import WwjMuduo.LogStream.Convert
import WwjMuduo.Timer

set_option autoImplicit false

/-! # Logging

A `Logger` writes a header to its stream when it is made, the message is streamed behind it, and the
destructor writes a trailer and hands the record to `g_output`. All of it goes through the operators
of the stream, which drop what does not fit.

An assertion that fails is `none`. The text of an error number, which `strerror_r` chooses, is a
parameter. -/

namespace WwjMuduo

/-- The bytes of a string literal. -/
def ascii (s : String) : List UInt8 := s.toList.map Char.toUInt8

/-! ## Library functions -/

/-- The fields of `struct tm` that are read. -/
structure Tm where
  tm_sec : ℤ
  tm_min : ℤ
  tm_hour : ℤ
  tm_mday : ℤ
  tm_mon : ℤ
  tm_year : ℤ
deriving DecidableEq, Repr

/-- The date and time of a second since the epoch. Years are counted from the first of March, so
    that the leap day is the last day of its year, and in cycles of 400, 100, 4 and 1. -/
def gmtime_r (seconds : ℤ) : Tm :=
  let second := seconds % 86400
  let day := seconds / 86400 + 719468
  let in400 := day % 146097
  let century := min (in400 / 36524) 3
  let in100 := in400 - 36524 * century
  let in4 := in100 % 1461
  let year := min (in4 / 365) 3
  let yday := in4 - 365 * year
  -- the months from March on, whose lengths repeat every five
  let month := (5 * yday + 2) / 153
  { tm_sec := second % 60
    tm_min := second / 60 % 60
    tm_hour := second / 3600
    tm_mday := yday - (153 * month + 2) / 5 + 1
    tm_mon := if month < 10 then month + 2 else month - 10
    tm_year := 400 * (day / 146097) + 100 * century + 4 * (in100 / 1461) + year +
      (if month < 10 then 0 else 1) - 1900 }

example : gmtime_r 951782399 = ⟨59, 59, 23, 28, 1, 100⟩ := by decide

example : gmtime_r 951782400 = ⟨0, 0, 0, 29, 1, 100⟩ := by decide

/-- The fields fit the widths that they are printed with. -/
structure Tm.Printable (tm : Tm) : Prop where
  year : 0 ≤ tm.tm_year + 1900 ∧ tm.tm_year + 1900 < 10 ^ 4
  mon : 0 ≤ tm.tm_mon + 1 ∧ tm.tm_mon + 1 < 10 ^ 2
  mday : 0 ≤ tm.tm_mday ∧ tm.tm_mday < 10 ^ 2
  hour : 0 ≤ tm.tm_hour ∧ tm.tm_hour < 10 ^ 2
  min : 0 ≤ tm.tm_min ∧ tm.tm_min < 10 ^ 2
  sec : 0 ≤ tm.tm_sec ∧ tm.tm_sec < 10 ^ 2

/-- From the epoch to the end of the year 9999. -/
theorem gmtime_r_printable {seconds : ℤ} (h0 : 0 ≤ seconds) (h : seconds < 253402300800) :
    (gmtime_r seconds).Printable := by
  constructor <;> simp only [gmtime_r] <;> omega

/-- `%<width>d`. -/
def padded (width : ℕ) (v : ℤ) : List UInt8 :=
  List.replicate (width - (decimal v).length) ' '.toUInt8 ++ decimal v

/-- `%0<width>d`. The sign counts, and stands before the zeros. -/
def zeroPadded (width : ℕ) (v : ℤ) : List UInt8 :=
  if v < 0 then
    '-'.toUInt8 :: List.replicate (width - (decimal v).length) '0'.toUInt8 ++ decimal (-v)
  else List.replicate (width - (decimal v).length) '0'.toUInt8 ++ decimal v

/-- The string that `snprintf` leaves in a `char[32]`. -/
def snprintf (text : List UInt8) : Text :=
  ⟨text.take 31, lt_of_le_of_lt (List.length_take_le 31 text) (by decide)⟩

/-- `strrchr`: the string from the last `c` on. -/
def strrchr (c : UInt8) : List UInt8 → Option (List UInt8)
  | [] => none
  | x :: xs => strrchr c xs <|> if x = c then some (x :: xs) else none

theorem strrchr_suffix {c : UInt8} {str p : List UInt8} (h : strrchr c str = some p) :
    p <:+ str := by
  induction str with
  | nil => exact absurd h (by simp [strrchr])
  | cons x xs ih =>
      rw [strrchr, Option.orElse_eq_some] at h
      rcases h with h | ⟨-, h⟩
      · exact (ih h).trans (List.suffix_cons x xs)
      · split at h
        · obtain rfl := Option.some.inj h
          exact List.suffix_rfl
        · exact absurd h (by simp)

/-! ## The logger -/

/-- `Logger::LogLevel`, without the number of levels. -/
inductive LogLevel where
  | TRACE
  | DEBUG
  | INFO
  | WARN
  | ERROR
  | FATAL
deriving DecidableEq, Repr

def LogLevelName : LogLevel → Text
  | .TRACE => ⟨ascii "TRACE ", by decide⟩
  | .DEBUG => ⟨ascii "DEBUG ", by decide⟩
  | .INFO => ⟨ascii "INFO  ", by decide⟩
  | .WARN => ⟨ascii "WARN  ", by decide⟩
  | .ERROR => ⟨ascii "ERROR ", by decide⟩
  | .FATAL => ⟨ascii "FATAL ", by decide⟩

/-- The constructor of `T`, with its assertion. -/
def T (str : Text) (len : ℕ) : Option Arg := if str.val.length = len then some (.t str) else none

namespace Logger

structure Impl where
  stream_ : LogStream
  level_ : LogLevel
  time_ : Timestamp
  line_ : Int32
  basename_ : Text
  fullname_ : Text

/-- What the constructor makes of `fullname_`: what is behind the last `/`, if there is one. -/
def basename (fullname : Text) : Text :=
  match h : strrchr '/'.toUInt8 fullname.val with
  | some path_sep_pos => ⟨path_sep_pos.tail, by
      have hle := (strrchr_suffix h).length_le
      have hlt := fullname.property
      rw [List.length_tail]
      omega⟩
  | none => fullname

/-- `t_time`, as `formatTime` leaves it. -/
def t_time (time : Timestamp) : Text :=
  let tm_time := gmtime_r (time.tdiv 1000000)
  snprintf (padded 4 (tm_time.tm_year + 1900) ++ zeroPadded 2 (tm_time.tm_mon + 1) ++
    zeroPadded 2 tm_time.tm_mday ++ ascii " " ++ zeroPadded 2 tm_time.tm_hour ++ ascii ":" ++
    zeroPadded 2 tm_time.tm_min ++ ascii ":" ++ zeroPadded 2 tm_time.tm_sec)

/-- `Fmt us(".%06dZ ", microseconds)`. -/
def us (time : Timestamp) : Text :=
  snprintf (ascii "." ++ zeroPadded 6 (time.tmod 1000000) ++ ascii "Z ")

namespace Impl

/-- A chain of operators on `stream_`. -/
def shl (impl : Impl) (args : List Arg) : Option Impl :=
  (Run.run LogStream.shl impl.stream_ args).map fun stream => { impl with stream_ := stream }

def formatTime (impl : Impl) : Option Impl :=
  (T (t_time impl.time_) 17).bind fun t => (T (us impl.time_) 9).bind fun us => impl.shl [t, us]

def finish (impl : Impl) : Option Impl :=
  impl.shl [.cString ⟨ascii " - ", by decide⟩, .cString impl.basename_, .char ':'.toUInt8,
    .int impl.line_, .char '\n'.toUInt8]

end Impl

end Logger

structure Logger where
  impl_ : Logger.Impl

namespace Logger

/-- The four constructors, with what they take besides the file and the line. -/
inductive Ctor where
  | levelFunc (level : LogLevel) (func : Text)
  | plain
  | level (level : LogLevel)
  | toAbort (toAbort : Bool)

section Construct

variable (strerror_r : Int32 → Text) (data : CharArray LogStream.kSmallBuffer) (now : Timestamp)
  (errno : Int32) (file : Text) (line : Int32)

def strerror_tl (savedErrno : Int32) : Text := strerror_r savedErrno

/-- The members of an `Impl`, as its constructor sets them. -/
def Impl.init (level : LogLevel) : Impl :=
  { stream_ := LogStream.new data
    level_ := level
    time_ := now
    line_ := line
    basename_ := basename file
    fullname_ := file }

/-- The constructor of `Impl`. -/
def Impl.new (level : LogLevel) (savedErrno : Int32) : Option Impl :=
  (Impl.init data now file line level).formatTime.bind fun impl =>
    (T (LogLevelName level) 6).bind fun name => (impl.shl [name]).bind fun impl =>
      if savedErrno ≠ 0 then
        impl.shl [.cString (strerror_tl strerror_r savedErrno),
          .cString ⟨ascii " (errno=", by decide⟩, .int savedErrno, .cString ⟨ascii ") ", by decide⟩]
      else some impl

/-- The constructors. The last one reads `errno`. -/
def new : Ctor → Option Logger
  | .levelFunc level func =>
    ((Impl.new strerror_r data now file line level 0).bind fun impl =>
      impl.shl [.cString func, .char ' '.toUInt8]).map Logger.mk
  | .plain => (Impl.new strerror_r data now file line .INFO 0).map Logger.mk
  | .level level => (Impl.new strerror_r data now file line level 0).map Logger.mk
  | .toAbort toAbort =>
    (Impl.new strerror_r data now file line (if toAbort then .FATAL else .ERROR) errno).map
      Logger.mk

end Construct

/-- A message, streamed to `stream()`. -/
def shl (logger : Logger) (args : List Arg) : Option Logger := (logger.impl_.shl args).map Logger.mk

/-- The destructor: the record that `g_output` is given, and whether the program is then flushed and
    aborted. -/
def destroy (logger : Logger) : Option (List UInt8 × Bool) :=
  logger.impl_.finish.map fun impl =>
    (impl.stream_.buffer_.contents, decide (impl.level_ = .FATAL))

/-! ## What is written -/

namespace Ctor

/-- The level of the record. -/
def recordLevel : Ctor → LogLevel
  | .levelFunc l _ => l
  | .plain => .INFO
  | .level l => l
  | .toAbort abort => if abort then .FATAL else .ERROR

/-- The error number of the record, zero for none. -/
def savedErrno (errno : Int32) : Ctor → Int32
  | .toAbort _ => errno
  | _ => 0

/-- What a constructor writes of its own. -/
def args : Ctor → List Arg
  | .levelFunc _ func => [.cString func, .char ' '.toUInt8]
  | _ => []

end Ctor

/-- What the constructor of `Impl` writes about an error number. -/
def errnoArgs (strerror_r : Int32 → Text) (savedErrno : Int32) : List Arg :=
  if savedErrno ≠ 0 then
    [.cString (strerror_tl strerror_r savedErrno), .cString ⟨ascii " (errno=", by decide⟩,
      .int savedErrno, .cString ⟨ascii ") ", by decide⟩]
  else []

/-- Everything that stands before the message. -/
def header (strerror_r : Int32 → Text) (now : Timestamp) (errno : Int32) (ctor : Ctor) : List Arg :=
  [.t (t_time now), .t (us now), .t (LogLevelName ctor.recordLevel)] ++
    errnoArgs strerror_r (ctor.savedErrno errno) ++ ctor.args

/-- The five arguments of `finish`. -/
def trailer (file : Text) (line : Int32) : List Arg :=
  [.cString ⟨ascii " - ", by decide⟩, .cString (basename file), .char ':'.toUInt8, .int line,
    .char '\n'.toUInt8]

/-- The texts of the time have the lengths that `formatTime` asserts. -/
structure Stamped (now : Timestamp) : Prop where
  length_t_time : (t_time now).val.length = 17
  length_us : (us now).val.length = 9

theorem length_decimal_of_lt {v : ℤ} {w : ℕ} (hw : 0 < w) (h : 0 ≤ v ∧ v < 10 ^ w) :
    (decimal v).length ≤ w := by
  have habs : v.natAbs < 10 ^ w := by
    zify
    rw [abs_of_nonneg h.1]
    exact h.2
  rw [decimal_of_nonneg (not_lt.2 h.1), List.length_reverse]
  exact length_lowFirst_le hw habs

theorem length_padded {v : ℤ} {w : ℕ} (hw : 0 < w) (h : 0 ≤ v ∧ v < 10 ^ w) :
    (padded w v).length = w := by
  have hle := length_decimal_of_lt hw h
  rw [padded, List.length_append, List.length_replicate]
  omega

theorem length_zeroPadded {v : ℤ} {w : ℕ} (hw : 0 < w) (h : 0 ≤ v ∧ v < 10 ^ w) :
    (zeroPadded w v).length = w := by
  have hle := length_decimal_of_lt hw h
  rw [zeroPadded, if_neg (not_lt.2 h.1), List.length_append, List.length_replicate]
  omega

/-- From the epoch to the end of the year 9999 the assertions hold. -/
theorem stamped_of_lt {now : ℤ} (h0 : 0 ≤ now) (h : now < 253402300800 * 1000000) :
    Stamped now where
  length_t_time := by
    have hseconds : 0 ≤ now.tdiv 1000000 ∧ now.tdiv 1000000 < 253402300800 := by
      rw [Int.tdiv_eq_ediv_of_nonneg h0]
      omega
    have htm := gmtime_r_printable hseconds.1 hseconds.2
    simp only [t_time, snprintf, List.length_take, List.length_append,
      length_padded (show 0 < 4 by decide) htm.year,
      length_zeroPadded (show 0 < 2 by decide) htm.mon,
      length_zeroPadded (show 0 < 2 by decide) htm.mday,
      length_zeroPadded (show 0 < 2 by decide) htm.hour,
      length_zeroPadded (show 0 < 2 by decide) htm.min,
      length_zeroPadded (show 0 < 2 by decide) htm.sec]
    rfl
  length_us := by
    have hmicro : 0 ≤ now.tmod 1000000 ∧ now.tmod 1000000 < 10 ^ 6 := by
      rw [Int.tmod_eq_emod_of_nonneg h0]
      omega
    simp only [us, snprintf, List.length_take, List.length_append,
      length_zeroPadded (show 0 < 6 by decide) hmicro]
    rfl

theorem T_eq {str : Text} {len : ℕ} (h : str.val.length = len) : T str len = some (.t str) :=
  if_pos h

theorem length_of_T {str : Text} {len : ℕ} {arg : Arg} (h : T str len = some arg) :
    str.val.length = len := by
  unfold T at h
  split at h
  · assumption
  · exact absurd h (by simp)

theorem length_LogLevelName (level : LogLevel) : (LogLevelName level).val.length = 6 := by
  cases level <;> rfl

namespace Impl

theorem shl_append (impl : Impl) (xs ys : List Arg) :
    impl.shl (xs ++ ys) = (impl.shl xs).bind fun impl => impl.shl ys := by
  rw [shl, Run.run_append, shl]
  cases Run.run LogStream.shl impl.stream_ xs <;> rfl

theorem shl_nil (impl : Impl) : impl.shl [] = some impl := rfl

theorem formatTime_eq {impl : Impl} (h : Stamped impl.time_) :
    impl.formatTime = impl.shl [.t (t_time impl.time_), .t (us impl.time_)] := by
  rw [formatTime, T_eq h.length_t_time, T_eq h.length_us, Option.bind_some, Option.bind_some]

theorem stamped_of_formatTime {impl impl' : Impl} (h : impl.formatTime = some impl') :
    Stamped impl.time_ := by
  obtain ⟨t, ht, h⟩ := Option.bind_eq_some_iff.1 h
  obtain ⟨u, hu, -⟩ := Option.bind_eq_some_iff.1 h
  exact ⟨length_of_T ht, length_of_T hu⟩

section New

variable {strerror_r : Int32 → Text} {data : CharArray LogStream.kSmallBuffer} {now : Timestamp}
  {file : Text} {line : Int32} {level : LogLevel} {savedErrno : Int32}

/-- The constructor is one chain of operators, if its assertions hold. -/
theorem new_eq (h : Stamped now) :
    Impl.new strerror_r data now file line level savedErrno =
      (Impl.init data now file line level).shl
        ([.t (t_time now), .t (us now)] ++ ([.t (LogLevelName level)] ++
          errnoArgs strerror_r savedErrno)) := by
  have hformat : (Impl.init data now file line level).formatTime =
      (Impl.init data now file line level).shl [.t (t_time now), .t (us now)] := formatTime_eq h
  rw [Impl.new, hformat, shl_append _ [.t (t_time now), .t (us now)]]
  cases (Impl.init data now file line level).shl [.t (t_time now), .t (us now)] with
  | none => rfl
  | some impl =>
      rw [Option.bind_some, Option.bind_some, T_eq (length_LogLevelName level), Option.bind_some,
        shl_append]
      cases impl.shl [.t (LogLevelName level)] with
      | none => rfl
      | some impl =>
          rw [Option.bind_some, Option.bind_some, errnoArgs]
          split <;> rfl

theorem stamped_of_new {impl : Impl}
    (h : Impl.new strerror_r data now file line level savedErrno = some impl) : Stamped now := by
  rw [Impl.new] at h
  obtain ⟨impl₁, hformat, -⟩ := Option.bind_eq_some_iff.1 h
  exact stamped_of_formatTime hformat

end New

/-- Operators change the stream and nothing else. -/
theorem members_of_shl {impl impl' : Impl} {args : List Arg} (h : impl.shl args = some impl') :
    impl' = { impl with stream_ := impl'.stream_ } := by
  obtain ⟨stream, -, rfl⟩ := Option.map_eq_some_iff.1 h
  rfl

theorem shl_eq {impl : Impl} (hroom : impl.stream_.buffer_.Room) (args : List Arg) :
    ∃ impl', impl.shl args = some impl' ∧ impl'.stream_.buffer_.contents =
      impl.stream_.buffer_.contents ++
        (Arg.kept impl.stream_.buffer_.avail args).flatMap Arg.text := by
  obtain ⟨stream, hrun, -, hcontents⟩ := LogStream.run_shl hroom args
  exact ⟨{ impl with stream_ := stream }, by rw [shl, hrun, Option.map_some], hcontents⟩

/-- A new stream keeps what finds room in the whole array. -/
theorem init_shl (data : CharArray LogStream.kSmallBuffer) (now : Timestamp) (file : Text)
    (line : Int32) (level : LogLevel) (args : List Arg) :
    ∃ impl, (Impl.init data now file line level).shl args = some impl ∧
      impl.stream_.buffer_.contents = (Arg.kept LogStream.kSmallBuffer args).flatMap Arg.text := by
  have hroom : (Impl.init data now file line level).stream_.buffer_.Room := by
    show 0 < LogStream.kSmallBuffer
    decide
  have havail : (Impl.init data now file line level).stream_.buffer_.avail =
      LogStream.kSmallBuffer := sub_zero _
  obtain ⟨impl, hshl, hcontents⟩ := shl_eq hroom args
  rw [havail] at hcontents
  exact ⟨impl, hshl, hcontents⟩

end Impl

section Record

variable {strerror_r : Int32 → Text} {data : CharArray LogStream.kSmallBuffer} {now : Timestamp}
  {errno : Int32} {file : Text} {line : Int32} {ctor : Ctor} {logger : Logger}

/-- The four constructors differ in what they give to that of `Impl` and in what they write. -/
theorem new_eq_bind : Logger.new strerror_r data now errno file line ctor =
    ((Impl.new strerror_r data now file line ctor.recordLevel (ctor.savedErrno errno)).bind
      fun impl => impl.shl ctor.args).map Logger.mk := by
  cases ctor <;>
    simp only [Logger.new, Ctor.recordLevel, Ctor.savedErrno, Ctor.args, Impl.shl_nil,
      Option.bind_fun_some]

/-- Every constructor is one chain of operators, its header. -/
theorem new_eq (h : Stamped now) :
    Logger.new strerror_r data now errno file line ctor =
      ((Impl.init data now file line ctor.recordLevel).shl
        (header strerror_r now errno ctor)).map Logger.mk := by
  have hheader : header strerror_r now errno ctor =
      ([.t (t_time now), .t (us now)] ++ ([.t (LogLevelName ctor.recordLevel)] ++
        errnoArgs strerror_r (ctor.savedErrno errno))) ++ ctor.args := rfl
  rw [hheader, Impl.shl_append, ← Impl.new_eq h, new_eq_bind]

theorem stamped_of_new (h : Logger.new strerror_r data now errno file line ctor = some logger) :
    Stamped now := by
  rw [new_eq_bind] at h
  obtain ⟨impl, himpl, -⟩ := Option.map_eq_some_iff.1 h
  obtain ⟨impl₁, hnew, -⟩ := Option.bind_eq_some_iff.1 himpl
  exact Impl.stamped_of_new hnew

/-- The logger that was made has written its header. -/
theorem shl_header_of_new
    (h : Logger.new strerror_r data now errno file line ctor = some logger) :
    (Impl.init data now file line ctor.recordLevel).shl (header strerror_r now errno ctor) =
      some logger.impl_ := by
  rw [new_eq (stamped_of_new h)] at h
  obtain ⟨impl, hshl, rfl⟩ := Option.map_eq_some_iff.1 h
  exact hshl

/-- Nothing but the assertions keeps a logger from being made. -/
theorem new_of_stamped (h : Stamped now) :
    ∃ logger, Logger.new strerror_r data now errno file line ctor = some logger := by
  obtain ⟨impl, himpl, -⟩ := Impl.init_shl data now file line ctor.recordLevel
    (header strerror_r now errno ctor)
  rw [new_eq h, himpl]
  exact ⟨⟨impl⟩, rfl⟩

/-- The record is what a stream keeps of the header, the message and the trailer. -/
theorem destroy_eq (h : Logger.new strerror_r data now errno file line ctor = some logger)
    (args : List Arg) : (logger.shl args).bind Logger.destroy =
      some ((Arg.kept LogStream.kSmallBuffer
          (header strerror_r now errno ctor ++ args ++ trailer file line)).flatMap Arg.text,
        decide (ctor.recordLevel = .FATAL)) := by
  have hheader := shl_header_of_new h
  obtain ⟨impl, hshl, hcontents⟩ := Impl.init_shl data now file line ctor.recordLevel
    (header strerror_r now errno ctor ++ args ++ trailer file line)
  rw [Impl.shl_append, Impl.shl_append, hheader, Option.bind_some] at hshl
  obtain ⟨impl₁, hargs, hfinish⟩ := Option.bind_eq_some_iff.1 hshl
  have hmembers := Impl.members_of_shl hargs
  rw [Impl.members_of_shl hheader] at hmembers
  have hfinish' : impl₁.finish = some impl := by
    rw [hmembers] at hfinish ⊢
    exact hfinish
  have hlevel : impl.level_ = ctor.recordLevel := by
    rw [Impl.members_of_shl hfinish, hmembers]
    rfl
  rw [Logger.shl, hargs, Option.map_some, Option.bind_some, Logger.destroy, hfinish',
    Option.map_some, hcontents, hlevel]

end Record

/-! ## The trailer -/

/-- The text of the trailer. -/
def trailerText (file : Text) (line : Int32) : List UInt8 :=
  ascii " - " ++ (basename file).val ++ ascii ":" ++ decimal line.toInt ++ ascii "\n"

theorem trailer_text (file : Text) (line : Int32) :
    (trailer file line).flatMap Arg.text = trailerText file line := by
  simp only [trailer, trailerText, List.flatMap_cons, List.flatMap_nil, Arg.text,
    List.append_nil, List.append_assoc]
  rfl

/-- The line number asks for 32 bytes behind the colon, which is more than it and the newline
    need. -/
theorem kept_trailer_eq_iff (avail : ℤ) (file : Text) (line : Int32) :
    Arg.kept avail (trailer file line) = trailer file line ↔
      (basename file).val.length + 36 ≤ avail := by
  have hline := length_decimal_int line
  have hsep : (ascii " - ").length = 3 := rfl
  rw [trailer, Arg.kept_cons_eq_self, Arg.kept_cons_eq_self, Arg.kept_cons_eq_self,
    Arg.kept_cons_eq_self, Arg.kept_cons_eq_self]
  simp only [Arg.Fits, Arg.text, Arg.kept, hsep, List.length_singleton, and_true]
  omega

/-- What the stream keeps of the header and a message. -/
def written (strerror_r : Int32 → Text) (now : Timestamp) (errno : Int32) (ctor : Ctor)
    (args : List Arg) : List UInt8 :=
  (Arg.kept LogStream.kSmallBuffer (header strerror_r now errno ctor ++ args)).flatMap Arg.text

/-- **When a record has its trailer.** The destructor hands over what the stream kept of header and
    message and, behind it, the complete trailer exactly if these bytes and the base name are at
    most 3964 of the 4000. Where header, message and base name are no more than that, nothing of
    them is lost either. -/
theorem record_has_trailer_iff {strerror_r : Int32 → Text} {data : CharArray LogStream.kSmallBuffer}
    {now : Timestamp} {errno : Int32} {file : Text} {line : Int32} {ctor : Ctor} {logger : Logger}
    (hnew : Logger.new strerror_r data now errno file line ctor = some logger) (args : List Arg) :
    ∃ record, (logger.shl args).bind Logger.destroy =
        some (record, decide (ctor.recordLevel = .FATAL)) ∧
      (record = written strerror_r now errno ctor args ++ trailerText file line ↔
        (written strerror_r now errno ctor args).length + (basename file).val.length + 36 ≤ 4000) ∧
      (((header strerror_r now errno ctor ++ args).flatMap Arg.text).length +
          (basename file).val.length + 36 ≤ 4000 →
        record = (header strerror_r now errno ctor ++ args).flatMap Arg.text ++
          trailerText file line) := by
  have hsize : (LogStream.kSmallBuffer : ℤ) = 4000 := rfl
  have hlt := Arg.length_kept_lt (show (0 : ℤ) < LogStream.kSmallBuffer by decide)
    (header strerror_r now errno ctor ++ args)
  have hiff : (Arg.kept LogStream.kSmallBuffer
      (header strerror_r now errno ctor ++ args ++ trailer file line)).flatMap Arg.text =
        written strerror_r now errno ctor args ++ trailerText file line ↔
      (written strerror_r now errno ctor args).length + (basename file).val.length + 36 ≤ 4000 := by
    rw [Arg.kept_append, List.flatMap_append, written, List.append_cancel_left_eq, ← trailer_text,
      Arg.kept_texts_eq_iff (sub_pos.2 hlt), kept_trailer_eq_iff]
    omega
  refine ⟨_, destroy_eq hnew args, hiff, fun hshort => ?_⟩
  have hall : written strerror_r now errno ctor args =
      (header strerror_r now errno ctor ++ args).flatMap Arg.text := by
    rw [written, Arg.kept_eq_self]
    omega
  rw [← hall] at hshort ⊢
  exact hiff.2 hshort

/-- One second into 2000, a message, with the error number of a missing file. -/
theorem record_has_trailer_iff_errno :
    let strerror_r : Int32 → Text := fun _ => ⟨ascii "No such file or directory", by decide⟩
    let file : Text := ⟨ascii "src/a.cc", by decide⟩
    let args : List Arg := [.cString ⟨ascii "open ", by decide⟩, .int 7]
    ∃ logger record, Logger.new strerror_r ⟨List.replicate 4000 0, List.length_replicate⟩
        946684801000000 2 file 12 (.toAbort false) = some logger ∧
      (logger.shl args).bind Logger.destroy = some (record, false) ∧
      record = (header strerror_r 946684801000000 2 (.toAbort false) ++ args).flatMap Arg.text ++
        trailerText file 12 := by
  intro strerror_r file args
  have hstamped : Stamped 946684801000000 := stamped_of_lt (by decide) (by decide)
  obtain ⟨logger, hnew⟩ := new_of_stamped hstamped
  obtain ⟨record, hrecord, -, hall⟩ := record_has_trailer_iff hnew args
  exact ⟨logger, record, hnew, hrecord, hall (by decide +kernel)⟩

/-- A message that leaves eight bytes: the record stops behind the base name. -/
theorem long_message_loses_trailer :
    let file : Text := ⟨ascii "a.cc", by decide⟩
    let message : Text := ⟨List.replicate 3960 'x'.toUInt8, by decide +kernel⟩
    ∃ logger record, Logger.new (fun _ => ⟨[], by decide⟩)
        ⟨List.replicate 4000 0, List.length_replicate⟩ 0 0 file 1 .plain = some logger ∧
      (logger.shl [.cString message]).bind Logger.destroy = some (record, false) ∧
      ¬ trailerText file 1 <:+ record := by
  intro file message
  have hstamped : Stamped 0 := stamped_of_lt (by decide) (by decide)
  obtain ⟨logger, hnew⟩ := new_of_stamped hstamped
  exact ⟨logger, _, hnew, destroy_eq hnew _, by decide +kernel⟩

end Logger

end WwjMuduo
