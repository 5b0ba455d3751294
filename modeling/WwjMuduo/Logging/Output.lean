import WwjMuduo.Logging.Stamp

set_option autoImplicit false

/-! # What a program logs

A logging macro makes a `Logger`, streams the message and destroys it, all in one expression. Three of
the macros first compare `g_logLevel`. The destructor gives the record to `g_output`, and behind a
fatal one the program flushes and aborts. The level and the two functions may be set at any time.

A run is the sequence of these statements, in the order in which a program comes to them. Two things
hold of every run: the output falls back into its records at the newlines, and a higher level only
leaves records out, none of them a warning or worse. -/

namespace WwjMuduo

/-- The enumerator's value. -/
def LogLevel.val : LogLevel → ℕ
  | .TRACE => 0
  | .DEBUG => 1
  | .INFO => 2
  | .WARN => 3
  | .ERROR => 4
  | .FATAL => 5

/-- The logging macros. -/
inductive LOG where
  | TRACE
  | DEBUG
  | INFO
  | WARN
  | ERROR
  | FATAL
  | SYSERR
  | SYSFATAL
deriving DecidableEq, Repr

namespace LOG

/-- The condition of the `if` that a macro begins with. -/
def enabled (g_logLevel : LogLevel) : LOG → Bool
  | TRACE => g_logLevel.val ≤ LogLevel.TRACE.val
  | DEBUG => g_logLevel.val ≤ LogLevel.DEBUG.val
  | INFO => g_logLevel.val ≤ LogLevel.INFO.val
  | _ => true

/-- The constructor that a macro calls, where `func` is `__func__`. -/
def ctor (func : Text) : LOG → Logger.Ctor
  | TRACE => .levelFunc .TRACE func
  | DEBUG => .levelFunc .DEBUG func
  | INFO => .plain
  | WARN => .level .WARN
  | ERROR => .level .ERROR
  | FATAL => .level .FATAL
  | SYSERR => .toAbort false
  | SYSFATAL => .toAbort true

end LOG

/-- A logging statement as a program comes to it: the macro, what is streamed, and what the logger
    finds, which is the time, `errno` and the bytes in the array of its stream. -/
structure Statement where
  log : LOG
  func : Text
  file : Text
  line : Int32
  args : List Arg
  now : Timestamp
  errno : Int32
  data : CharArray LogStream.kSmallBuffer

/-- The global variables, and what has been done with them. -/
structure Log (ω φ : Type*) where
  g_logLevel : LogLevel
  g_output : ω
  g_flush : φ
  /-- The calls of output functions, each with its record. -/
  outputs : List (ω × List UInt8)
  flushes : List φ
  aborted : Bool

inductive LogEvent (ω φ : Type*) where
  | log (st : Statement)
  | setLogLevel (level : LogLevel)
  | setOutput (out : ω)
  | setFlush (flush : φ)

namespace Statement

/-- A logger from its constructor to its destructor: the record, and whether it is fatal. -/
def write (strerror_r : Int32 → Text) (st : Statement) : Option (List UInt8 × Bool) :=
  (Logger.new strerror_r st.data st.now st.errno st.file st.line (st.log.ctor st.func)).bind
    fun logger => (logger.shl st.args).bind Logger.destroy

end Statement

namespace Log

variable {ω φ : Type*}

def start (defaultOutput : ω) (defaultFlush : φ) : Log ω φ :=
  { g_logLevel := .TRACE
    g_output := defaultOutput
    g_flush := defaultFlush
    outputs := []
    flushes := []
    aborted := false }

/-- `g_output(buf.data(),buf.length())`. -/
def give (s : Log ω φ) (record : List UInt8) : Log ω φ :=
  { s with outputs := s.outputs ++ [(s.g_output, record)] }

/-- `g_flush(); abort();`. -/
def abort (s : Log ω φ) : Log ω φ := { s with flushes := s.flushes ++ [s.g_flush], aborted := true }

/-- An assertion that fails in a logger is `none`. -/
def exec (strerror_r : Int32 → Text) (s : Log ω φ) : LogEvent ω φ → Option (Log ω φ)
  | .log st =>
    if st.log.enabled s.g_logLevel then
      (st.write strerror_r).map fun (record, fatal) =>
        if fatal then (s.give record).abort else s.give record
    else some s
  | .setLogLevel level => some { s with g_logLevel := level }
  | .setOutput out => some { s with g_output := out }
  | .setFlush flush => some { s with g_flush := flush }

/-- Nothing happens in a program that has been aborted. -/
def step (strerror_r : Int32 → Text) (s : Log ω φ) (e : LogEvent ω φ) : Option (Log ω φ) :=
  if s.aborted then none else s.exec strerror_r e

end Log

/-! ## Records -/

namespace Statement

variable {strerror_r : Int32 → Text} {st : Statement}

/-- What is before the trailer. -/
def body (strerror_r : Int32 → Text) (st : Statement) : List Arg :=
  Logger.header strerror_r st.now st.errno (st.log.ctor st.func) ++ st.args

/-- The record, which is what a stream keeps of it. -/
def record (strerror_r : Int32 → Text) (st : Statement) : List UInt8 :=
  (Arg.kept LogStream.kSmallBuffer (st.body strerror_r ++ Logger.trailer st.file st.line)).flatMap
    Arg.text

def fatal (st : Statement) : Bool := (st.log.ctor st.func).recordLevel = .FATAL

theorem write_eq (h : Logger.Stamped st.now) :
    st.write strerror_r = some (st.record strerror_r, st.fatal) := by
  obtain ⟨logger, hnew⟩ := Logger.new_of_stamped h
  rw [write, hnew, Option.bind_some, Logger.destroy_eq hnew]
  rfl

theorem write_eq_some {p : List UInt8 × Bool} (h : st.write strerror_r = some p) :
    Logger.Stamped st.now ∧ p = (st.record strerror_r, st.fatal) := by
  obtain ⟨logger, hnew, -⟩ := Option.bind_eq_some_iff.1 h
  have hstamped := Logger.stamped_of_new hnew
  rw [write_eq hstamped] at h
  exact ⟨hstamped, (Option.some.inj h).symm⟩

/-- The macro is none of the three that compare the level. -/
def severe (st : Statement) : Bool := 3 ≤ (st.log.ctor st.func).recordLevel.val

/-- A statement that is written at a level is written at every lower one, and a severe one at
    all. -/
theorem enabled_of_le {l l' : LogLevel} (hl : l.val ≤ l'.val) (h : st.log.enabled l' = true) :
    st.log.enabled l = true := by
  cases hlog : st.log <;> simp only [hlog, LOG.enabled, decide_eq_true_eq] at h ⊢ <;> omega

theorem enabled_of_severe (l : LogLevel) (h : st.severe = true) : st.log.enabled l = true := by
  cases hlog : st.log <;> simp only [LOG.enabled]
  all_goals simp [severe, hlog, LOG.ctor, Logger.Ctor.recordLevel, LogLevel.val] at h

end Statement

/-! ## The statements that are written -/

namespace Log

variable {ω φ : Type*} {strerror_r : Int32 → Text}

/-- The statements of a run that write a record, each with the output function it is given to. -/
def passed : LogLevel → ω → List (LogEvent ω φ) → List (ω × Statement)
  | _, _, [] => []
  | level, out, .log st :: es =>
    if st.log.enabled level then (out, st) :: passed level out es else passed level out es
  | _, out, .setLogLevel level :: es => passed level out es
  | level, _, .setOutput out :: es => passed level out es
  | level, out, .setFlush _ :: es => passed level out es

/-- The step on a statement that is written. -/
theorem step_log {s s' : Log ω φ} {st : Statement} (henabled : st.log.enabled s.g_logLevel = true)
    (h : s.step strerror_r (.log st) = some s') :
    s'.outputs = s.outputs ++ [(s.g_output, st.record strerror_r)] ∧ s'.g_logLevel = s.g_logLevel ∧
      s'.g_output = s.g_output := by
  unfold step at h
  split_ifs at h
  rw [exec, if_pos henabled] at h
  obtain ⟨p, hp, rfl⟩ := Option.map_eq_some_iff.1 h
  obtain ⟨-, rfl⟩ := Statement.write_eq_some hp
  dsimp only
  split_ifs <;> exact ⟨rfl, rfl, rfl⟩

/-- A statement that is not fatal, with a time that can be printed, writes its record. -/
theorem step_log_of_stamped {s : Log ω φ} {st : Statement} (hs : s.aborted = false)
    (henabled : st.log.enabled s.g_logLevel = true) (h : Logger.Stamped st.now)
    (hmild : st.fatal = false) :
    s.step strerror_r (.log st) = some (s.give (st.record strerror_r)) := by
  rw [step, hs, exec, if_pos henabled, Statement.write_eq h, hmild]
  rfl

/-- The output of a run is the records of the statements that pass. -/
theorem outputs_run {s s' : Log ω φ} {es : List (LogEvent ω φ)}
    (h : Run.run (step strerror_r) s es = some s') :
    s'.outputs = s.outputs ++
      (passed s.g_logLevel s.g_output es).map fun p => (p.1, p.2.record strerror_r) := by
  induction es generalizing s with
  | nil =>
      obtain rfl : s = s' := Option.some.inj h
      simp [passed]
  | cons e es ih =>
      obtain ⟨s₁, h₁, hrest⟩ := Run.run_cons_eq_some.1 h
      rw [ih hrest]
      cases e with
      | log st =>
          by_cases henabled : st.log.enabled s.g_logLevel = true
          · obtain ⟨houtputs, hlevel, hout⟩ := step_log henabled h₁
            rw [passed, if_pos henabled, houtputs, hlevel, hout, List.map_cons, List.append_assoc,
              List.singleton_append]
          · unfold step at h₁
            split_ifs at h₁
            rw [exec, if_neg henabled] at h₁
            obtain rfl := Option.some.inj h₁
            rw [passed, if_neg henabled]
      | setLogLevel level | setOutput out | setFlush flush =>
          unfold step at h₁
          split_ifs at h₁
          obtain rfl := Option.some.inj h₁
          rfl

end Log

/-! ## Lines -/

/-- Lines that contain no separator are what a text of terminated lines splits into. -/
theorem splitOn_terminated {α : Type*} [BEq α] [LawfulBEq α] {sep : α} {lines : List (List α)}
    (h : ∀ line ∈ lines, sep ∉ line) :
    (lines.flatMap (· ++ [sep])).splitOn sep = lines ++ [[]] := by
  induction lines with
  | nil => rfl
  | cons line lines ih =>
      obtain ⟨hline, hlines⟩ := List.forall_mem_cons.1 h
      rw [List.flatMap_cons, List.append_assoc, List.singleton_append,
        List.splitOn_append_cons_self_of_not_mem hline, ih hlines, List.cons_append]

namespace Logger

theorem newline_not_mem_stamp (now : Timestamp) : '\n'.toUInt8 ∉ stamp now := by
  have hdigit : digitValue '\n'.toUInt8 = none := by decide
  have hsign : '\n'.toUInt8 ≠ '-'.toUInt8 := by decide
  have hspace : '\n'.toUInt8 ≠ ' '.toUInt8 := by decide
  have hpunct (s : String) (h : s ∈ [" ", ":", ".", "Z "]) : '\n'.toUInt8 ∉ ascii s := by
    revert s
    decide
  have ht : '\n'.toUInt8 ∉ (t_time now).val := by
    refine not_mem_snprintf ?_
    simp [not_mem_padded hdigit hsign hspace, not_mem_zeroPadded hdigit hsign, hpunct]
  have hu : '\n'.toUInt8 ∉ (us now).val := by
    refine not_mem_snprintf ?_
    simp [not_mem_zeroPadded hdigit hsign, hpunct]
  rw [stamp, List.mem_append]
  exact not_or.2 ⟨ht, hu⟩

/-- The header of a record has no newline but in what the program puts there. -/
theorem newline_not_mem_header {strerror_r : Int32 → Text} {now : Timestamp} {errno : Int32}
    {ctor : Ctor} (hstrerror : '\n'.toUInt8 ∉ (strerror_r errno).val)
    (hargs : '\n'.toUInt8 ∉ ctor.args.flatMap Arg.text) :
    '\n'.toUInt8 ∉ (header strerror_r now errno ctor).flatMap Arg.text := by
  have hstamp : '\n'.toUInt8 ∉ (t_time now).val ++ (us now).val := newline_not_mem_stamp now
  have hname : '\n'.toUInt8 ∉ (LogLevelName ctor.recordLevel).val := by
    cases ctor.recordLevel <;> decide
  have herrno : '\n'.toUInt8 ∉ (errnoArgs strerror_r (ctor.savedErrno errno)).flatMap Arg.text := by
    unfold errnoArgs
    split_ifs with h
    · have hsaved : ctor.savedErrno errno = errno := by
        cases ctor with
        | toAbort toAbort => rfl
        | levelFunc level func | plain | level level => exact absurd rfl h
      have hopen : '\n'.toUInt8 ∉ ascii " (errno=" := by decide
      have hclose : '\n'.toUInt8 ∉ ascii ") " := by decide
      have hnumber := not_mem_decimal (c := '\n'.toUInt8) (by decide) (by decide) errno.toInt
      simp [hsaved, strerror_tl, Arg.text, hstrerror, hopen, hclose, hnumber]
    · exact List.not_mem_nil
  have htext (str : Text) : (Arg.t str).text = str.val := rfl
  simp only [header, List.flatMap_append, List.flatMap_cons, List.flatMap_nil, htext,
    List.append_nil, List.mem_append, not_or] at hstamp ⊢
  exact ⟨⟨⟨hstamp.1, hstamp.2, hname⟩, herrno⟩, hargs⟩

theorem basename_suffix (fullname : Text) : (basename fullname).val <:+ fullname.val := by
  unfold basename
  split
  · next path_sep_pos h => exact (List.tail_suffix _).trans (strrchr_suffix h)
  · exact List.suffix_rfl

end Logger

namespace Statement

/-- The text of the record without its newline. -/
def text (strerror_r : Int32 → Text) (st : Statement) : List UInt8 :=
  (st.body strerror_r).flatMap Arg.text ++ ascii " - " ++ (Logger.basename st.file).val ++ ascii ":" ++
    decimal st.line.toInt

/-- The record fits the buffer of the stream, and nothing in it that comes from outside has a
    newline. -/
structure OneLine (strerror_r : Int32 → Text) (st : Statement) : Prop where
  fits : ((st.body strerror_r).flatMap Arg.text).length + (Logger.basename st.file).val.length + 36 ≤
    LogStream.kSmallBuffer
  strerror : '\n'.toUInt8 ∉ (strerror_r st.errno).val
  func : '\n'.toUInt8 ∉ st.func.val
  file : '\n'.toUInt8 ∉ st.file.val
  args : '\n'.toUInt8 ∉ st.args.flatMap Arg.text

theorem record_eq {strerror_r : Int32 → Text} {st : Statement} (h : st.OneLine strerror_r) :
    st.record strerror_r = st.text strerror_r ++ ['\n'.toUInt8] := by
  have hfits := h.fits
  have hsize : LogStream.kSmallBuffer = 4000 := rfl
  have hbody : Arg.kept LogStream.kSmallBuffer (st.body strerror_r) = st.body strerror_r :=
    Arg.kept_eq_self (by omega)
  have htrailer := (Logger.kept_trailer_eq_iff
    (LogStream.kSmallBuffer - ((st.body strerror_r).flatMap Arg.text).length) st.file st.line).2
      (by omega)
  have hnewline : ascii "\n" = ['\n'.toUInt8] := rfl
  rw [record, Arg.kept_append, hbody, htrailer, List.flatMap_append, Logger.trailer_text,
    Logger.trailerText, text, hnewline]
  simp only [List.append_assoc]

theorem newline_not_mem_text {strerror_r : Int32 → Text} {st : Statement}
    (h : st.OneLine strerror_r) : '\n'.toUInt8 ∉ st.text strerror_r := by
  have hctor : '\n'.toUInt8 ∉ (st.log.ctor st.func).args.flatMap Arg.text := by
    have hspace : '\n'.toUInt8 ∉ [' '.toUInt8] := by decide
    cases st.log <;> simp [LOG.ctor, Logger.Ctor.args, Arg.text, h.func]
    all_goals decide
  have hheader : '\n'.toUInt8 ∉ (Logger.header strerror_r st.now st.errno
      (st.log.ctor st.func)).flatMap Arg.text :=
    Logger.newline_not_mem_header h.strerror hctor
  have hbasename : '\n'.toUInt8 ∉ (Logger.basename st.file).val := fun hmem =>
    h.file ((Logger.basename_suffix st.file).subset hmem)
  have hdash : '\n'.toUInt8 ∉ ascii " - " := by decide
  have hcolon : '\n'.toUInt8 ∉ ascii ":" := by decide
  have hline := not_mem_decimal (c := '\n'.toUInt8) (by decide) (by decide) st.line.toInt
  rw [text, body, List.flatMap_append]
  simp only [List.mem_append, not_or]
  exact ⟨⟨⟨⟨⟨hheader, h.args⟩, hdash⟩, hbasename⟩, hcolon⟩, hline⟩

end Statement

namespace Log

variable {ω φ : Type*} {strerror_r : Int32 → Text}

theorem mem_of_mem_passed {level : LogLevel} {out : ω} {es : List (LogEvent ω φ)}
    {p : ω × Statement} (h : p ∈ passed level out es) : .log p.2 ∈ es := by
  induction es generalizing level out with
  | nil => exact absurd h List.not_mem_nil
  | cons e es ih =>
      cases e with
      | log st =>
          rw [passed] at h
          split_ifs at h with henabled
          · rcases List.mem_cons.1 h with rfl | h
            · exact List.mem_cons_self
            · exact List.mem_cons_of_mem _ (ih h)
          · exact List.mem_cons_of_mem _ (ih h)
      | setLogLevel level | setOutput out | setFlush flush => exact List.mem_cons_of_mem _ (ih h)

/-- **A log is its lines.** If every logging statement of a run fits the buffer and streams no newline,
    then what an output function has been given over the run splits at the newlines into one line for
    each statement that was written while the function was set, in their order, and the line is the
    whole of its record. -/
theorem lines_are_records [DecidableEq ω] {defaultOutput : ω} {defaultFlush : φ}
    {es : List (LogEvent ω φ)} {s : Log ω φ}
    (hone : ∀ st, .log st ∈ es → st.OneLine strerror_r)
    (h : Run.run (step strerror_r) (start defaultOutput defaultFlush) es = some s) (out : ω) :
    ((s.outputs.filter (·.1 = out)).flatMap Prod.snd).splitOn '\n'.toUInt8 =
      ((passed .TRACE defaultOutput es).filter (·.1 = out)).map (fun p => p.2.text strerror_r) ++
        [[]] := by
  have houtputs : s.outputs = (passed .TRACE defaultOutput es).map
      fun p => (p.1, p.2.record strerror_r) := by
    rw [outputs_run h]
    rfl
  have hone' : ∀ p ∈ (passed .TRACE defaultOutput es).filter (·.1 = out),
      p.2.OneLine strerror_r := fun p hp => hone p.2 (mem_of_mem_passed (List.mem_of_mem_filter hp))
  have hgiven : (s.outputs.filter (·.1 = out)).flatMap Prod.snd =
      (((passed .TRACE defaultOutput es).filter (·.1 = out)).map
        fun p => p.2.text strerror_r).flatMap (· ++ ['\n'.toUInt8]) := by
    have hfilter : s.outputs.filter (·.1 = out) =
        ((passed .TRACE defaultOutput es).filter (·.1 = out)).map
          fun p => (p.1, p.2.record strerror_r) := by
      rw [houtputs, List.filter_map]
      rfl
    rw [hfilter, List.flatMap_map, List.flatMap_map]
    refine List.flatMap_congr fun p hp => ?_
    rw [Statement.record_eq (hone' p hp)]
  rw [hgiven]
  refine splitOn_terminated fun line hline => ?_
  obtain ⟨p, hp, rfl⟩ := List.mem_map.1 hline
  exact Statement.newline_not_mem_text (hone' p hp)

/-- Two statements, between which the output function is set. -/
theorem lines_are_records_two :
    let data : CharArray LogStream.kSmallBuffer := ⟨List.replicate 4000 0, List.length_replicate⟩
    let file : Text := ⟨ascii "src/main.cc", by decide⟩
    let func : Text := ⟨ascii "main", by decide⟩
    let trace : Statement := ⟨.TRACE, func, file, 3, [.int 5], 0, 0, data⟩
    let error : Statement := ⟨.SYSERR, func, file, 4, [.char 'x'.toUInt8], 1, 2, data⟩
    let strerror_r : Int32 → Text := fun _ => ⟨ascii "No such file or directory", by decide⟩
    ∃ s : Log Bool Unit,
      Run.run (step strerror_r) (start false ()) [.log trace, .setOutput true, .log error] = some s ∧
      ((s.outputs.filter (·.1 = true)).flatMap Prod.snd).splitOn '\n'.toUInt8 =
        [error.text strerror_r, []] := by
  intro data file func trace error strerror_r
  have htrace : Logger.Stamped trace.now := Logger.stamped_of_lt (by decide) (by decide)
  have herror : Logger.Stamped error.now := Logger.stamped_of_lt (by decide) (by decide)
  have hrun : Run.run (step strerror_r) (start false ()) [.log trace, .setOutput true, .log error] =
      some ({ (start false ()).give (trace.record strerror_r) with g_output := true }.give
        (error.record strerror_r)) := by
    refine Run.run_cons_eq_some.2 ⟨_, step_log_of_stamped rfl rfl htrace rfl,
      Run.run_cons_eq_some.2 ⟨_, rfl, ?_⟩⟩
    rw [Run.run_singleton]
    exact step_log_of_stamped rfl rfl herror rfl
  have hone : ∀ st, .log st ∈ ([.log trace, .setOutput true, .log error] : List (LogEvent Bool Unit)) →
      st.OneLine strerror_r := by
    intro st hst
    simp only [List.mem_cons, LogEvent.log.injEq, reduceCtorEq, false_or, List.not_mem_nil,
      or_false] at hst
    rcases hst with rfl | rfl <;>
      exact ⟨by decide +kernel, by decide, by decide, by decide, by decide +kernel⟩
  exact ⟨_, hrun, lines_are_records hone hrun true⟩

/-! ## Levels -/

/-- The same event, or a higher level. -/
inductive Quieter : LogEvent ω φ → LogEvent ω φ → Prop where
  | same (e : LogEvent ω φ) : Quieter e e
  | level {l l' : LogLevel} (h : l.val ≤ l'.val) : Quieter (.setLogLevel l) (.setLogLevel l')

theorem passed_quieter {es es' : List (LogEvent ω φ)} (h : List.Forall₂ Quieter es es')
    {l l' : LogLevel} (hl : l.val ≤ l'.val) (out : ω) :
    (passed l' out es').Sublist (passed l out es) ∧
      (passed l' out es').filter (·.2.severe) = (passed l out es).filter (·.2.severe) := by
  induction h generalizing l l' out with
  | nil => exact ⟨List.Sublist.slnil, rfl⟩
  | @cons e _ _ _ he _ ih =>
      cases he with
      | level hle => exact ih hle out
      | same =>
          cases e with
          | setLogLevel level => exact ih (Nat.le_refl _) out
          | setOutput out => exact ih hl out
          | setFlush flush => exact ih hl out
          | log st =>
              obtain ⟨hsub, hsevere⟩ := ih hl out
              rw [passed, passed]
              by_cases henabled' : st.log.enabled l' = true
              · rw [if_pos henabled', if_pos (Statement.enabled_of_le hl henabled')]
                exact ⟨hsub.cons_cons _, by simp only [List.filter_cons, hsevere]⟩
              · rw [if_neg henabled']
                -- What the higher level leaves out is not severe.
                have hmild : st.severe = false := by
                  by_contra h
                  exact henabled' (Statement.enabled_of_severe l' (by simpa using h))
                split_ifs
                · exact ⟨hsub.cons _, by simp only [List.filter_cons, hmild, hsevere]; rfl⟩
                · exact ⟨hsub, hsevere⟩

/-- Two programs that differ in the level and in what was left out. -/
structure Agree (s s' : Log ω φ) : Prop where
  level : s.g_logLevel.val ≤ s'.g_logLevel.val
  g_output : s'.g_output = s.g_output
  g_flush : s'.g_flush = s.g_flush
  flushes : s'.flushes = s.flushes
  aborted : s'.aborted = s.aborted

/-- A statement that is left out does not abort the program. -/
theorem fatal_enabled {st : Statement} (l : LogLevel) (h : st.fatal = true) :
    st.log.enabled l = true := by
  refine Statement.enabled_of_severe l ?_
  rw [Statement.fatal, decide_eq_true_eq] at h
  rw [Statement.severe, h]
  decide

theorem Agree.step {s s₁ s' : Log ω φ} {e e' : LogEvent ω φ} (A : Agree s s') (he : Quieter e e')
    (h : s.step strerror_r e = some s₁) :
    ∃ s₁', s'.step strerror_r e' = some s₁' ∧ Agree s₁ s₁' := by
  unfold Log.step at h ⊢
  rw [A.aborted]
  split_ifs at h ⊢ with haborted
  cases he with
  | level hle =>
      obtain rfl := Option.some.inj h
      exact ⟨_, rfl, hle, A.g_output, A.g_flush, A.flushes, A.aborted⟩
  | same =>
      cases e with
      | setLogLevel level =>
          obtain rfl := Option.some.inj h
          exact ⟨_, rfl, Nat.le_refl _, A.g_output, A.g_flush, A.flushes, A.aborted⟩
      | setOutput out =>
          obtain rfl := Option.some.inj h
          exact ⟨_, rfl, A.level, rfl, A.g_flush, A.flushes, A.aborted⟩
      | setFlush flush =>
          obtain rfl := Option.some.inj h
          exact ⟨_, rfl, A.level, A.g_output, rfl, A.flushes, A.aborted⟩
      | log st =>
          rw [exec] at h ⊢
          by_cases henabled' : st.log.enabled s'.g_logLevel = true
          · rw [if_pos (Statement.enabled_of_le A.level henabled')] at h
            rw [if_pos henabled']
            obtain ⟨⟨record, fatal⟩, hwrite, rfl⟩ := Option.map_eq_some_iff.1 h
            rw [hwrite]
            refine ⟨_, rfl, ?_⟩
            cases fatal with
            | false => exact ⟨A.level, A.g_output, A.g_flush, A.flushes, A.aborted⟩
            | true =>
                refine ⟨A.level, A.g_output, A.g_flush, ?_, rfl⟩
                show s'.flushes ++ [s'.g_flush] = s.flushes ++ [s.g_flush]
                rw [A.flushes, A.g_flush]
          · rw [if_neg henabled']
            refine ⟨s', rfl, ?_⟩
            split_ifs at h
            · obtain ⟨p, hp, rfl⟩ := Option.map_eq_some_iff.1 h
              obtain ⟨-, rfl⟩ := Statement.write_eq_some hp
              have hfatal : st.fatal = false := by
                by_contra hne
                exact henabled' (fatal_enabled _ (by simpa using hne))
              simp only [hfatal]
              exact ⟨A.level, A.g_output, A.g_flush, A.flushes, A.aborted⟩
            · obtain rfl := Option.some.inj h
              exact A

/-- **A higher level only leaves records out.** If a program could be run, then so could one that sets
    higher levels at the same places. Its output is the other's with some records left out, none of
    them a warning, an error or a fatal one, and it is flushed and aborted where the other is. -/
theorem quieter_run {defaultOutput : ω} {defaultFlush : φ} {es es' : List (LogEvent ω φ)}
    {s : Log ω φ} (hquieter : List.Forall₂ Quieter es es')
    (h : Run.run (step strerror_r) (start defaultOutput defaultFlush) es = some s) :
    ∃ s', Run.run (step strerror_r) (start defaultOutput defaultFlush) es' = some s' ∧
      s'.outputs.Sublist s.outputs ∧ s'.flushes = s.flushes ∧ s'.aborted = s.aborted ∧
      (let written := passed .TRACE defaultOutput es
       let written' := passed .TRACE defaultOutput es'
       s.outputs = written.map (fun p => (p.1, p.2.record strerror_r)) ∧
        s'.outputs = written'.map (fun p => (p.1, p.2.record strerror_r)) ∧
        written'.filter (·.2.severe) = written.filter (·.2.severe)) := by
  have hstart : Agree (start defaultOutput defaultFlush) (start defaultOutput defaultFlush) :=
    ⟨Nat.le_refl _, rfl, rfl, rfl, rfl⟩
  have hstep : ∀ (s t : Log ω φ) e e' s₁, Agree s t → Quieter e e' → s.step strerror_r e = some s₁ →
      ∃ t₁, t.step strerror_r e' = some t₁ ∧ Agree s₁ t₁ := fun _ _ _ _ _ A he hs => A.step he hs
  obtain ⟨s', hrun', A⟩ := Run.forward_run hstep hquieter hstart h
  have houtputs : s.outputs = (passed .TRACE defaultOutput es).map
      fun p => (p.1, p.2.record strerror_r) := by
    rw [outputs_run h]
    rfl
  have houtputs' : s'.outputs = (passed .TRACE defaultOutput es').map
      fun p => (p.1, p.2.record strerror_r) := by
    rw [outputs_run hrun']
    rfl
  obtain ⟨hsub, hsevere⟩ := passed_quieter hquieter (Nat.le_refl LogLevel.TRACE.val) defaultOutput
  refine ⟨s', hrun', ?_, A.flushes, A.aborted, houtputs, houtputs', hsevere⟩
  rw [houtputs, houtputs']
  exact hsub.map _

/-- At `WARN`, an information is left out and the error behind it is not. -/
theorem quieter_run_warn :
    let data : CharArray LogStream.kSmallBuffer := ⟨List.replicate 4000 0, List.length_replicate⟩
    let file : Text := ⟨ascii "main.cc", by decide⟩
    let info : Statement := ⟨.INFO, file, file, 3, [.int 5], 0, 0, data⟩
    let error : Statement := ⟨.ERROR, file, file, 4, [.int 7], 1, 0, data⟩
    let strerror_r : Int32 → Text := fun _ => file
    ∃ s s' : Log Unit Unit,
      Run.run (step strerror_r) (start () ()) [.setLogLevel .TRACE, .log info, .log error] = some s ∧
      Run.run (step strerror_r) (start () ()) [.setLogLevel .WARN, .log info, .log error] = some s' ∧
      s'.outputs.Sublist s.outputs := by
  intro data file info error strerror_r
  have hinfo : Logger.Stamped info.now := Logger.stamped_of_lt (by decide) (by decide)
  have herror : Logger.Stamped error.now := Logger.stamped_of_lt (by decide) (by decide)
  have hrun : Run.run (step strerror_r) (start () ()) [.setLogLevel .TRACE, .log info, .log error] =
      some (((start () ()).give (info.record strerror_r)).give (error.record strerror_r)) := by
    refine Run.run_cons_eq_some.2 ⟨start () (), rfl, Run.run_cons_eq_some.2
      ⟨_, step_log_of_stamped rfl rfl hinfo rfl, ?_⟩⟩
    rw [Run.run_singleton]
    exact step_log_of_stamped rfl rfl herror rfl
  have hquieter : List.Forall₂ (Quieter (ω := Unit) (φ := Unit))
      [.setLogLevel .TRACE, .log info, .log error] [.setLogLevel .WARN, .log info, .log error] :=
    .cons (.level (by decide)) (.cons (.same _) (.cons (.same _) .nil))
  obtain ⟨s', hs', hsub, -⟩ := quieter_run hquieter hrun
  exact ⟨_, s', hrun, hs', hsub⟩

end Log

end WwjMuduo
