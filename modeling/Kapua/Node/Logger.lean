import Kapua.Configuration.Parsers
import Kapua.Foundation.Monitor

/-!
# The log

Every class of the program has a `ScopedLogger` of its own, which adds its name to a message and
hands it to the logger it was given; at the end there is the one `IOStreamLogger` of `main`, whose
methods write to `cout` or `cerr` under `_logging_mutex`. The threads of the program call any of
them at any time. A step is one statement, so that a line is four insertions, and the level of the
`IOStreamLogger`, which is not under the mutex, may change at any time.

Whatever the threads do, the output is whole lines one after another (`lines_whole`). A line carries
the names of all the scopes that the message went through, the outermost nearest to the message,
each of which lets it through.
-/

set_option autoImplicit false
set_option relaxedAutoImplicit false

namespace Kapua

open Monitor

/-- The values of `LogLevel_t`. -/
def LogLevel.code : LogLevel → UInt8
  | .error => 0
  | .warn => 1
  | .info => 2
  | .debug => 3
  | .unknown => 255

namespace Logging

/-- The methods of `Logger` that log. -/
inductive Method
  | debug
  | info
  | warn
  | error
  | raw
  deriving DecidableEq

/-- The streams that are written to, `cout` and `cerr`. -/
inductive Stream
  | cout
  | cerr
  deriving DecidableEq

/-- The test of the level at the beginning of a method; `error` and `raw` have none. -/
def Method.passes (level : LogLevel) : Method → Bool
  | debug => !decide (level.code < LogLevel.debug.code)
  | info => !decide (level.code < LogLevel.info.code)
  | warn => !decide (level.code < LogLevel.warn.code)
  | error | raw => true

/-- Where a method of `IOStreamLogger` writes to. The stream that the logger was constructed with is
not used. -/
def Method.stream : Method → Stream
  | debug | info | warn => .cout
  | error | raw => .cerr

/-- What a method writes between the time and the message. -/
def Method.label : Method → String
  | debug => " [DEBUG] "
  | info => " [INFO ] "
  | warn => " [WARN ] "
  | error => " [ERROR] "
  | raw => " [     ] "

/-- `class ScopedLogger`, without the logger it hands messages to: `_prefix`, and `_log_level` if
`_using_log_level` is set. -/
structure ScopedLogger where
  scope : String
  level : Option LogLevel

/-- Whether a method hands a message on. -/
def ScopedLogger.forwards (logger : ScopedLogger) (method : Method) : Bool :=
  match logger.level with
  | none => true
  | some level => method.passes level

/-- What a method of `ScopedLogger` hands on. -/
def ScopedLogger.log (logger : ScopedLogger) (message : String) : String :=
  "(" ++ logger.scope ++ ") " ++ message

/-- A call of a method on a logger, given by the scopes from that logger to the `IOStreamLogger`. -/
structure Call where
  scopes : List ScopedLogger
  method : Method
  message : String

/-- What a chain of scopes hands to the `IOStreamLogger`, if it hands anything to it. -/
def forward (method : Method) : List ScopedLogger → String → Option String
  | [], message => some message
  | logger :: rest, message =>
    if logger.forwards method then forward method rest (logger.log message) else none

/-- The message with the names of the scopes it has gone through. -/
def Call.text (call : Call) : String :=
  call.scopes.foldl (fun message logger ↦ logger.log message) call.message

/-- Every scope lets the message through. -/
def Call.Forwarded (call : Call) : Prop :=
  ∀ logger ∈ call.scopes, logger.forwards call.method = true

/-- A chain hands a message on exactly if every scope does, with all their names. -/
theorem forward_eq_some_iff {method : Method} {scopes : List ScopedLogger}
    {message text : String} : forward method scopes message = some text ↔
      Call.Forwarded ⟨scopes, method, message⟩ ∧ Call.text ⟨scopes, method, message⟩ = text := by
  induction scopes generalizing message with
  | nil => simp [forward, Call.Forwarded, Call.text]
  | cons logger rest ih =>
    rw [forward]
    by_cases hforwards : logger.forwards method = true
    · rw [if_pos hforwards, ih]
      simp [Call.Forwarded, Call.text, hforwards]
    · rw [if_neg hforwards]
      simp [Call.Forwarded, hforwards]

/-! ### The threads -/

/-- A line, with the thread that wrote it, the call it was written for and the time it shows. -/
structure Line where
  index : ℕ
  call : Call
  time : String

/-- The insertions of a line. -/
def Line.pieces (line : Line) : List String :=
  [line.time, line.call.method.label, line.call.text, "\n"]

/-- What `_logging_mutex` protects: the streams, as the insertions into each, and how often the time
was asked for. The lines are a record that no statement reads. -/
structure Output where
  contents : Stream → List String
  clock : ℕ
  lines : List Line

/-- What a thread is about to do.
* `outside`: it is in none of the methods.
* `testLevel`: the test of the level in a method of `IOStreamLogger`.
* `lockGuard`: the constructor of the lock guard.
* `getTimeStr`: the call of `_getTimeStr`.
* `insert`: the rest of the insertions, and the destructor of the lock guard after the last. -/
inductive Place
  | outside
  | testLevel (call : Call) (log : String)
  | lockGuard (call : Call) (log : String)
  | getTimeStr (call : Call) (log : String)
  | insert (stream : Stream) (pieces : List String)

/-- The call of `_getTimeStr` for a line, which is the beginning of the line. -/
def Output.begin (output : Output) (index : ℕ) (call : Call) (time : String) : Output :=
  { output with clock := output.clock + 1, lines := output.lines ++ [⟨index, call, time⟩] }

/-- An insertion into a stream. -/
def Output.insert (output : Output) (stream : Stream) (piece : String) : Output :=
  { output with contents := fun other ↦
      if other = stream then output.contents other ++ [piece] else output.contents other }

variable (timeStr : ℕ → String)

/-- The methods of `ScopedLogger` and `IOStreamLogger`. `timeStr` are the times that `_getTimeStr`
returns, in the order of its calls. -/
def stmt : Place → Stmt Place Output LogLevel (Option Call)
  | .outside => .other fun call level ↦ call.map fun call ↦
      match forward call.method call.scopes call.message with
      | none => (.outside, level)
      | some log => (.testLevel call log, level)
  | .testLevel call log => .other fun next level ↦
      if next.isNone then
        some (if call.method.passes level then .lockGuard call log else .outside, level)
      else none
  | .lockGuard call log => .lock (.getTimeStr call log)
  | .getTimeStr call log => .access fun index output ↦
      (.insert call.method.stream [timeStr output.clock, call.method.label, log, "\n"],
        output.begin index call (timeStr output.clock))
  | .insert stream (piece :: rest) => .access fun _ output ↦
      (.insert stream rest, output.insert stream piece)
  | .insert _ [] => .unlock .outside

/-- Whether a thread holds `_logging_mutex`. -/
def holds : Place → Bool
  | .outside | .testLevel _ _ | .lockGuard _ _ => false
  | .getTimeStr _ _ | .insert _ _ => true

/-- The methods lock and unlock the mutex as `holds` says. -/
theorem keeps (place : Place) : (stmt timeStr place).Keeps holds place := by
  cases place with
  | outside =>
    refine ⟨rfl, fun call level next hnext ↦ ?_⟩
    obtain ⟨call, -, rfl⟩ := Option.map_eq_some_iff.mp hnext
    cases forward call.method call.scopes call.message <;> rfl
  | testLevel call log =>
    refine ⟨rfl, fun other level next hnext ↦ ?_⟩
    obtain ⟨-, hnext⟩ := Option.ite_none_right_eq_some.mp hnext
    obtain rfl := Option.some.inj hnext
    split_ifs <;> rfl
  | lockGuard call log => exact ⟨rfl, rfl⟩
  | getTimeStr call log => exact ⟨rfl, fun _ _ ↦ rfl⟩
  | insert stream pieces =>
    cases pieces with
    | nil => exact ⟨rfl, rfl⟩
    | cons piece rest => exact ⟨rfl, fun _ _ ↦ rfl⟩

/-- The threads of the program as far as they log. -/
def code : Code Place Output LogLevel (Option Call) where
  stmt := stmt timeStr
  holds := holds
  keeps := keeps timeStr

/-- Before the first call of any thread, with nothing written. -/
structure Started (s : State Place Output LogLevel) : Prop where
  holder : s.holder = none
  contents : ∀ stream, s.shared.contents stream = []
  clock : s.shared.clock = 0
  lines : s.shared.lines = []
  threads : ∀ thread ∈ s.threads, thread = .runs .outside

section Statements

variable {timeStr : ℕ → String} {place next : Place}
  {f : ℕ → Output → Place × Output}

/-- The only place at which the mutex is locked. -/
theorem stmt_eq_lock (hstmt : stmt timeStr place = .lock next) :
    ∃ call log, place = .lockGuard call log ∧ next = .getTimeStr call log := by
  cases place with
  | lockGuard call log => exact ⟨call, log, rfl, (Stmt.lock.inj hstmt).symm⟩
  | insert stream pieces => cases pieces <;> cases hstmt
  | outside | testLevel _ _ | getTimeStr _ _ => cases hstmt

/-- The only place at which the mutex is unlocked. -/
theorem stmt_eq_unlock (hstmt : stmt timeStr place = .unlock next) :
    ∃ stream, place = .insert stream [] ∧ next = .outside := by
  cases place with
  | insert stream pieces =>
    cases pieces with
    | nil => exact ⟨stream, rfl, (Stmt.unlock.inj hstmt).symm⟩
    | cons piece rest => cases hstmt
  | outside | testLevel _ _ | lockGuard _ _ | getTimeStr _ _ => cases hstmt

/-- No thread waits for anything but the mutex. -/
theorem stmt_ne_wait {after : Bool → Place} : stmt timeStr place ≠ .wait after := by
  intro hstmt
  cases place with
  | insert stream pieces => cases pieces <;> cases hstmt
  | outside | testLevel _ _ | lockGuard _ _ | getTimeStr _ _ => cases hstmt

/-- No thread notifies another. -/
theorem stmt_ne_notifyOne : stmt timeStr place ≠ .notifyOne next := by
  intro hstmt
  cases place with
  | insert stream pieces => cases pieces <;> cases hstmt
  | outside | testLevel _ _ | lockGuard _ _ | getTimeStr _ _ => cases hstmt

/-- A thread that holds the mutex begins a line or makes an insertion. -/
theorem stmt_eq_access (hstmt : stmt timeStr place = .access f) :
    (∃ call log, place = .getTimeStr call log ∧ f = fun index output ↦
      (.insert call.method.stream [timeStr output.clock, call.method.label, log, "\n"],
        output.begin index call (timeStr output.clock))) ∨
    ∃ stream piece rest, place = .insert stream (piece :: rest) ∧ f = fun _ output ↦
      (.insert stream rest, output.insert stream piece) := by
  cases place with
  | getTimeStr call log => exact .inl ⟨call, log, rfl, (Stmt.access.inj hstmt).symm⟩
  | insert stream pieces =>
    cases pieces with
    | nil => cases hstmt
    | cons piece rest =>
      exact .inr ⟨stream, piece, rest, rfl, (Stmt.access.inj hstmt).symm⟩
  | outside | testLevel _ _ | lockGuard _ _ => cases hstmt

/-- Without the mutex, a thread calls a method, whose message is handed on or not, or tests the
level. -/
theorem stmt_eq_other {choose : Option Call → LogLevel → Option (Place × LogLevel)}
    (hstmt : stmt timeStr place = .other choose) {call : Option Call} {level : LogLevel}
    {result : Place × LogLevel} (hresult : choose call level = some result) :
    (∃ called, call = some called ∧ place = .outside ∧
      ((¬ called.Forwarded ∧ result.1 = .outside) ∨
        called.Forwarded ∧ result.1 = .testLevel called called.text)) ∨
    ∃ called log, call = none ∧ place = .testLevel called log ∧
      result.1 = if called.method.passes level then .lockGuard called log else .outside := by
  cases place with
  | outside =>
    obtain rfl := Stmt.other.inj hstmt
    obtain ⟨called, rfl, rfl⟩ := Option.map_eq_some_iff.mp hresult
    refine .inl ⟨called, rfl, rfl, ?_⟩
    cases hforward : forward called.method called.scopes called.message with
    | none =>
      refine .inl ⟨fun hforwarded ↦ ?_, rfl⟩
      exact absurd (forward_eq_some_iff.mpr ⟨hforwarded, rfl⟩) (by simp [hforward])
    | some log =>
      obtain ⟨hforwarded, htext⟩ := forward_eq_some_iff.mp hforward
      exact .inr ⟨hforwarded, by rw [← htext]⟩
  | testLevel called log =>
    obtain rfl := Stmt.other.inj hstmt
    obtain ⟨hcall, hresult⟩ := Option.ite_none_right_eq_some.mp hresult
    obtain rfl := Option.some.inj hresult
    exact .inr ⟨called, log, Option.isNone_iff_eq_none.mp hcall, rfl, rfl⟩
  | insert stream pieces => cases pieces <;> cases hstmt
  | lockGuard _ _ | getTimeStr _ _ => cases hstmt

end Statements

/-! ### The output between two statements -/

/-- The insertions of the lines that go to a stream. -/
def written (stream : Stream) (lines : List Line) : List String :=
  (lines.filter fun line ↦ line.call.method.stream = stream).flatMap Line.pieces

/-- The insertions of one more line. -/
theorem written_concat (stream : Stream) (lines : List Line) (line : Line) :
    written stream (lines ++ [line]) = written stream lines ++
      if line.call.method.stream = stream then line.pieces else [] := by
  by_cases hstream : line.call.method.stream = stream <;> simp [written, hstream]

/-- The lines are of calls that all scopes let through, with the times in the order in which they
were asked for. -/
structure Output.Recorded (output : Output) (timeStr : ℕ → String) : Prop where
  forwarded : ∀ line ∈ output.lines, line.call.Forwarded
  times : output.lines.map Line.time = (List.range output.clock).map timeStr

/-- The streams hold the lines, except for the last pieces of what one of them is to hold. -/
def Output.Lacks (output : Output) (stream : Stream) (pieces : List String) : Prop :=
  ∀ other, output.contents other ++ (if other = stream then pieces else []) =
    written other output.lines

/-- The streams hold whole lines. -/
structure Output.Whole (output : Output) (timeStr : ℕ → String) : Prop where
  recorded : output.Recorded timeStr
  contents : ∀ stream, output.contents stream = written stream output.lines

/-- The thread `index` has some insertions of the last line still to make. -/
structure Output.Begun (output : Output) (timeStr : ℕ → String) (index : ℕ) (stream : Stream)
    (pieces : List String) : Prop where
  recorded : output.Recorded timeStr
  lacks : output.Lacks stream pieces
  last : ∃ earlier line, output.lines = earlier ++ [line] ∧ line.index = index ∧
    line.call.method.stream = stream ∧ pieces <:+ line.pieces

section Output

variable {timeStr : ℕ → String} {output : Output} {index : ℕ} {stream : Stream}

/-- The call of `_getTimeStr` begins a line. -/
theorem Output.Whole.begin (h : output.Whole timeStr) (index : ℕ) {call : Call}
    (hforwarded : call.Forwarded) :
    (output.begin index call (timeStr output.clock)).Begun timeStr index call.method.stream
      (Line.pieces ⟨index, call, timeStr output.clock⟩) where
  recorded := {
    forwarded := List.forall_mem_append.mpr ⟨h.recorded.forwarded, by simpa using hforwarded⟩
    times := by simp [Output.begin, h.recorded.times, List.range_succ] }
  lacks other := by
    show output.contents other ++ _ = written other (output.lines ++ [_])
    rw [written_concat, h.contents]
    by_cases hother : other = call.method.stream
    · rw [if_pos hother, if_pos hother.symm]
    · rw [if_neg hother, if_neg (Ne.symm hother)]
  last := ⟨output.lines, _, rfl, rfl, rfl, List.suffix_refl _⟩

/-- An insertion goes on with the line. -/
theorem Output.Begun.insert {piece : String} {rest : List String}
    (h : output.Begun timeStr index stream (piece :: rest)) :
    (output.insert stream piece).Begun timeStr index stream rest where
  recorded := ⟨h.recorded.forwarded, h.recorded.times⟩
  lacks other := by
    show (if other = stream then _ else _) ++ _ = written other output.lines
    have hlacks := h.lacks other
    by_cases hother : other = stream
    · rw [if_pos hother] at hlacks ⊢
      rw [if_pos hother, List.append_assoc]
      exact hlacks
    · rw [if_neg hother] at hlacks ⊢
      rw [if_neg hother]
      exact hlacks
  last := by
    obtain ⟨earlier, line, hlines, hindex, hstream, hsuffix⟩ := h.last
    exact ⟨earlier, line, hlines, hindex, hstream, (List.suffix_cons _ _).trans hsuffix⟩

/-- After the last insertion the line is whole. -/
theorem Output.Begun.whole (h : output.Begun timeStr index stream []) : output.Whole timeStr where
  recorded := h.recorded
  contents other := by simpa using h.lacks other

end Output

/-- What holds when a thread is about to execute a statement. -/
def assertion (index : ℕ) (thread : Thread Place) (output : Output) : Prop :=
  match thread with
  | .runs .outside => True
  | .runs (.testLevel call log) | .runs (.lockGuard call log) => call.Forwarded ∧ call.text = log
  | .runs (.getTimeStr call log) =>
    (call.Forwarded ∧ call.text = log) ∧ output.Whole timeStr
  | .runs (.insert stream pieces) => output.Begun timeStr index stream pieces
  | .sleeps _ | .wakes _ _ => False

section Assertions

variable {timeStr : ℕ → String} {index : ℕ} {place : Place} {output : Output}

/-- An access leads to the assertion of the place after it. -/
theorem assertion_access {f : ℕ → Output → Place × Output} (hstmt : stmt timeStr place = .access f)
    (h : assertion timeStr index (.runs place) output) :
    assertion timeStr index (.runs (f index output).1) (f index output).2 := by
  obtain ⟨call, log, rfl, rfl⟩ | ⟨stream, piece, rest, rfl, rfl⟩ := stmt_eq_access hstmt
  · obtain ⟨⟨hforwarded, rfl⟩, hwhole⟩ := h
    exact hwhole.begin index hforwarded
  · exact Output.Begun.insert h

/-- The assertion about a thread without the mutex is not about the output. -/
theorem assertion_frame {thread : Thread Place} (hthread : (code timeStr).holding thread = false)
    (h : assertion timeStr index thread output) (output' : Output) :
    assertion timeStr index thread output' := by
  cases thread with
  | runs place =>
    cases place with
    | outside | testLevel _ _ | lockGuard _ _ => exact h
    | getTimeStr _ _ | insert _ _ => cases hthread
  | sleeps place => exact h
  | wakes place timedOut => exact h

/-- A statement without the mutex leads to the assertion of the place after it. -/
theorem assertion_other {choose : Option Call → LogLevel → Option (Place × LogLevel)}
    (hstmt : stmt timeStr place = .other choose) {call : Option Call} {level : LogLevel}
    {next : Place × LogLevel} (hnext : choose call level = some next)
    (h : assertion timeStr index (.runs place) output) :
    assertion timeStr index (.runs next.1) output := by
  obtain ⟨called, -, -, ⟨-, hresult⟩ | ⟨hforwarded, hresult⟩⟩ | ⟨called, log, -, rfl, hresult⟩ :=
    stmt_eq_other hstmt hnext
  · rw [hresult]
    trivial
  · rw [hresult]
    exact ⟨hforwarded, rfl⟩
  · rw [hresult]
    split
    · exact h
    · trivial

end Assertions

/-- The assertions about the threads that log. -/
def outline : Outline (code timeStr) where
  free output := output.Whole timeStr
  assertion := assertion timeStr
  lock hstmt h hfree := by
    obtain ⟨call, log, rfl, rfl⟩ := stmt_eq_lock hstmt
    exact ⟨h, hfree⟩
  relock _ hstmt := absurd hstmt stmt_ne_wait
  unlock hstmt h := by
    obtain ⟨stream, rfl, rfl⟩ := stmt_eq_unlock hstmt
    exact ⟨Output.Begun.whole h, trivial⟩
  wait hstmt := absurd hstmt stmt_ne_wait
  wake h := h
  access := assertion_access
  frame _ _ _ hthread h' := assertion_frame hthread h' _
  other hstmt hnext h := assertion_other hstmt hnext h
  notifyOne hstmt := absurd hstmt stmt_ne_notifyOne

/-- No lines are whole lines. -/
theorem Started.valid {s : State Place Output LogLevel} (h : Started s) :
    (outline timeStr).Valid s where
  exclusive := exclusive_of_outside h.holder fun thread hthread ↦ by
    rw [h.threads thread hthread]
    rfl
  free _ := {
    recorded := ⟨by simp [h.lines], by simp [h.lines, h.clock]⟩
    contents := fun stream ↦ by simp [h.contents, h.lines, written] }
  threads index thread hat := by
    rw [h.threads thread (List.mem_of_getElem? hat)]
    trivial

/-! ### The calls of one thread -/

/-- The calls for which the thread `index` has begun a line. -/
def Output.callsOf (output : Output) (index : ℕ) : List Call :=
  (output.lines.filter (·.index = index)).map Line.call

/-- The call that a thread is in and has not begun a line for. -/
def Place.pending : Place → List Call
  | .testLevel call _ | .lockGuard call _ | .getTimeStr call _ => [call]
  | .outside | .insert _ _ => []

/-- The methods that log at every level. -/
def Method.unconditional : Method → Bool
  | error | raw => true
  | debug | info | warn => false

theorem Method.passes_of_unconditional {method : Method} (h : method.unconditional = true)
    (level : LogLevel) : method.passes level = true := by
  cases method with
  | error | raw => rfl
  | debug | info | warn => cases h

/-- Every scope lets the message of such a method through. -/
theorem Call.forwarded_of_unconditional {call : Call} (h : call.method.unconditional = true) :
    call.Forwarded := by
  intro logger _
  rw [ScopedLogger.forwards]
  split
  · rfl
  · exact Method.passes_of_unconditional h _

/-- The lines of a thread are for some of its calls, in the order of the calls. -/
structure Kept (calls begun : List Call) : Prop where
  sublist : begun.Sublist calls
  unconditional : begun.filter (·.method.unconditional) = calls.filter (·.method.unconditional)

section Kept

variable {calls begun : List Call} {call : Call}

/-- One more call, for which there is to be a line. -/
theorem Kept.append (h : Kept calls begun) (call : Call) :
    Kept (calls ++ [call]) (begun ++ [call]) where
  sublist := h.sublist.append (.refl _)
  unconditional := by rw [List.filter_append, h.unconditional, List.filter_append]

/-- One more call, for which there is to be none. -/
theorem Kept.skip (h : Kept calls begun) (hcall : call.method.unconditional = false) :
    Kept (calls ++ [call]) begun where
  sublist := h.sublist.trans (List.sublist_append_left _ _)
  unconditional := by simp [h.unconditional, hcall]

/-- The last call is given up. -/
theorem Kept.drop (h : Kept calls (begun ++ [call])) (hcall : call.method.unconditional = false) :
    Kept calls begun where
  sublist := (List.sublist_append_left _ _).trans h.sublist
  unconditional := by simpa [hcall] using h.unconditional

end Kept

/-- Every thread has begun lines for its calls, but for the one it is in and those that a scope or
the level has stopped. -/
def history : History (code timeStr) where
  agrees index calls thread output := match thread with
    | .runs place => Kept calls (output.callsOf index ++ place.pending)
    | .sleeps _ | .wakes _ _ => False
  moves hmoves h := by
    cases hmoves with
    | lock hstmt =>
      obtain ⟨call, log, rfl, rfl⟩ := stmt_eq_lock hstmt
      exact h
    | unlock hstmt =>
      obtain ⟨stream, rfl, rfl⟩ := stmt_eq_unlock hstmt
      exact h
    | relock hstmt => exact absurd hstmt stmt_ne_wait
    | wait hstmt => exact absurd hstmt stmt_ne_wait
    | notifyOne hstmt => exact absurd hstmt stmt_ne_notifyOne
    | wake => exact h
  access {index _ _ _ output} hstmt h := by
    obtain ⟨call, log, rfl, rfl⟩ | ⟨stream, piece, rest, rfl, rfl⟩ := stmt_eq_access hstmt
    · have hcalls : (output.begin index call (timeStr output.clock)).callsOf index ++ [] =
          output.callsOf index ++ [call] := by
        simp [Output.callsOf, Output.begin]
      show Kept _ (_ ++ [])
      rw [hcalls]
      exact h
    · exact h
  frame {index other _ _ thread _ output} hstmt hother h := by
    obtain ⟨call, log, rfl, rfl⟩ | ⟨stream, piece, rest, rfl, rfl⟩ := stmt_eq_access hstmt
    · have hcalls : (output.begin index call (timeStr output.clock)).callsOf other =
          output.callsOf other := by
        simp [Output.callsOf, Output.begin, Ne.symm hother]
      cases thread with
      | runs place =>
        show Kept _ ((output.begin _ _ _).callsOf other ++ _)
        rw [hcalls]
        exact h
      | sleeps place => exact h
      | wakes place timedOut => exact h
    · exact h
  other {index calls _ _ _ _ _ output} hstmt hnext h := by
    obtain ⟨called, rfl, rfl, ⟨hnot, hplace⟩ | ⟨-, hplace⟩⟩ | ⟨called, log, rfl, rfl, hplace⟩ :=
      stmt_eq_other hstmt hnext
    · have hcall : called.method.unconditional = false :=
        eq_false_of_ne_true fun hcall ↦ hnot (Call.forwarded_of_unconditional hcall)
      rw [hplace]
      exact Kept.skip h hcall
    · have hbefore : Kept calls (output.callsOf index) := by simpa [Place.pending] using h
      rw [hplace]
      exact hbefore.append called
    · rw [hplace]
      show Kept (calls ++ []) _
      rw [List.append_nil]
      split
      · exact h
      · rename_i hpasses
        have hcall : called.method.unconditional = false :=
          eq_false_of_ne_true fun hcall ↦ hpasses (Method.passes_of_unconditional hcall _)
        show Kept calls (output.callsOf index ++ [])
        rw [List.append_nil]
        exact Kept.drop h hcall

variable {timeStr : ℕ → String} {s t : State Place Output LogLevel}
  {events : List (Event LogLevel (Option Call))}

/-- The streams lack at most the end of the last line, which the thread that holds the mutex has yet
to write. -/
theorem exists_lacks (h : (outline timeStr).Valid s) : s.shared.Recorded timeStr ∧
    ∃ stream pieces, s.shared.Lacks stream pieces ∧ (pieces = [] ∨
      ∃ earlier line, s.shared.lines = earlier ++ [line] ∧ s.holder = some line.index ∧
        line.call.method.stream = stream ∧ pieces <:+ line.pieces) := by
  have hwhole (hfree : s.shared.Whole timeStr) : s.shared.Recorded timeStr ∧
      ∃ stream pieces, s.shared.Lacks stream pieces ∧ (pieces = [] ∨
        ∃ earlier line, s.shared.lines = earlier ++ [line] ∧ s.holder = some line.index ∧
          line.call.method.stream = stream ∧ pieces <:+ line.pieces) :=
    ⟨hfree.recorded, .cout, [], fun other ↦ by simpa using hfree.contents other, .inl rfl⟩
  cases hholder : s.holder with
  | none => simpa [hholder] using hwhole (h.free hholder)
  | some index =>
    obtain ⟨place, hat, hholds⟩ := h.exclusive.exists_place hholder
    have hassertion : assertion timeStr index (.runs place) s.shared := h.threads _ _ hat
    cases place with
    | getTimeStr call log => simpa [hholder] using hwhole hassertion.2
    | insert stream pieces =>
      obtain ⟨earlier, line, hlines, rfl, hstream, hsuffix⟩ := Output.Begun.last hassertion
      exact ⟨Output.Begun.recorded hassertion, stream, pieces, Output.Begun.lacks hassertion,
        .inr ⟨earlier, line, hlines, rfl, hstream, hsuffix⟩⟩
    | outside | testLevel _ _ | lockGuard _ _ => cases hholds

/-- Whatever the threads, the order of their statements and the changes of the level, each stream is
the whole lines for it one after another, but for the end of the line that the thread which holds
the mutex is writing. The lines are in the order of their times, and of messages that every scope
lets through. The lines of a thread are for calls of its own, in the order of the calls and each of
them once, and none of its calls of `error` and `raw` is without a line, but for the call it is
in. -/
theorem lines_whole (hs : Started s)
    (hrun : Run (fun s event t ↦ step (code timeStr) s event = some t) s events t) :
    (∃ stream pieces, t.shared.Lacks stream pieces ∧ (pieces = [] ∨
      ∃ earlier line, t.shared.lines = earlier ++ [line] ∧ t.holder = some line.index ∧
        line.call.method.stream = stream ∧ pieces <:+ line.pieces)) ∧
    t.shared.lines.map Line.time = (List.range t.shared.clock).map timeStr ∧
    (∀ line ∈ t.shared.lines, line.call.Forwarded) ∧
    ∀ index place, t.threads[index]? = some (.runs place) →
      Kept (called index events) (t.shared.callsOf index ++ place.pending) := by
  obtain ⟨hrecorded, hlacks⟩ := exists_lacks (Outline.valid_of_run hrun (hs.valid timeStr))
  have hstart : (history timeStr).Kept [] s := by
    intro index thread hat
    rw [hs.threads thread (List.mem_of_getElem? hat)]
    show Kept [] (s.shared.callsOf index ++ [])
    rw [Output.callsOf, hs.lines]
    exact ⟨.refl _, rfl⟩
  have hkept : (history timeStr).Kept events t := History.kept_of_run hrun hstart
  exact ⟨hlacks, hrecorded.times, hrecorded.forwarded, fun index place hat ↦ hkept index _ hat⟩

/-- Two threads outside the methods, and the level `debug`. -/
def twoThreads : State Place Output LogLevel :=
  ⟨[.runs .outside, .runs .outside], none, ⟨fun _ ↦ [], 0, []⟩, .debug⟩

/-- `lines_whole` while the first thread has written two pieces of an error and the second is about
to lock the mutex for a line to the other stream. -/
theorem lines_whole_in_line : ∃ t : State Place Output LogLevel,
    t.threads = [.runs (.insert .cerr ["(Core) Stopped", "\n"]),
      .runs (.lockGuard ⟨[], .info, "Started"⟩ "Started")] ∧
    (∃ stream pieces, t.shared.Lacks stream pieces ∧ (pieces = [] ∨
      ∃ earlier line, t.shared.lines = earlier ++ [line] ∧ t.holder = some line.index ∧
        line.call.method.stream = stream ∧ pieces <:+ line.pieces)) ∧
    Kept [⟨[], .info, "Started"⟩] (t.shared.callsOf 1 ++ [⟨[], .info, "Started"⟩]) := by
  obtain ⟨t, hsteps, hthreads⟩ : ∃ t, [.choose 0 (some ⟨[⟨"Core", none⟩], .error, "Stopped"⟩),
      .choose 0 none, .choose 1 (some ⟨[], .info, "Started"⟩), .choose 1 none, .step 0, .step 0,
      .step 0, .step 0].foldlM (step (code fun _ ↦ "2023-10-08T07:07:09Z")) twoThreads = some t ∧
      t.threads = [.runs (.insert .cerr ["(Core) Stopped", "\n"]),
        .runs (.lockGuard ⟨[], .info, "Started"⟩ "Started")] := ⟨_, rfl, rfl⟩
  have hstarted : Started twoThreads :=
    ⟨rfl, fun _ ↦ rfl, rfl, rfl, by simp [twoThreads]⟩
  obtain ⟨hlacks, -, -, hkept⟩ := lines_whole hstarted (Run.of_foldlM hsteps)
  exact ⟨t, hthreads, hlacks,
    hkept 1 (.lockGuard ⟨[], .info, "Started"⟩ "Started") (by rw [hthreads]; rfl)⟩

end Logging

end Kapua
