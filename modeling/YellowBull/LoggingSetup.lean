import YellowBull.Lib.JsonLine

/-!
# The log

`JsonFormatter` of `core/logging_setup.py`, and the text that a handler with it writes: one line a
record. What stands in a record comes also from outside, such as the user ids of requests, the
arguments of tool calls and the texts of exceptions. The text of the log tells all the same which
records were written (`log_lossless`): none of them can pass for two, or for another. The strings
are without lone surrogates, which Python's may have: the encoding of the stream refuses them, and
`emit` then writes no line.
-/

namespace YellowBull

open Py

/-- What `JsonFormatter.format` reads of a `LogRecord`: `message` is `getMessage()`, `session_id`
and `user_id` are the attributes that `extra` sets, and `exception` is what `formatException` makes
of an `exc_info` that has an exception. With the clock of `format` these make a record. -/
structure LogRecord where
  levelname : String
  name : String
  message : String
  session_id : Option String := none
  user_id : Option String := none
  exception : Option String := none

namespace JsonFormatter

/-- `log_entry`, at that `datetime.utcnow().isoformat()`. -/
def logEntry (record : LogRecord) (utcnow : String) : List (String × String) :=
  [("timestamp", utcnow ++ "Z"), ("level", record.levelname), ("logger", record.name),
    ("message", record.message)] ++
    ((record.session_id.map fun session_id => ("session_id", session_id)).toList ++
      ((record.user_id.map fun user_id => ("user_id", user_id)).toList ++
        (record.exception.map fun exception => ("exception", exception)).toList))

/-- `JsonFormatter.format`. -/
def format (record : LogRecord) (utcnow : String) : String := dumpsStrings (logEntry record utcnow)

end JsonFormatter

/-- The line of a record, with the clock that its `format` reads. -/
def logLine (record : LogRecord × String) : List Char :=
  (JsonFormatter.format record.1 record.2).toList

/-- The text that a handler with the formatter writes of some records: `StreamHandler.emit` puts a
line feed behind each. -/
def logText (records : List (LogRecord × String)) : List Char :=
  records.flatMap fun record => logLine record ++ ['\n']

namespace JsonFormatter

/-- The entry has each attribute of the record under its key. -/
theorem lookup_logEntry (record : LogRecord) (utcnow : String) :
    (logEntry record utcnow).lookup "timestamp" = some (utcnow ++ "Z") ∧
      (logEntry record utcnow).lookup "level" = some record.levelname ∧
      (logEntry record utcnow).lookup "logger" = some record.name ∧
      (logEntry record utcnow).lookup "message" = some record.message ∧
      (logEntry record utcnow).lookup "session_id" = record.session_id ∧
      (logEntry record utcnow).lookup "user_id" = record.user_id ∧
      (logEntry record utcnow).lookup "exception" = record.exception := by
  obtain ⟨levelname, name, message, session_id, user_id, exception⟩ := record
  -- The attributes of `extra` have a key where they are set.
  cases session_id <;> cases user_id <;> cases exception <;> simp [logEntry, List.lookup_cons]

/-- The entry tells the record and the clock. -/
theorem logEntry_inj {record record' : LogRecord} {utcnow utcnow' : String}
    (h : logEntry record utcnow = logEntry record' utcnow') :
    record = record' ∧ utcnow = utcnow' := by
  obtain ⟨htime, hlevel, hname, hmessage, hsession, huser, hexception⟩ :=
    lookup_logEntry record utcnow
  obtain ⟨htime', hlevel', hname', hmessage', hsession', huser', hexception'⟩ :=
    lookup_logEntry record' utcnow'
  -- Each attribute stands under a name of its own, or its name is missing.
  rw [h] at htime hlevel hname hmessage hsession huser hexception
  obtain ⟨levelname, name, message, session_id, user_id, exception⟩ := record
  obtain ⟨levelname', name', message', session_id', user_id', exception'⟩ := record'
  obtain rfl := Option.some.inj (hlevel.symm.trans hlevel')
  obtain rfl := Option.some.inj (hname.symm.trans hname')
  obtain rfl := Option.some.inj (hmessage.symm.trans hmessage')
  obtain rfl := hsession.symm.trans hsession'
  obtain rfl := huser.symm.trans huser'
  obtain rfl := hexception.symm.trans hexception'
  -- The time has a `Z` behind it in both entries.
  have hclock := congrArg String.toList (Option.some.inj (htime.symm.trans htime'))
  rw [String.toList_append, String.toList_append] at hclock
  exact ⟨rfl, String.toList_inj.mp (List.append_cancel_right hclock)⟩

/-- The text of a record tells the record and the time. -/
theorem format_inj {record record' : LogRecord} {utcnow utcnow' : String}
    (h : format record utcnow = format record' utcnow') : record = record' ∧ utcnow = utcnow' :=
  logEntry_inj (dumpsStrings_injective h)

end JsonFormatter

/-- The line of a record has no line feed in it. -/
theorem newline_not_mem_logLine (record : LogRecord × String) : '\n' ∉ logLine record := by
  intro hmem
  have hcontrol := noControl_dumpsStrings _ '\n' hmem
  exact absurd hcontrol (by decide)

/-- The line tells the record. -/
theorem logLine_injective : Function.Injective logLine := by
  intro record record' h
  obtain ⟨hrecord, hclock⟩ := JsonFormatter.format_inj (String.toList_inj.mp h)
  exact Prod.ext hrecord hclock

/-- The log has the line of each record, and no other. -/
theorem splitOn_logText (records : List (LogRecord × String)) :
    (logText records).splitOn '\n' = records.map logLine ++ [[]] := by
  induction records with
  | nil => rfl
  | cons record records ih =>
    have htext : logText (record :: records) = logLine record ++ '\n' :: logText records := by
      simp [logText, logLine]
    rw [htext, List.splitOn_append_cons_self_of_not_mem (newline_not_mem_logLine record), ih]
    rfl

/-- The log can be read back, whatever stands in the records: at the line feeds it splits into the
lines of its records, and it is the log of no other records. -/
theorem log_lossless (records : List (LogRecord × String)) :
    (logText records).splitOn '\n' = records.map logLine ++ [[]] ∧
      ∀ records', logText records' = logText records → records' = records := by
  refine ⟨splitOn_logText records, fun records' h => ?_⟩
  have hlines := congrArg (List.splitOn '\n') h
  rw [splitOn_logText, splitOn_logText] at hlines
  exact logLine_injective.list_map (List.append_cancel_right hlines)

/-- A user id with a quote and a line feed in it. -/
example : logLine ({ levelname := "WARNING", name := "api", message := "user=\"\n" }, "t") =
    "\x7b\"timestamp\": \"tZ\", \"level\": \"WARNING\", \"logger\": \"api\", ".toList ++
      "\"message\": \"user=\\\"\\n\"\x7d".toList := by decide

end YellowBull
