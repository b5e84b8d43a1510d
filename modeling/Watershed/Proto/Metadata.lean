/-
  Event metadata (`metadata.rs`): event types, session identifiers and timestamps.
-/
import Mathlib.Data.List.Infix
import Mathlib.Data.Int.Order.Basic

namespace Watershed.Proto

/-! ## Event types -/

/-- The v0 normalized runtime event types. -/
inductive EventType where
  | sessionStarted | sessionPaused | sessionResumed | sessionCompleted | sessionFailed
  | flowStarted | flowCompleted | flowFailed
  | phaseEntered | phaseCompleted | phaseFailed
  | messageDelta | messageCompleted
  | toolStarted | toolProgress | toolCompleted | toolFailed | toolTimedOut
  | artifactLogged | attentionRequested | metricSample | error
  deriving DecidableEq

namespace EventType

/-- Every v0 event type in canonical protocol order. -/
def all : List EventType :=
  [.sessionStarted, .sessionPaused, .sessionResumed, .sessionCompleted, .sessionFailed,
    .flowStarted, .flowCompleted, .flowFailed, .phaseEntered, .phaseCompleted, .phaseFailed,
    .messageDelta, .messageCompleted, .toolStarted, .toolProgress, .toolCompleted, .toolFailed,
    .toolTimedOut, .artifactLogged, .attentionRequested, .metricSample, .error]

/-- Whether an event of this type belongs to one Flow and therefore requires `flow_id`. -/
def requiresFlowId : EventType → Bool
  | .flowStarted | .flowCompleted | .flowFailed | .phaseEntered | .phaseCompleted | .phaseFailed
  | .messageDelta | .messageCompleted | .toolStarted | .toolProgress | .toolCompleted
  | .toolFailed | .toolTimedOut => true
  | _ => false

/-- The stable protocol string of an event type. -/
def asStr : EventType → String
  | .sessionStarted => "session.started"
  | .sessionPaused => "session.paused"
  | .sessionResumed => "session.resumed"
  | .sessionCompleted => "session.completed"
  | .sessionFailed => "session.failed"
  | .flowStarted => "flow.started"
  | .flowCompleted => "flow.completed"
  | .flowFailed => "flow.failed"
  | .phaseEntered => "phase.entered"
  | .phaseCompleted => "phase.completed"
  | .phaseFailed => "phase.failed"
  | .messageDelta => "message.delta"
  | .messageCompleted => "message.completed"
  | .toolStarted => "tool.started"
  | .toolProgress => "tool.progress"
  | .toolCompleted => "tool.completed"
  | .toolFailed => "tool.failed"
  | .toolTimedOut => "tool.timed_out"
  | .artifactLogged => "artifact.logged"
  | .attentionRequested => "attention.requested"
  | .metricSample => "metric.sample"
  | .error => "error"

/-- The event type that a protocol string names. -/
def tryFrom (value : String) : Option EventType := all.find? fun type => type.asStr = value

theorem tryFrom_asStr (type : EventType) : tryFrom type.asStr = some type := by
  cases type <;> decide +kernel

end EventType

/-! ## Session identifiers -/

/-- Maximum UTF-8 bytes in a protocol session identifier. -/
def maxSessionIdBytes : Nat := 128

def isWindowsDosDeviceBasename (value : String) : Bool := let digit (suffix : List Char) : Bool :=
    match suffix with
    | [c] => '1' ≤ c ∧ c ≤ '9'
    | _ => false
  let named (device : String) : Bool :=
    device.toList.isPrefixOf value.toList && digit (value.toList.drop device.toList.length)
  value ∈ ["con", "prn", "aux", "nul"] || named "com" || named "lpt"

/-- Whether a value is a lowercase path-safe session id. -/
def isValidSessionId (value : String) : Bool :=
  value ≠ "" && value.utf8ByteSize ≤ maxSessionIdBytes &&
    value.toList.all (fun c => ('a' ≤ c && c ≤ 'z') || ('0' ≤ c && c ≤ '9') || c = '_' || c = '-') &&
    !isWindowsDosDeviceBasename value

/-! ## Timestamps -/

/-- `value.split_once(c)`: the text before and after the first `c`. -/
def splitOnce (c : Char) (value : List Char) : Option (List Char × List Char) :=
  match value.dropWhile (· ≠ c) with
  | [] => none
  | _ :: rest => some (value.takeWhile (· ≠ c), rest)

/-- `value.split(c)`: the parts between any two `c`. -/
def splitAt (c : Char) : List Char → List (List Char)
  | [] => [[]]
  | d :: rest =>
    if d = c then [] :: splitAt c rest
    else
      match splitAt c rest with
      | [] => [[d]]
      | part :: parts => (d :: part) :: parts

def isAsciiDigit (c : Char) : Bool := '0' ≤ c && c ≤ '9'

/-- A decimal number of exactly `len` digits. -/
def parseDigits (value : List Char) (len : Nat) : Option Nat :=
  if value.length = len ∧ value.all isAsciiDigit then some (Nat.ofDigitChars 10 value 0) else none

def isLeapYear (year : Nat) : Bool := year % 4 = 0 && (year % 100 ≠ 0 || year % 400 = 0)

def daysInMonth (year month : Nat) : Nat :=
  if month ∈ [1, 3, 5, 7, 8, 10, 12] then 31
  else if month ∈ [4, 6, 9, 11] then 30
  else if month = 2 then if isLeapYear year then 29 else 28
  else 0

def daysFromCivil (year month day : Int) : Int := let year := year - if month ≤ 2 then 1 else 0
  let era := year.fdiv 400
  let yearOfEra := year - era * 400
  let month := month + if 2 < month then -3 else 9
  let dayOfYear := (153 * month + 2) / 5 + day - 1
  let dayOfEra := yearOfEra * 365 + yearOfEra / 4 - yearOfEra / 100 + dayOfYear
  era * 146097 + dayOfEra - 719468

/-- The date part of a timestamp: year, month and day. -/
def parseDate (date : List Char) : Option (Nat × Nat × Nat) := do
  match splitAt '-' date with
  | [year, month, day] =>
    let year ← parseDigits year 4
    let month ← parseDigits month 2
    let day ← parseDigits day 2
    if 1 ≤ month ∧ month ≤ 12 ∧ day ≠ 0 ∧ day ≤ daysInMonth year month then
      some (year, month, day)
    else none
  | _ => none

/-- The time part of a timestamp: hour, minute and second; a fraction is checked and dropped. -/
def parseTime (time : List Char) : Option (Nat × Nat × Nat) := do
  match splitAt ':' time with
  | [hour, minute, secondPart] =>
    let hour ← parseDigits hour 2
    let minute ← parseDigits minute 2
    let (second, fraction) := match splitOnce '.' secondPart with
      | some (second, fraction) => (second, some fraction)
      | none => (secondPart, none)
    let second ← parseDigits second 2
    if fraction.any fun value => value.isEmpty || !value.all isAsciiDigit then none
    else if 23 < hour ∨ 59 < minute ∨ 59 < second then none
    else some (hour, minute, second)
  | _ => none

/-- Parses the protocol's canonical RFC 3339 UTC `Z` form to Unix seconds. Years have four
    digits, so no sum leaves the range of `i64`. -/
def parseRfc3339UtcTimestamp (value : String) : Option Int := do
  let value := value.toList
  if value.getLast? ≠ some 'Z' then none
  else
    let (date, time) ← splitOnce 'T' value.dropLast
    let (year, month, day) ← parseDate date
    let (hour, minute, second) ← parseTime time
    some (daysFromCivil year month day * 86400 + hour * 3600 + minute * 60 + second)

example : parseRfc3339UtcTimestamp "2026-01-01T00:00:00Z" = some 1767225600 := by decide +kernel

end Watershed.Proto
