import CallContract.Event
import CallContract.Value.Literal

/-!
# Sinks

A sink receives events. An outlet does something with an event itself, a composite hands it on to
its members in their order. A sink can fail on an event, and one that is absent always does; a
composite then fails with it and leaves out the members behind.
-/

namespace CallContract

inductive Outlet where
  /-- Keeps every event. -/
  | recording (name : String)
  /-- Fails on every event. -/
  | exploding (message : String)
  /-- Logs refusals at `level` and acceptances for debugging. -/
  | logging (logger : String) (level : Value)
  /-- Counts events, and marks refusals in the current span. -/
  | telemetry (service : String)

inductive Sink where
  | outlet (o : Outlet)
  | composite (members : List Sink)
  /-- No sink, in a place for one. -/
  | absent

/-- The outcome of handing an event to a sink: what it left behind, and the failure with which it
ended, if it did. -/
abbrev Receipt := List Observation × Option Failure

namespace Outlet

def className : Outlet → String
  | .recording _ => "RecordingSink"
  | .exploding _ => "ExplodingSink"
  | .logging _ _ => "LoggingSink"
  | .telemetry _ => "TelemetrySink"

/-- The level that a value stands for. -/
def level? : Value → Option Level
  | .int n | .count n => some (.number n)
  | .bool b => some (.flag b)
  | _ => none

/-- Records at levels from 1 up are kept, others dropped. -/
def logAt (logger : String) (level : Level) (text : String) : List Observation :=
  if 1 ≤ level.rank then [.logged (Logger.shownName logger) level text] else []

def logEvent (logger : String) (level : Value) (e : Event) : Receipt :=
  match e.contract.display with
  | .error f => ([], some f)
  | .ok label =>
    if e.passed then
      (logAt logger .debug (label ++ ": " ++ e.convention.name ++ " arguments accepted"), none)
    else
      match level? level with
      | none => ([], some .levelNotInteger)
      | some level =>
        (logAt logger level (e.kind.getD "None" ++ " in " ++ label ++ " (" ++ e.convention.name ++
          " convention): " ++ e.message), none)

def validationCounter : String := "argument_validations_total"

def violationCounter : String := "argument_violations_total"

/-- What the making of a telemetry outlet leaves behind. -/
def telemetrySetup (service : String) : List Observation :=
  [.counterCreated service validationCounter "1" "Total number of argument contract validations",
    .counterCreated service violationCounter "1" "Total number of argument contract violations",
    .logged Logger.telemetry .info ("TelemetrySink initialized for " ++ service)]

/-- Counts an event as a validation and a refusal as a violation of its kind, too. -/
def countEvent (service : String) (inSpan : Bool) (e : Event) : List Observation :=
  let base : Attributes :=
    { service, contract := e.contract, convention := e.convention, errorType := none,
      errorMessage := none }
  let validation := Observation.counted validationCounter 1 base
  if e.passed then [validation]
  else
    let kind := match e.kind with
      | some k => if k.isEmpty then "unknown" else k
      | none => "unknown"
    let refused := { base with errorType := some kind }
    [validation, .counted violationCounter 1 refused] ++
      if inSpan then
        [.spanEvent "argument_contract_violation" { refused with errorMessage := some e.message }]
      else []

/-- Hands an event to an outlet. `inSpan` says whether there is a current span that records. -/
def record (o : Outlet) (inSpan : Bool) (e : Event) : Receipt :=
  match o with
  | .recording name => ([.received name e], none)
  | .exploding message => ([], some (.sinkDown message))
  | .logging logger level => logEvent logger level e
  | .telemetry service => (countEvent service inSpan e, none)

end Outlet

namespace Sink

def className : Sink → String
  | .outlet o => o.className
  | .composite _ => "CompositeSink"
  | .absent => Value.null.typeName

mutual

def record (inSpan : Bool) (e : Event) : Sink → Receipt
  | .outlet o => o.record inSpan e
  | .composite members => recordAll inSpan e members
  | .absent => ([], some .absentSink)

def recordAll (inSpan : Bool) (e : Event) : List Sink → Receipt
  | [] => ([], none)
  | s :: rest =>
    match s.record inSpan e with
    | (seen, some f) => (seen, some f)
    | (seen, none) =>
      let (seenByRest, failure) := recordAll inSpan e rest
      (seen ++ seenByRest, failure)

end

mutual

/-- The outlets of a sink, in the order in which they receive an event. -/
def outlets : Sink → List Outlet
  | .outlet o => [o]
  | .composite members => outletsOfAll members
  | .absent => []

def outletsOfAll : List Sink → List Outlet
  | [] => []
  | s :: rest => s.outlets ++ outletsOfAll rest

end

end Sink

end CallContract
