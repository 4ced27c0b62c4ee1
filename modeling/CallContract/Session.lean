import CallContract.Environment
import CallContract.Settings
import CallContract.Sink
import CallContract.Table

/-!
# Sessions

What the calls of one session share: the environment and the loader of its files, the default
settings and the sink built from them, the members of the composite sinks, and the trace of what has
been observed.
-/

namespace CallContract

/-- A sink as those know it who hold it: by its number, and by the outlet that it is. A sink that
is no outlet is a composite, whose members the session keeps because they can grow. -/
structure SinkHandle where
  id : Nat
  outlet? : Option Outlet

structure Session where
  environment : Environment
  /-- What there is of environment files. -/
  loader : FileLoader
  /-- The default settings, once they are set or loaded. -/
  settings : Option Settings
  /-- The sink of the default settings, which may be none, once it is built. -/
  sink : Option (Option SinkHandle)
  sinksMade : Nat
  composites : Table Nat (List (Option SinkHandle))
  /-- Whether there is a current span that records. -/
  inSpan : Bool
  trace : List Observation

namespace Session

/-- A session of which nothing has been asked yet, without environment files. -/
def fresh : Session :=
  { environment := .empty, loader := fun _ _ => [], settings := none, sink := none, sinksMade := 0,
    composites := .empty, inSpan := false, trace := [] }

/-- The sink behind a handle, if there is one, down to composites nested `depth` deep. -/
def sinkTo (s : Session) : Nat → Option SinkHandle → Sink
  | _, none => .absent
  | depth, some h =>
    match h.outlet? with
    | some o => .outlet o
    | none =>
      match depth with
      | 0 => .composite []
      | depth + 1 => .composite (((s.composites.get? h.id).getD []).map (s.sinkTo depth))

/-- The sink behind a handle, if there is one. Composites that are not their own members, at any
depth, cannot be nested deeper than there are sinks. -/
def sinkOf (s : Session) (h : Option SinkHandle) : Sink := s.sinkTo s.sinksMade h

end Session

/-- A computation in a session. What it has done to the session stays done when it fails. -/
abbrev Action := ExceptT Failure (StateM Session)

namespace Action

def observe (seen : List Observation) : Action Unit :=
  modify fun s => { s with trace := s.trace ++ seen }

def log (logger : String) (level : Level) (text : String) : Action Unit :=
  observe [.logged logger level text]

/-- Sets a variable of the environment, if it can be set. -/
def setVariable (name value : String) : Action Unit := do
  match Environment.defect? name value with
  | some defect => throw (.unsettable defect)
  | none => modify fun s => { s with environment := s.environment.insert name value }

def unsetVariable (name : String) : Action Unit :=
  modify fun s => { s with environment := s.environment.erase name }

/-- Hands an event to a sink and fails as the sink does, or for want of one. -/
def record (h : Option SinkHandle) (e : Event) : Action Unit := do
  let s ← get
  let (seen, failure) := (s.sinkOf h).record s.inSpan e
  observe seen
  match failure with
  | some f => throw f
  | none => return ()

/-- The handle of a sink that takes members: only composites do. -/
def composite (h : Option SinkHandle) : Action SinkHandle := do
  match (← get).sinkOf h, h with
  | .composite _, some c => return c
  | sink, _ => throw (.notComposite sink.className)

end Action

namespace SinkHandle

def register (outlet? : Option Outlet) : Action SinkHandle :=
  modifyGet fun s => ({ id := s.sinksMade, outlet? }, { s with sinksMade := s.sinksMade + 1 })

def ofOutlet (o : Outlet) : Action SinkHandle := do
  if let .telemetry service := o then
    Action.observe (Outlet.telemetrySetup service)
  register (some o)

def ofMembers (members : List (Option SinkHandle)) : Action SinkHandle := do
  let h ← register none
  modify fun s => { s with composites := s.composites.insert h.id members }
  return h

/-- Adds a member to a composite, which every holder of the composite then sees. -/
def addMember (h : SinkHandle) (member : Option SinkHandle) : Action Unit :=
  modify fun s =>
    let members := (s.composites.get? h.id).getD []
    { s with composites := s.composites.insert h.id (members ++ [member]) }

end SinkHandle

end CallContract
