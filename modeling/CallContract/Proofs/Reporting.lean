import CallContract.Proofs.Shown
import CallContract.Compiler
import CallContract.Validator
import Mathlib.Data.List.Basic
import Mathlib.Data.List.Forall2

/-!
# Reporting

A validation hands its sink one event at most. It does so behind the checks, so that neither the
nested validations of a hybrid one nor a sink that fails add to it (`Validator.run_run`). Along a
run of validations that share a sink the events therefore follow the outcomes: one event for every
validation that accepts or ends with an error of the library, and none for another
(`Call.calls_reported_once`).
-/

namespace CallContract

namespace Session

def observing (σ : Session) (seen : List Observation) : Session :=
  { σ with trace := σ.trace ++ seen }

/-- `σ` after `seen` has been observed; another span may be current then. -/
def Continues (σ : Session) (seen : List Observation) (τ : Session) : Prop :=
  ∃ inSpan, τ = { σ.observing seen with inSpan }

theorem observing_nil (σ : Session) : σ.observing [] = σ := by
  rw [observing, List.append_nil]

theorem observing_observing (σ : Session) (seen seen' : List Observation) :
    (σ.observing seen).observing seen' = σ.observing (seen ++ seen') := by
  simp [observing]

theorem sinkTo_congr {σ τ : Session} (h : τ.composites = σ.composites) (depth : Nat)
    (sink : Option SinkHandle) : τ.sinkTo depth sink = σ.sinkTo depth sink := by
  induction depth generalizing sink with
  | zero => cases sink <;> simp only [sinkTo]
  | succ depth ih =>
    cases sink with
    | none => simp only [sinkTo]
    | some sink =>
      have members : τ.sinkTo depth = σ.sinkTo depth := funext ih
      simp only [sinkTo, h, members]

namespace Continues
variable {σ τ υ : Session} {seen seen' : List Observation}

theorem refl (σ : Session) : σ.Continues [] σ :=
  ⟨σ.inSpan, by rw [σ.observing_nil]⟩

theorem trans (h : σ.Continues seen τ) (h' : τ.Continues seen' υ) :
    σ.Continues (seen ++ seen') υ := by
  obtain ⟨b, rfl⟩ := h
  obtain ⟨c, rfl⟩ := h'
  exact ⟨c, by simp [observing]⟩

theorem observing (σ : Session) (seen : List Observation) : σ.Continues seen (σ.observing seen) :=
  ⟨σ.inSpan, rfl⟩

theorem trace_eq (h : σ.Continues seen τ) : τ.trace = σ.trace ++ seen := by
  obtain ⟨b, rfl⟩ := h
  rfl

theorem sinkOf_eq (h : σ.Continues seen τ) (sink : Option SinkHandle) :
    τ.sinkOf sink = σ.sinkOf sink := by
  obtain ⟨b, rfl⟩ := h
  rw [sinkOf, sinkOf]
  exact sinkTo_congr (by rfl) σ.sinksMade sink

end Continues

end Session

namespace Action

variable {α β : Type}

theorem bind_run (x : Action α) (k : α → Action β) (σ : Session) :
    (x >>= k).run.run σ =
      match x.run.run σ with
      | (.ok a, τ) => (k a).run.run τ
      | (.error f, τ) => (.error f, τ) := by
  simp only [ExceptT.run_bind, StateT.run_bind]
  obtain ⟨outcome, τ⟩ := x.run.run σ
  cases outcome <;> rfl

theorem bind_of_ok {x : Action α} {k : α → Action β} {σ τ : Session} {a : α}
    (h : x.run.run σ = (.ok a, τ)) : (x >>= k).run.run σ = (k a).run.run τ := by
  rw [bind_run, h]

theorem bind_of_error {x : Action α} {k : α → Action β} {σ τ : Session} {f : Failure}
    (h : x.run.run σ = (.error f, τ)) : (x >>= k).run.run σ = (.error f, τ) := by
  rw [bind_run, h]

theorem ok_or_error (x : Action α) (σ : Session) :
    (∃ a τ, x.run.run σ = (.ok a, τ)) ∨ ∃ f τ, x.run.run σ = (.error f, τ) := by
  obtain ⟨outcome, τ⟩ := x.run.run σ
  cases outcome with
  | ok a => exact .inl ⟨a, τ, rfl⟩
  | error f => exact .inr ⟨f, τ, rfl⟩

theorem tryCatch_run (x : Action α) (caught : Failure → Action α) (σ : Session) :
    (tryCatch x caught).run.run σ =
      match x.run.run σ with
      | (.ok a, τ) => (.ok a, τ)
      | (.error f, τ) => (caught f).run.run τ := by
  simp only [tryCatch, tryCatchThe, MonadExceptOf.tryCatch, ExceptT.tryCatch, ExceptT.run_mk,
    StateT.run_bind]
  show (StateT.run x σ >>= _) = match StateT.run x σ with | (.ok a, τ) => _ | (.error f, τ) => _
  obtain ⟨outcome, τ⟩ := StateT.run x σ
  cases outcome <;> rfl

theorem record_run (sink : Option SinkHandle) (e : Event) (σ : Session) :
    (record sink e).run.run σ =
      (match ((σ.sinkOf sink).record σ.inSpan e).2 with | some f => .error f | none => .ok (),
        σ.observing ((σ.sinkOf sink).record σ.inSpan e).1) := by
  have hrun : (record sink e).run.run σ =
      (match ((σ.sinkOf sink).record σ.inSpan e).2 with
        | some f => (throw f : Action Unit)
        | none => return ()).run.run (σ.observing ((σ.sinkOf sink).record σ.inSpan e).1) := rfl
  rw [hrun]
  cases ((σ.sinkOf sink).record σ.inSpan e).2 <;> rfl

/-- Runs actions one after the other, also behind one that fails. -/
def attemptAll : List (Action α) → Session → List (Except Failure α) × Session
  | [], σ => ([], σ)
  | x :: xs, σ =>
    let (outcome, τ) := x.run.run σ
    let (outcomes, υ) := attemptAll xs τ
    (outcome :: outcomes, υ)

theorem attemptAll_cons {x : Action α} {xs : List (Action α)} {σ τ υ : Session}
    {outcome : Except Failure α} {outcomes : List (Except Failure α)}
    (hx : x.run.run σ = (outcome, τ)) (hxs : attemptAll xs τ = (outcomes, υ)) :
    attemptAll (x :: xs) σ = (outcome :: outcomes, υ) := by
  simp only [attemptAll, hx, hxs]

/-- From what each action does in the sessions `P`, and does not leave them, to what a run does. -/
theorem attemptAll_of_steps {κ : Type} (P : Session → Prop) {act : κ → Action α}
    {outcome : κ → Except Failure α} (seen : κ → List Observation) {cs : List κ}
    (step : ∀ c ∈ cs, ∀ σ, P σ → ∃ τ, (act c).run.run σ = (outcome c, τ) ∧
      σ.Continues (seen c) τ ∧ P τ) {σ : Session} (hσ : P σ) :
    ∃ τ, attemptAll (cs.map act) σ = (cs.map outcome, τ) ∧ σ.Continues (cs.flatMap seen) τ := by
  induction cs generalizing σ with
  | nil => exact ⟨σ, rfl, .refl σ⟩
  | cons c cs ih =>
    obtain ⟨τ, hc, hseen, hτ⟩ := step c (by simp) σ hσ
    obtain ⟨υ, hcs, hrest⟩ := ih (fun c hc => step c (by simp [hc])) hτ
    refine ⟨υ, attemptAll_cons hc hcs, ?_⟩
    rw [List.flatMap_cons]
    exact hseen.trans hrest

end Action

/-- An event on its way to a sink, and whether there is a current span that records. -/
structure Report where
  event : Event
  inSpan : Bool

namespace Sink

/-- The warning that the sink has failed on a report, if it has. -/
def warnings (t : Sink) (r : Report) : List Observation :=
  ((t.record r.inSpan r.event).2.map fun f =>
    Observation.logged Logger.validator .warning (Validator.failureWarning t f)).toList

/-- What stays of a report when the failure of the sink, if it fails, is caught and logged. -/
def footprint (t : Sink) (r : Report) : List Observation :=
  (t.record r.inSpan r.event).1 ++ t.warnings r

end Sink

def Session.footprint (σ : Session) (sink : Option SinkHandle) (e : Event) : List Observation :=
  match sink with
  | none => []
  | some sink => (σ.sinkOf (some sink)).footprint ⟨e, σ.inSpan⟩

theorem Session.observing_footprint (σ : Session) (seen : List Observation)
    (sink : Option SinkHandle) : (σ.observing seen).footprint sink = σ.footprint sink := by
  funext e
  cases sink with
  | none => rfl
  | some sink =>
    simp only [footprint, (Continues.observing σ seen).sinkOf_eq]
    rfl

/-- A validation that ends so stays within the library: it accepts, or its error is one of the
library. -/
def withinFamily {α : Type} : Except Failure α → Bool
  | .ok _ | .error (.contract _) => true
  | .error _ => false

namespace Event

def ofOutcome? (contract : Value) (convention : Convention) : Except Failure Unit → Option Event
  | .ok () => some (.accepted contract convention)
  | .error (.contract e) => some (.refused contract convention e)
  | .error _ => none

/-- The event says of a validation against the contract `contract` how it ended. -/
structure Tells (e : Event) (contract : Value) (outcome : Except Failure Unit) : Prop where
  contract_eq : e.contract = contract
  passed_iff : e.passed = true ↔ outcome = .ok ()
  refused : ∀ x, outcome = .error (.contract x) → e.kind = some x.kind ∧ e.message = x.message

theorem ofOutcome?_eq_some (contract : Value) (convention : Convention)
    {outcome : Except Failure Unit} (h : withinFamily outcome = true) :
    ∃ e, ofOutcome? contract convention outcome = some e ∧ e.convention = convention ∧
      e.Tells contract outcome := by
  cases outcome with
  | ok => exact ⟨_, rfl, rfl, rfl, ⟨fun _ => rfl, fun _ => rfl⟩, nofun⟩
  | error f =>
    cases f with
    | contract x =>
      refine ⟨_, rfl, rfl, rfl, ⟨nofun, nofun⟩, fun y hy => ?_⟩
      cases hy
      exact ⟨rfl, rfl⟩
    | _ => cases h

theorem ofOutcome?_eq_none (contract : Value) (convention : Convention)
    {outcome : Except Failure Unit} (h : withinFamily outcome = false) :
    ofOutcome? contract convention outcome = none := by
  cases outcome with
  | ok => cases h
  | error f => cases f <;> first | rfl | cases h

end Event

namespace Validator

theorem report_run (v : Validator) (e : Event) (σ : Session) :
    (v.report e).run.run σ = (.ok (), σ.observing (σ.footprint v.sink e)) := by
  unfold report Session.footprint
  cases v.sink with
  | none =>
    simp only [σ.observing_nil]
    rfl
  | some sink =>
    simp only [Action.tryCatch_run, Action.record_run, Sink.footprint, Sink.warnings]
    cases ((σ.sinkOf (some sink)).record σ.inSpan e).2 with
    | none => simp
    | some f =>
      -- the warning names the sink that stands behind the handle afterwards
      have same := (Session.Continues.observing σ
        ((σ.sinkOf (some sink)).record σ.inSpan e).1).sinkOf_eq (some sink)
      show (Except.ok (), ((σ.observing _).observing
        [.logged Logger.validator .warning
          (failureWarning ((σ.observing _).sinkOf (some sink)) f)])) = _
      rw [same, σ.observing_observing]
      rfl

/-- A validation ends as its checks do, and reports that to its sink once. -/
theorem run_run (v : Validator) (c : Convention) (p : Value) (σ : Session) :
    (v.run c p).run.run σ = (v.schema.validate c p,
      σ.observing ((Event.ofOutcome? v.name c (v.schema.validate c p)).toList.flatMap
        (σ.footprint v.sink))) := by
  unfold run
  cases v.schema.validate c p with
  | ok => simpa [Event.ofOutcome?] using report_run v _ σ
  | error f =>
    cases f with
    | contract e =>
      simp only [Action.bind_run, report_run, Event.ofOutcome?, Option.toList_some,
        List.flatMap_singleton]
      rfl
    | _ =>
      simp only [Event.ofOutcome?, Option.toList_none, List.flatMap_nil, σ.observing_nil]
      rfl

end Validator

/-- How a validator is asked: under a convention, or under the one that a value is or names. -/
inductive Entry where
  | under (convention : Convention)
  | dispatch (convention : Value)

/-- A validation that is asked for, with a current span that records or without. -/
structure Call where
  schema : Schema
  entry : Entry
  arguments : Value
  inSpan : Bool

namespace Call

def run (c : Call) (sink : Option SinkHandle) : Action Unit := do
  modify ({ · with inSpan := c.inSpan })
  let v : Validator := { schema := c.schema, sink }
  match c.entry with
  | .under convention => v.run convention c.arguments
  | .dispatch convention => v.dispatch convention c.arguments

def convention (c : Call) : Except Failure Convention :=
  match c.entry with
  | .under convention => .ok convention
  | .dispatch convention => Convention.ofValue convention

def outcome (c : Call) : Except Failure Unit :=
  c.convention >>= fun convention => c.schema.validate convention c.arguments

def event? (c : Call) : Option Event :=
  match c.convention with
  | .ok convention => Event.ofOutcome? c.schema.name convention c.outcome
  | .error _ => none

def report? (c : Call) : Option Report :=
  c.event?.map fun event => { event, inSpan := c.inSpan }

def reports (calls : List Call) : List Report := calls.filterMap report?

theorem run_eq (c : Call) (sink : Option SinkHandle) : c.run sink = (do
    modify ({ · with inSpan := c.inSpan })
    Validator.run { schema := c.schema, sink } (← c.convention) c.arguments) := by
  unfold run convention
  cases c.entry <;> rfl

theorem run_run (c : Call) (sink : Option SinkHandle) (σ : Session) :
    (c.run sink).run.run σ = (c.outcome, { σ with inSpan := c.inSpan }.observing
      (c.event?.toList.flatMap ({ σ with inSpan := c.inSpan }.footprint sink))) := by
  rw [run_eq, event?, outcome]
  cases c.convention with
  | ok convention => exact Validator.run_run _ convention c.arguments _
  | error f =>
    -- nothing is validated under what names no convention
    simp only [Option.toList_none, List.flatMap_nil, Session.observing_nil]
    rfl

theorem step (c : Call) (sink : SinkHandle) (σ : Session) :
    ∃ τ, (c.run (some sink)).run.run σ = (c.outcome, τ) ∧
      σ.Continues (c.report?.toList.flatMap (σ.sinkOf (some sink)).footprint) τ := by
  have same : ({ σ with inSpan := c.inSpan } : Session).sinkOf (some sink) =
      σ.sinkOf (some sink) := Session.sinkTo_congr (by rfl) σ.sinksMade (some sink)
  refine ⟨_, c.run_run (some sink) σ, c.inSpan, ?_⟩
  rw [report?]
  cases c.event? with
  | none => rfl
  | some e =>
    simp only [Option.toList_some, Option.map_some, List.flatMap_singleton, Session.footprint, same]
    rfl

theorem attemptAll_run (sink : SinkHandle) (calls : List Call) (σ : Session) :
    ∃ τ, Action.attemptAll (calls.map fun c => c.run (some sink)) σ = (calls.map outcome, τ) ∧
      σ.Continues ((reports calls).flatMap (σ.sinkOf (some sink)).footprint) τ := by
  have each : ∀ c ∈ calls, ∀ τ, (∃ seen, σ.Continues seen τ) →
      ∃ υ, (c.run (some sink)).run.run τ = (c.outcome, υ) ∧
        τ.Continues (c.report?.toList.flatMap (σ.sinkOf (some sink)).footprint) υ ∧
        ∃ seen, σ.Continues seen υ := by
    rintro c - τ ⟨seen, hseen⟩
    obtain ⟨υ, hc, hυ⟩ := c.step sink τ
    rw [hseen.sinkOf_eq] at hυ
    exact ⟨υ, hc, hυ, _, hseen.trans hυ⟩
  obtain ⟨τ, hrun, hτ⟩ := Action.attemptAll_of_steps _ _ each ⟨[], .refl σ⟩
  refine ⟨τ, hrun, ?_⟩
  rwa [reports, List.filterMap_eq_flatMap_toList, List.flatMap_assoc]

theorem withinFamily_of_no_convention {c : Call} {f : Failure} (h : c.convention = .error f) :
    withinFamily c.outcome = false := by
  rw [outcome, h]
  unfold convention at h
  cases hentry : c.entry with
  | under convention =>
    rw [hentry] at h
    cases h
  | dispatch v =>
    simp only [hentry, Convention.ofValue] at h
    split at h
    · cases h
    · rcases bind_eq_error.1 h with h | ⟨_, -, h⟩
      · obtain ⟨text, rfl⟩ := Value.literal_error h
        rfl
      · cases h
        rfl

/-- A validation is reported exactly if it stays within the library. -/
theorem report?_cases (c : Call) :
    (withinFamily c.outcome = true ∧ ∃ r, c.report? = some r ∧ r.inSpan = c.inSpan ∧
      c.convention = .ok r.event.convention ∧ r.event.Tells c.schema.name c.outcome) ∨
    (withinFamily c.outcome = false ∧ c.report? = none) := by
  cases hc : c.convention with
  | ok convention =>
    cases hw : withinFamily c.outcome with
    | true =>
      obtain ⟨e, he, rfl, tells⟩ := Event.ofOutcome?_eq_some c.schema.name convention hw
      exact .inl ⟨rfl, ⟨e, c.inSpan⟩, by simp only [report?, event?, hc, he, Option.map_some],
        rfl, rfl, tells⟩
    | false =>
      refine .inr ⟨rfl, ?_⟩
      rw [report?, event?, hc]
      simp only [Event.ofOutcome?_eq_none _ _ hw, Option.map_none]
  | error f =>
    refine .inr ⟨withinFamily_of_no_convention hc, ?_⟩
    rw [report?, event?, hc]
    rfl

/-- Validations that share a sink report to it one by one, in their order: one event for each that
accepts or ends with an error of the library, none for another. -/
theorem calls_reported_once (sink : SinkHandle) (calls : List Call) (σ : Session) :
    ∃ outcomes τ, Action.attemptAll (calls.map fun c => c.run (some sink)) σ = (outcomes, τ) ∧
      outcomes.length = calls.length ∧ ∃ told : List Report,
        List.Forall₂ (fun x r => r.inSpan = x.1.inSpan ∧ x.1.convention = .ok r.event.convention ∧
            r.event.Tells x.1.schema.name x.2)
          ((calls.zip outcomes).filter fun x => withinFamily x.2) told ∧
        σ.Continues (told.flatMap (σ.sinkOf (some sink)).footprint) τ ∧
        ∀ name, σ.sinkOf (some sink) = .outlet (.recording name) →
          τ.trace = σ.trace ++ told.map fun r => .received name r.event := by
  obtain ⟨τ, hrun, hτ⟩ := attemptAll_run sink calls σ
  refine ⟨_, τ, hrun, by simp, reports calls, ?_, hτ, fun name hname => ?_⟩
  · clear hrun hτ
    induction calls with
    | nil => exact .nil
    | cons c calls ih =>
      rcases c.report?_cases with ⟨hw, r, hr, tells⟩ | ⟨hw, hr⟩
      · simp only [List.map_cons, List.zip_cons_cons, List.filter_cons, hw, reports,
          List.filterMap_cons, hr]
        exact .cons tells ih
      · simp only [List.map_cons, List.zip_cons_cons, List.filter_cons, hw, reports,
          List.filterMap_cons, hr]
        exact ih
  · rw [hτ.trace_eq, hname, List.map_eq_flatMap]
    rfl

/-- One validation that accepts, one that ends outside of the library, one that refuses under the
label of a nested schema, and one under no convention. -/
def mixed (s : Schema) : List Call :=
  [⟨s, .under .positional, .list [.str "x"], false⟩,
    ⟨s, .dispatch (.str "positional"), .list [.creature 0 .mute "x"], true⟩,
    ⟨s, .dispatch (.convention .hybrid), .list [.str "x", .record []], true⟩,
    ⟨s, .dispatch (.str "keyword"), .list [], false⟩]

theorem calls_reported_once_of_mixed : ∃ s,
    Compiler.compile (.record [("a", .str "string"), ("o", .record [("k", .str "!number")])])
      (.str "F") = .ok s ∧
    ∃ τ accepted refused, (Action.attemptAll
      ((mixed s).map fun c => c.run (some ⟨0, some (.recording "R")⟩)) .fresh).2 = τ ∧
      τ.trace = [.received "R" accepted, .received "R" refused] ∧
      accepted.passed = true ∧ accepted.convention = .positional ∧
      refused.passed = false ∧ refused.convention = .hybrid ∧ refused.contract = .str "F" ∧
      refused.kind = some "MissingRequiredError" := by
  obtain ⟨s, hs⟩ : ∃ s, Compiler.compile (.record [("a", .str "string"),
      ("o", .record [("k", .str "!number")])]) (.str "F") = .ok s := ⟨_, rfl⟩
  obtain ⟨outcomes, τ, hrun, -, told, htold, -, htrace⟩ :=
    calls_reported_once ⟨0, some (.recording "R")⟩ (mixed s) .fresh
  cases hs
  obtain ⟨message, rfl⟩ : ∃ message, outcomes = [.ok (), .error (.unprintable "mute: x"),
      .error (.violation (.str "F destructured arg #1") message (.missing [.str "k"])),
      .error (.notAConvention "'keyword'")] := ⟨_, (congrArg Prod.fst hrun).symm⟩
  change List.Forall₂ _ [(_, Except.ok ()), (_, Except.error _)] told at htold
  cases htold with | cons hfirst htold =>
  cases htold with | cons hsecond htold =>
  cases htold
  obtain ⟨-, hpositional, -, hpassed, -⟩ := hfirst
  obtain ⟨-, hhybrid, hcontract, hfailed, hrefused⟩ := hsecond
  refine ⟨_, rfl, τ, _, _, congrArg Prod.snd hrun, htrace "R" rfl, hpassed.2 rfl,
    (Except.ok.inj hpositional).symm, ?_, (Except.ok.inj hhybrid).symm, hcontract,
    (hrefused _ rfl).1⟩
  exact Bool.eq_false_iff.2 fun h => nomatch hfailed.1 h

end Call

end CallContract
