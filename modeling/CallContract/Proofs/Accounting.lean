import CallContract.Proofs.Reporting

/-!
# Telemetry accounting

A telemetry outlet adds to two counters and marks refusals in the current span. What it has been
told of validations that ended is in balance (`Balances`): one validation for each that stayed within
the library, one violation of its kind for each that was refused, under the name of the contract
that was asked for and not of one nested in it. A single call is in balance (`Call.balances`), and
balances add up along a run (`Balances.append`, `Call.telemetry_balances`).
-/

namespace CallContract

/-- The sum of `f` along a list. -/
def sumOver {α : Type} (f : α → Nat) : List α → Nat
  | [] => 0
  | a :: l => f a + sumOver f l

theorem sumOver_append {α : Type} (f : α → Nat) (l l' : List α) :
    sumOver f (l ++ l') = sumOver f l + sumOver f l' := by
  induction l with
  | nil => exact (Nat.zero_add _).symm
  | cons a l ih =>
    rw [List.cons_append, sumOver, sumOver, ih]
    omega

theorem sumOver_add {α : Type} (f g : α → Nat) (l : List α) :
    sumOver (fun a => f a + g a) l = sumOver f l + sumOver g l := by
  induction l with
  | nil => rfl
  | cons a l ih =>
    rw [sumOver, sumOver, sumOver, ih]
    omega

namespace ContractError

/-- The kinds that there are of errors. -/
def kinds : List String :=
  ["ArgContractError", "ConfigurationError", "ContractViolationError", "MissingRequiredError",
    "UndefinedValueError", "TypeMismatchError", "UnexpectedParameterError", "ArityError"]

theorem kind_mem_kinds (e : ContractError) : e.kind ∈ kinds := by
  cases e with
  | general | configuration => simp [kind, kinds]
  | violation contract message what => cases what <;> simp [kind, Violation.kind, kinds]

theorem kind_not_empty (e : ContractError) : e.kind.isEmpty = false := by
  have none_empty : ∀ kind ∈ kinds, kind.isEmpty = false := by decide
  exact none_empty e.kind e.kind_mem_kinds

end ContractError

namespace Observation

/-- What the observation adds to a counter under attributes of which `posted` holds. -/
def adds (counter : String) (posted : Attributes → Bool) : Observation → Nat
  | .counted name amount attributes => if name = counter ∧ posted attributes then amount else 0
  | _ => 0

def isSpanEvent : Observation → Bool
  | .spanEvent _ _ => true
  | _ => false

/-- What has been added to a counter, all in all, under attributes of which `posted` holds. -/
def total (counter : String) (posted : Attributes → Bool) (seen : List Observation) : Nat :=
  sumOver (adds counter posted) seen

theorem total_append (counter : String) (posted : Attributes → Bool)
    (seen seen' : List Observation) :
    total counter posted (seen ++ seen') =
      total counter posted seen + total counter posted seen' :=
  sumOver_append _ seen seen'

theorem total_mark (counter : String) (posted : Attributes → Bool) (inSpan : Bool) (name : String)
    (a : Attributes) :
    total counter posted (if inSpan then [.spanEvent name a] else []) = 0 := by
  cases inSpan <;> rfl

end Observation

/-- The counts of a service that belong together: those under a convention for the contracts whose
names are `named`, such as a single one. -/
structure Account where
  service : String
  named : Value → Bool
  convention : Convention

namespace Account

/-- The attributes are those of a count in the account, and speak of errors of `kind?` or of no
error. -/
def posted (t : Account) (kind? : Option String) (a : Attributes) : Bool :=
  a.service == t.service && t.named a.contract && a.convention == t.convention &&
    a.errorType == kind? && a.errorMessage.isNone

/-- The call validates against a contract and under the convention of the account. -/
def covers (t : Account) (c : Call) : Bool :=
  t.named c.schema.name &&
    match c.convention with
    | .ok convention => convention == t.convention
    | .error _ => false

end Account

/-- A validation that ends so was refused with an error of the kind `kind`. -/
def raises (kind : String) : Except Failure Unit → Bool
  | .error (.contract e) => e.kind == kind
  | _ => false

/-- A validation that ends so was refused with an error of the library. -/
def refused : Except Failure Unit → Bool
  | .error (.contract _) => true
  | _ => false

section
variable {outcome : Except Failure Unit}

theorem raises_of_outside (h : withinFamily outcome = false) (kind : String) :
    raises kind outcome = false := by
  cases outcome with
  | ok => rfl
  | error f => cases f <;> first | rfl | cases h

theorem refused_of_outside (h : withinFamily outcome = false) : refused outcome = false := by
  cases outcome with
  | ok => rfl
  | error f => cases f <;> first | rfl | cases h

end

/-- The mark that a call leaves in the current span when it is refused. -/
def Marked (service : String) (x : Call × Except Failure Unit) (o : Observation) : Prop :=
  ∃ convention e, x.1.convention = .ok convention ∧ x.2 = .error (.contract e) ∧
    o = .spanEvent "argument_contract_violation"
      { service, contract := x.1.schema.name, convention, errorType := some e.kind,
        errorMessage := some e.message }

/-- What the telemetry of `service` has been told, `seen`, is in balance with the calls and how they
ended. -/
structure Balances (service : String) (ended : List (Call × Except Failure Unit))
    (seen : List Observation) : Prop where
  validations : ∀ t : Account, t.service = service →
    Observation.total Outlet.validationCounter (t.posted none) seen =
      ended.countP fun x => t.covers x.1 && withinFamily x.2
  violations : ∀ t : Account, t.service = service → ∀ kind,
    Observation.total Outlet.violationCounter (t.posted (some kind)) seen =
      ended.countP fun x => t.covers x.1 && raises kind x.2
  untyped : ∀ amount a, .counted Outlet.validationCounter amount a ∈ seen → a.errorType = none
  marks : List.Forall₂ (Marked service) (ended.filter fun x => x.1.inSpan && refused x.2)
    (seen.filter Observation.isSpanEvent)

namespace Balances
variable {service : String} {ended ended' : List (Call × Except Failure Unit)}
  {seen seen' : List Observation}

theorem nil (service : String) : Balances service [] [] :=
  ⟨fun _ _ => rfl, fun _ _ _ => rfl, nofun, .nil⟩

theorem append (h : Balances service ended seen) (h' : Balances service ended' seen') :
    Balances service (ended ++ ended') (seen ++ seen') where
  validations t ht := by
    rw [Observation.total_append, List.countP_append, h.validations t ht, h'.validations t ht]
  violations t ht kind := by
    rw [Observation.total_append, List.countP_append, h.violations t ht, h'.violations t ht]
  untyped amount a ha := by
    rcases List.mem_append.1 ha with ha | ha
    · exact h.untyped amount a ha
    · exact h'.untyped amount a ha
  marks := by
    rw [List.filter_append, List.filter_append]
    exact List.rel_append h.marks h'.marks

end Balances

namespace Outlet

/-- What is labelled alike in all that is counted of an event. -/
def base (service : String) (e : Event) : Attributes :=
  { service, contract := e.contract, convention := e.convention, errorType := none,
    errorMessage := none }

theorem countEvent_of_passed (service : String) (inSpan : Bool) {e : Event}
    (h : e.passed = true) :
    countEvent service inSpan e = [.counted validationCounter 1 (base service e)] := by
  simp only [countEvent, h, if_true]
  rfl

theorem countEvent_of_refused (service : String) (inSpan : Bool) {e : Event} {kind : String}
    (h : e.passed = false) (hkind : e.kind = some kind) (hne : kind.isEmpty = false) :
    countEvent service inSpan e =
      [.counted validationCounter 1 (base service e),
        .counted violationCounter 1 { base service e with errorType := some kind }] ++
      if inSpan then
        [.spanEvent "argument_contract_violation"
          { base service e with errorType := some kind, errorMessage := some e.message }]
      else [] := by
  simp only [countEvent, h, hkind, hne, Bool.false_eq_true, if_false]
  rfl

end Outlet

namespace Account

theorem covers_eq {c : Call} {convention : Convention} (h : c.convention = .ok convention)
    (t : Account) : t.covers c = (t.named c.schema.name && convention == t.convention) := by
  rw [covers, h]

theorem posted_base (t : Account) (e : Event) :
    t.posted none (Outlet.base t.service e) =
      (t.named e.contract && e.convention == t.convention) := by
  simp [posted, Outlet.base]

theorem posted_refused (t : Account) (e : Event) (kind kind' : String) :
    t.posted (some kind) { Outlet.base t.service e with errorType := some kind' } =
      ((t.named e.contract && e.convention == t.convention) && kind' == kind) := by
  simp [posted, Outlet.base]

end Account

namespace Balances
variable {service : String} {c : Call} {e : Event}

theorem of_accepted (hconvention : c.convention = .ok e.convention)
    (hcontract : e.contract = c.schema.name) (hpassed : e.passed = true) :
    Balances service [(c, .ok ())] (Outlet.countEvent service c.inSpan e) := by
  have covers := Account.covers_eq hconvention
  rw [Outlet.countEvent_of_passed service c.inSpan hpassed]
  refine ⟨?_, ?_, ?_, ?_⟩
  · rintro t rfl
    simp [Observation.total, sumOver, Observation.adds, Account.posted_base, covers, hcontract,
      withinFamily]
  · rintro t rfl kind
    simp [Observation.total, sumOver, Observation.adds, Outlet.validationCounter, Outlet.violationCounter,
      raises]
  · intro amount a ha
    cases List.mem_singleton.1 ha
    rfl
  · simp [refused, Observation.isSpanEvent]

theorem of_refused {x : ContractError} (hconvention : c.convention = .ok e.convention)
    (hcontract : e.contract = c.schema.name) (hpassed : e.passed = false)
    (hkind : e.kind = some x.kind) (hmessage : e.message = x.message) :
    Balances service [(c, .error (.contract x))] (Outlet.countEvent service c.inSpan e) := by
  have covers := Account.covers_eq hconvention
  rw [Outlet.countEvent_of_refused service c.inSpan hpassed hkind x.kind_not_empty, hmessage]
  refine ⟨?_, ?_, ?_, ?_⟩
  · rintro t rfl
    rw [Observation.total_append, Observation.total_mark]
    simp [Observation.total, sumOver, Observation.adds, Account.posted_base, covers, hcontract,
      Outlet.validationCounter, Outlet.violationCounter, withinFamily]
  · rintro t rfl kind
    rw [Observation.total_append, Observation.total_mark]
    simp [Observation.total, sumOver, Observation.adds, Account.posted_refused, covers, hcontract,
      Outlet.validationCounter, Outlet.violationCounter, raises]
  · intro amount a ha
    have first : .counted Outlet.validationCounter amount a =
        Observation.counted Outlet.validationCounter 1 (Outlet.base service e) := by
      cases hspan : c.inSpan <;>
        simpa [hspan, Outlet.validationCounter, Outlet.violationCounter] using ha
    cases first
    rfl
  · have marked : Marked service (c, .error (.contract x)) (.spanEvent
        "argument_contract_violation" { Outlet.base service e with
          errorType := some x.kind, errorMessage := some x.message }) :=
      ⟨e.convention, x, hconvention, rfl, by rw [← hcontract]; rfl⟩
    rw [List.filter_cons]
    cases c.inSpan with
    | false => exact .nil
    | true => exact .cons marked .nil

theorem of_outside {outcome : Except Failure Unit} (h : withinFamily outcome = false) :
    Balances service [(c, outcome)] [] := by
  refine ⟨fun t _ => ?_, fun t _ kind => ?_, nofun, ?_⟩
  · simp [Observation.total, sumOver, h]
  · simp [Observation.total, sumOver, raises_of_outside h]
  · simp [refused_of_outside h]

end Balances

namespace Call

/-- One call is in balance with what telemetry is told of it. -/
theorem balances (service : String) (c : Call) :
    Balances service [(c, c.outcome)]
      (c.report?.toList.flatMap fun r => Outlet.countEvent service r.inSpan r.event) := by
  rcases c.report?_cases with ⟨hw, r, hr, hspan, hconvention, tells⟩ | ⟨hw, hr⟩
  · rw [hr, Option.toList_some, List.flatMap_singleton, hspan]
    cases hout : c.outcome with
    | ok => exact .of_accepted hconvention tells.contract_eq (tells.passed_iff.2 hout)
    | error f =>
      cases f with
      | contract x =>
        have hpassed : r.event.passed = false := by
          rw [← Bool.not_eq_true, tells.passed_iff, hout]
          nofun
        obtain ⟨hkind, hmessage⟩ := tells.refused x hout
        exact .of_refused hconvention tells.contract_eq hpassed hkind hmessage
      | _ =>
        rw [hout] at hw
        cases hw
  · rw [hr]
    exact .of_outside hw

theorem balances_all (service : String) (calls : List Call) :
    Balances service (calls.map fun c => (c, c.outcome)) (calls.flatMap fun c =>
      c.report?.toList.flatMap fun r => Outlet.countEvent service r.inSpan r.event) := by
  induction calls with
  | nil => exact .nil service
  | cons c calls ih => exact (c.balances service).append ih

end Call

/-- An error is of one kind, so that the violations of all kinds are the refusals. -/
theorem sum_raises (outcome : Except Failure Unit) :
    sumOver (fun kind => if raises kind outcome then 1 else 0) ContractError.kinds =
      if refused outcome then 1 else 0 := by
  cases outcome with
  | ok => rfl
  | error f =>
    cases f with
    | contract e =>
      have once : ∀ kind ∈ ContractError.kinds,
          sumOver (fun kind' => if kind == kind' then 1 else 0) ContractError.kinds = 1 := by
        decide
      exact once e.kind e.kind_mem_kinds
    | _ => rfl

theorem isOk_or_refused (outcome : Except Failure Unit) :
    (if withinFamily outcome then 1 else 0) =
      (if outcome.isOk then 1 else 0) + if refused outcome then 1 else 0 := by
  cases outcome with
  | ok => rfl
  | error f => cases f <;> rfl

theorem countP_withinFamily (covers : Call → Bool) (ended : List (Call × Except Failure Unit)) :
    (ended.countP fun x => covers x.1 && withinFamily x.2) =
      (ended.countP fun x => covers x.1 && x.2.isOk) +
        sumOver (fun kind => ended.countP fun x => covers x.1 && raises kind x.2)
          ContractError.kinds := by
  induction ended with
  | nil => rfl
  | cons x ended ih =>
    simp only [List.countP_cons, sumOver_add]
    rw [ih]
    cases covers x.1 with
    | false =>
      have nothing : sumOver (fun _ => 0) ContractError.kinds = 0 := rfl
      simp [nothing]
    | true =>
      have here := isOk_or_refused x.2
      rw [← sum_raises] at here
      simp only [Bool.true_and]
      omega

/-- The validations are the passes and the violations of all kinds. -/
theorem Balances.validations_eq {service : String} {ended : List (Call × Except Failure Unit)}
    {seen : List Observation} (h : Balances service ended seen) {t : Account}
    (ht : t.service = service) :
    Observation.total Outlet.validationCounter (t.posted none) seen =
      (ended.countP fun x => t.covers x.1 && x.2.isOk) +
        sumOver (fun kind =>
          Observation.total Outlet.violationCounter (t.posted (some kind)) seen)
          ContractError.kinds := by
  rw [h.validations t ht, countP_withinFamily]
  simp only [h.violations t ht]

namespace Call

/-- Telemetry that a run of validations reports to is in balance with it, and so, as the beginning
of a run is a run, at every point of it. -/
theorem telemetry_balances (sink : SinkHandle) (service : String) (calls : List Call) (σ : Session)
    (h : σ.sinkOf (some sink) = .outlet (.telemetry service)) :
    ∃ outcomes τ seen,
      Action.attemptAll (calls.map fun c => c.run (some sink)) σ = (outcomes, τ) ∧
      outcomes.length = calls.length ∧ τ.trace = σ.trace ++ seen ∧
      Balances service (calls.zip outcomes) seen ∧
      ∀ t : Account, t.service = service →
        Observation.total Outlet.validationCounter (t.posted none) seen =
          ((calls.zip outcomes).countP fun x => t.covers x.1 && x.2.isOk) +
            sumOver (fun kind =>
              Observation.total Outlet.violationCounter (t.posted (some kind)) seen)
              ContractError.kinds := by
  obtain ⟨τ, hrun, hτ⟩ := attemptAll_run sink calls σ
  have told : (reports calls).flatMap (σ.sinkOf (some sink)).footprint = calls.flatMap fun c =>
      c.report?.toList.flatMap fun r => Outlet.countEvent service r.inSpan r.event := by
    have one : (σ.sinkOf (some sink)).footprint =
        fun r => Outlet.countEvent service r.inSpan r.event := by
      rw [h]
      funext r
      exact List.append_nil _
    rw [reports, List.filterMap_eq_flatMap_toList, List.flatMap_assoc, one]
  have ended : calls.zip (calls.map outcome) = calls.map fun c => (c, c.outcome) := by
    simpa using List.zip_map' (f := id) (g := outcome) (l := calls)
  have balanced := balances_all service calls
  rw [← told, ← ended] at balanced
  exact ⟨_, τ, _, hrun, by simp, hτ.trace_eq, balanced, fun t ht => balanced.validations_eq ht⟩

/-- The accounts of the service `svc` for the contract `F`. -/
def accountF (convention : Convention) : Account where
  service := "svc"
  named contract := contract == .str "F"
  convention

/-- Of the calls `mixed` one is counted as accepted, and one as refused under the name of the whole
contract, though a nested schema refuses. -/
theorem telemetry_balances_of_mixed : ∃ sink σ s,
    (SinkHandle.ofOutlet (.telemetry "svc")).run.run .fresh = (.ok sink, σ) ∧
    σ.sinkOf (some sink) = .outlet (.telemetry "svc") ∧
    Compiler.compile (.record [("a", .str "string"), ("o", .record [("k", .str "!number")])])
      (.str "F") = .ok s ∧
    ∃ τ seen, (Action.attemptAll ((mixed s).map fun c => c.run (some sink)) σ).2 = τ ∧
      τ.trace = σ.trace ++ seen ∧
      Observation.total Outlet.validationCounter ((accountF .positional).posted none) seen = 1 ∧
      Observation.total Outlet.validationCounter ((accountF .hybrid).posted none) seen = 1 ∧
      Observation.total Outlet.violationCounter
        ((accountF .hybrid).posted (some "MissingRequiredError")) seen = 1 ∧
      (seen.filter Observation.isSpanEvent).length = 1 := by
  obtain ⟨sink, σ, s, hmake, hsink, hs⟩ : ∃ sink σ s,
      (SinkHandle.ofOutlet (.telemetry "svc")).run.run .fresh = (.ok sink, σ) ∧
      σ.sinkOf (some sink) = .outlet (.telemetry "svc") ∧
      Compiler.compile (.record [("a", .str "string"), ("o", .record [("k", .str "!number")])])
        (.str "F") = .ok s := ⟨_, _, _, rfl, rfl, rfl⟩
  obtain ⟨outcomes, τ, seen, hrun, -, htrace, balanced, -⟩ :=
    telemetry_balances sink "svc" (mixed s) σ hsink
  refine ⟨sink, σ, s, hmake, hsink, hs, τ, seen, congrArg Prod.snd hrun, htrace, ?_⟩
  cases hmake
  cases hs
  obtain ⟨message, rfl⟩ : ∃ message, outcomes = [.ok (), .error (.unprintable "mute: x"),
      .error (.violation (.str "F destructured arg #1") message (.missing [.str "k"])),
      .error (.notAConvention "'keyword'")] := ⟨_, (congrArg Prod.fst hrun).symm⟩
  exact ⟨balanced.validations (accountF .positional) rfl,
    balanced.validations (accountF .hybrid) rfl,
    balanced.violations (accountF .hybrid) rfl "MissingRequiredError",
    balanced.marks.length_eq.symm⟩

end Call

end CallContract
