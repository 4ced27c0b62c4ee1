import CallContract.Proofs.Coherence
import CallContract.Proofs.Reporting
import CallContract.Proofs.SlotAlignment

/-!
# Guarded calls

What there is behind a guard that `enforce` returns (`Guard.Enforces`) and behind a check that
accepts (`check_eq_ok`). A call either reaches the body of the function, or it ends in one way
whatever the body does (`Guard.Unreached`); a body that is reached stands behind a check that
accepted (`letThrough_eq_ok`).
-/

namespace CallContract

namespace Action

variable {α β : Type} {x : Action α} {k : α → Action β} {σ σ' : Session}

theorem bind_eq_ok {b : β} :
    (x >>= k).run.run σ = (.ok b, σ') ↔
      ∃ a τ, x.run.run σ = (.ok a, τ) ∧ (k a).run.run τ = (.ok b, σ') := by
  simp only [ExceptT.run_bind, StateT.run_bind]
  obtain ⟨outcome, τ⟩ := x.run.run σ
  cases outcome with
  | error f => exact ⟨fun h => (by cases h), fun ⟨_, _, h, _⟩ => by cases h⟩
  | ok a => exact ⟨fun h => ⟨a, τ, rfl, h⟩, fun ⟨_, _, h, hk⟩ => by cases h; exact hk⟩

theorem lift_eq_ok {y : Except Failure α} {a : α}
    (h : (liftM y : Action α).run.run σ = (.ok a, σ')) : y = .ok a := by
  cases y with
  | error f => cases h
  | ok b => cases h; rfl

end Action

namespace Compiler

theorem compile_of_run {spec label : Value} {s : Schema} {σ σ' : Session}
    (h : (run spec label).run.run σ = (.ok s, σ')) : compile spec label = .ok s := by
  rw [← outcome_eq spec label σ, outcome, h]

end Compiler

/-- A positional contract that reports to no sink. -/
def GuardOptions.silent (spec : Value) (method : Bool) : GuardOptions :=
  { spec, label := .null, convention := .str Convention.positional.name, sink := none,
    settings := some { Settings.standard with logViolations := .bool false }, method }

namespace Guard

/-- The guard stands in front of `f` as the options say. -/
structure Enforces (g : Guard) (f : Function) (o : GuardOptions) : Prop where
  function : g.function = f
  method : g.method = o.method
  settings : g.settings = o.settings
  compiled : ∃ label, Compiler.compile o.spec label = .ok g.validator.schema
  hasPositionalLayout : g.convention ≠ .named → g.signature.hasPositionalLayout = true

theorem hasPositionalLayout_of_checkLayout {label : Value} {sig : Signature}
    (h : checkLayout label sig = .ok ()) : sig.hasPositionalLayout = true := by
  cases hlayout : sig.hasPositionalLayout with
  | true => rfl
  | false =>
    rw [checkLayout, hlayout] at h
    obtain ⟨_, -, h⟩ := bind_eq_ok.1 h
    cases h

/-- The guard for a compiled schema, with the sink that it reports to. -/
def installed (f : Function) (o : GuardOptions) (convention : Convention) (schema : Schema) :
    Action Guard := do
  let sink ← match o.sink, o.settings with
    | some h, _ => pure (some h)
    | none, some s => s.buildSink
    | none, none => Defaults.sink
  Action.log Logger.guards .debug ("Enforcing " ++ convention.name ++ " contract " ++
    (← schema.name.literal) ++ " on " ++ f.qualname)
  return { function := f, validator := { schema, sink }, convention, settings := o.settings,
           method := o.method }

theorem enforce_eq (f : Function) (o : GuardOptions) : enforce f o = (do
    let convention ← Convention.ofValue o.convention
    let schema ← Compiler.run o.spec
      (match o.label with | .null => .str f.qualname | label => label)
    if convention ≠ .named then
      checkLayout schema.name (contractSignature f o.method)
    installed f o convention schema) := rfl

theorem installed_eq_ok {f : Function} {o : GuardOptions} {convention : Convention}
    {schema : Schema} {g : Guard} {σ σ' : Session}
    (h : (installed f o convention schema).run.run σ = (.ok g, σ')) :
    ∃ sink, g = ⟨f, ⟨schema, sink⟩, convention, o.settings, o.method⟩ := by
  rw [installed] at h
  split at h <;>
    obtain ⟨sink, σ, -, h⟩ := Action.bind_eq_ok.1 h <;>
    obtain ⟨label, σ, -, h⟩ := Action.bind_eq_ok.1 h <;>
    obtain ⟨_, σ, -, h⟩ := Action.bind_eq_ok.1 h <;>
    cases h <;>
    exact ⟨sink, rfl⟩

theorem enforces_of_enforce {f : Function} {o : GuardOptions} {g : Guard} {σ σ' : Session}
    (h : (enforce f o).run.run σ = (.ok g, σ')) : g.Enforces f o := by
  rw [enforce_eq] at h
  obtain ⟨convention, σ, -, h⟩ := Action.bind_eq_ok.1 h
  obtain ⟨schema, σ, hschema, h⟩ := Action.bind_eq_ok.1 h
  have compiled := Compiler.compile_of_run hschema
  split at h
  next hc =>
    obtain ⟨_, σ, hlayout, h⟩ := Action.bind_eq_ok.1 h
    obtain ⟨sink, rfl⟩ := installed_eq_ok h
    exact ⟨rfl, rfl, rfl, ⟨_, compiled⟩,
      fun _ => hasPositionalLayout_of_checkLayout (Action.lift_eq_ok hlayout)⟩
  next hc =>
    obtain ⟨sink, rfl⟩ := installed_eq_ok h
    exact ⟨rfl, rfl, rfl, ⟨_, compiled⟩, fun hne => absurd hne hc⟩

/-- The call ends in the same way whatever the body does, and leaves the same session. -/
def Unreached (g : Guard) (args : List Value) (kw : Keywords) (σ : Session) : Prop :=
  ∃ f τ, ∀ (α : Type) (body : List (String × Value) → Action α),
    (g.call body args kw).run.run σ = (.error f, τ)

/-- The call ends as the body does, run with the arguments `bound` where the guard has left off. -/
def Reaches (g : Guard) (args : List Value) (kw : Keywords) (σ : Session)
    (bound : List (String × Value)) : Prop :=
  ∃ τ, ∀ (α : Type) (body : List (String × Value) → Action α),
    (g.call body args kw).run.run σ = (body bound).run.run τ

theorem Reaches.not_unreached {g : Guard} {args : List Value} {kw : Keywords} {σ : Session}
    {bound : List (String × Value)} (h : g.Reaches args kw σ bound) : ¬ g.Unreached args kw σ := by
  rintro ⟨f, υ, unreached⟩
  obtain ⟨τ, reaches⟩ := h
  have returned := (reaches _ pure).symm.trans (unreached _ pure)
  cases returned

theorem unreached_or_letThrough_eq_ok (g : Guard) (args : List Value) (kw : Keywords)
    (σ : Session) :
    g.Unreached args kw σ ∨ ∃ bound τ, (g.letThrough args kw).run.run σ = (.ok bound, τ) := by
  rcases (g.letThrough args kw).ok_or_error σ with ⟨bound, τ, h⟩ | ⟨f, τ, h⟩
  · exact .inr ⟨bound, τ, h⟩
  · exact .inl ⟨f, τ, fun _ _ => Action.bind_of_error h⟩

/-- A call from the session `σ` is validated, if there are settings for it at all. -/
def Enabled (g : Guard) (σ : Session) : Prop :=
  ∀ s τ, g.effectiveSettings.run.run σ = (.ok s, τ) → s.enabled.truthy = true

theorem check_eq_ok {g : Guard} (hc : g.convention ≠ .named) {args : List Value} {kw : Keywords}
    {σ σ' : Session} (h : (g.check args kw).run.run σ = (.ok (), σ')) :
    ∃ r, g.signature.positionalValues (g.given args) kw = .ok r ∧
      g.validator.schema.validate g.convention (.list r) = .ok () := by
  cases hr : g.signature.positionalValues (g.given args) kw with
  | ok r =>
    refine ⟨r, rfl, ?_⟩
    rw [check_of_positionalValues hc hr] at h
    rw [← Validator.outcome_eq g.validator g.convention (.list r) σ, Validator.outcome, h]
  | error e =>
    rw [check_of_binding hc hr] at h
    cases h

/-- The arguments of a body come from a call that the function takes, behind a check that
accepted. -/
theorem letThrough_eq_ok {g : Guard} {args : List Value} {kw : Keywords} {σ σ' : Session}
    {bound : List (String × Value)} (enabled : g.Enabled σ)
    (h : (g.letThrough args kw).run.run σ = (.ok bound, σ')) :
    (∃ τ τ', (g.check args kw).run.run τ = (.ok (), τ')) ∧
      ∃ laid, g.function.signature.bindCall args kw = .ok laid := by
  rw [letThrough] at h
  obtain ⟨s, τ, hs, h⟩ := Action.bind_eq_ok.1 h
  rw [if_pos (enabled s τ hs)] at h
  obtain ⟨_, τ', hcheck, h⟩ := Action.bind_eq_ok.1 h
  have given := Action.lift_eq_ok h
  rw [Function.arguments] at given
  cases hlaid : g.function.signature.bindCall args kw with
  | ok laid => exact ⟨⟨τ, τ', hcheck⟩, laid, rfl⟩
  | error e =>
    rw [hlaid] at given
    cases given

theorem enabled_of_settings {g : Guard} {s : Settings} (hs : g.settings = some s)
    (enabled : s.enabled.truthy = true) (σ : Session) : g.Enabled σ := by
  intro s' τ h
  rw [effectiveSettings, hs] at h
  cases h
  exact enabled

def twoDefaults : Function :=
  ⟨"f", [⟨.ordinary, "a", some (.int 1)⟩, ⟨.ordinary, "b", some (.int 2)⟩]⟩

end Guard

end CallContract
