import CallContract.Proofs.FanOut
import CallContract.Proofs.KeywordCalls
import CallContract.Proofs.SettingsLoading

/-!
# What guards report

A guard decides a call if the contract accepts it or the guard refuses it for violating the
contract. Its validator reports the decisions that it takes itself, one by one in the order of the
calls, and reports no other call. Positional arguments under the named convention are refused in
front of the validator, and no sink hears of it (`Guard.refusal_untold`). So every decision is told
exactly if there are no such arguments (`Guard.decisions_told_iff`).
-/

namespace CallContract

namespace Schema

theorem Compiled.violation_of_list {s : Schema} {label : Value} {labelText : String}
    (h : s.Compiled label labelText) (hlabel : label.Shown) {c : Convention} {vs : List Value}
    {x : ContractError} (hx : s.validate c (.list vs) = .error (.contract x)) :
    ∃ contract message what, x = .violation contract message what := by
  obtain ⟨y, hy, ends⟩ := (s.reports_validate c rfl).error hx
  rcases h.ordinary_finding hlabel c (.list vs) y hy with ⟨t, -, ordinary⟩ | ⟨-, -, misshapen⟩
  · rcases ends with ⟨-, ends⟩ | ⟨-, text, htext⟩
    · rcases ordinary.offence with ⟨what, hwhat, -⟩ | ⟨huntestable, -⟩
      · rw [hwhat] at ends
        obtain ⟨message, hmessage⟩ := ends
        exact ⟨t.name, message, what, Failure.contract.inj hmessage⟩
      · rw [huntestable] at ends
        cases ends
    · cases htext
  · -- a list has the shape that every convention asks for
    have hitems : (Value.list vs).items? = some vs := rfl
    cases c <;> simp [Misshapen, Value.fragments?, Value.sequence?, hitems] at misshapen

end Schema

/-- A contract has accepted a call, or the call is refused for violating it. -/
def decided : Except Failure Unit → Bool
  | .ok () | .error (.contract (.violation _ _ _)) => true
  | .error _ => false

structure GuardedCall where
  args : List Value
  keywords : Keywords

namespace Guard

/-- The call of a function that returns its arguments. -/
def apply (g : Guard) (c : GuardedCall) : Action (List (String × Value)) :=
  g.call pure c.args c.keywords

def verdict (g : Guard) (c : GuardedCall) : Except Failure Unit :=
  g.outcome c.args c.keywords .fresh

def answer (g : Guard) (c : GuardedCall) : Except Failure (List (String × Value)) :=
  g.verdict c >>= fun _ => g.function.arguments c.args c.keywords

/-- The call is refused before the validator is asked. -/
def refusesItself (g : Guard) (c : GuardedCall) : Bool :=
  g.convention = .named && !(g.given c.args).isEmpty

def event? (g : Guard) (c : GuardedCall) : Option Event :=
  if g.refusesItself c then none
  else Event.ofOutcome? g.validator.name g.convention (g.verdict c)

theorem refusePositional_run (g : Guard) {text : String}
    (hlabel : g.validator.name.display = .ok text) (received : Nat) :
    ∃ message, ∀ σ, (g.refusePositional received).run.run σ =
      (.error (.violation g.validator.name message (.tooMany (.int received) (.int 0))), σ) :=
  ⟨_, fun σ => by
    simp only [refusePositional, hlabel]
    rfl⟩

/-- The guard refuses a call itself, hands a list to its validator, or finds that the call does not
fit the function. -/
theorem check_cases (g : Guard) {text : String} (hlabel : g.validator.name.display = .ok text)
    (c : GuardedCall) :
    (g.refusesItself c = true ∧ ∃ message, ∀ σ, (g.check c.args c.keywords).run.run σ =
      (.error (.violation g.validator.name message
        (.tooMany (.int (g.given c.args).length) (.int 0))), σ)) ∨
    g.refusesItself c = false ∧
      ((∃ vs, g.check c.args c.keywords = g.validator.run g.convention (.list vs)) ∨
        ∃ e, g.check c.args c.keywords = throw (.binding e)) := by
  by_cases hc : g.convention = .named
  · have hgiven : g.given c.args = if g.method then c.args.drop 1 else c.args := rfl
    cases hargs : (g.given c.args).isEmpty with
    | true =>
      refine .inr ⟨by simp [refusesItself, hargs], .inl ⟨[.record c.keywords.entries], ?_⟩⟩
      rw [hgiven] at hargs
      simp only [check, hc, hargs]
      rfl
    | false =>
      obtain ⟨message, hrun⟩ := g.refusePositional_run hlabel (g.given c.args).length
      refine .inl ⟨by simp [refusesItself, hc, hargs], message, fun σ => ?_⟩
      rw [hgiven] at hargs hrun ⊢
      simp only [check, hc, hargs, Bool.not_false, if_true, Action.bind_run, hrun]
  · refine .inr ⟨by simp [refusesItself, hc], ?_⟩
    cases hr : g.signature.positionalValues (g.given c.args) c.keywords with
    | ok vs => exact .inl ⟨vs, check_of_positionalValues hc hr⟩
    | error e => exact .inr ⟨e, check_of_binding hc hr⟩

theorem check_run (g : Guard) {text : String} (hlabel : g.validator.name.display = .ok text)
    (c : GuardedCall) (σ : Session) :
    (g.check c.args c.keywords).run.run σ = (g.verdict c,
      σ.observing ((g.event? c).toList.flatMap (σ.footprint g.validator.sink))) := by
  unfold event? verdict outcome
  rcases g.check_cases hlabel c with ⟨hr, message, hcheck⟩ | ⟨hr, ⟨vs, hcheck⟩ | ⟨e, hcheck⟩⟩
  · simp [hr, hcheck, σ.observing_nil]
  · simp [hr, hcheck, Validator.run_run]
  · have hthrow (τ : Session) : (throw (.binding e) : Action Unit).run.run τ =
        (.error (.binding e), τ) := rfl
    simp only [hr, hcheck, hthrow, Event.ofOutcome?, Bool.false_eq_true, if_false,
      Option.toList_none, List.flatMap_nil, σ.observing_nil]

section
variable {g : Guard} {label : Value} (hlabel : Compiler.IsLabel label)
  (compiled : g.validator.schema.Compiled label label.shownText)
include hlabel compiled

theorem display_name : g.validator.name.display = .ok label.shownText := by
  rw [Validator.name, compiled.name_eq]
  exact hlabel.display

theorem decided_of_refusesItself {c : GuardedCall} (hr : g.refusesItself c = true) :
    decided (g.verdict c) = true := by
  rcases g.check_cases (display_name hlabel compiled) c with ⟨-, message, hcheck⟩ | ⟨hnot, -⟩
  · rw [verdict, outcome, hcheck]
    rfl
  · rw [hr] at hnot
    exact absurd hnot (by decide)

theorem withinFamily_verdict {c : GuardedCall} (hr : g.refusesItself c = false) :
    withinFamily (g.verdict c) = decided (g.verdict c) := by
  rcases g.check_cases (display_name hlabel compiled) c with
    ⟨hrefuses, -⟩ | ⟨-, ⟨vs, hcheck⟩ | ⟨e, hcheck⟩⟩
  · rw [hr] at hrefuses
    exact absurd hrefuses (by decide)
  · have hverdict : g.verdict c = g.validator.schema.validate g.convention (.list vs) := by
      rw [verdict, outcome, hcheck, Validator.run_run]
    cases hv : g.verdict c with
    | ok => rfl
    | error f =>
      cases f with
      | contract x =>
        rw [hverdict] at hv
        obtain ⟨contract, message, what, rfl⟩ := compiled.violation_of_list hlabel.shown hv
        rfl
      | _ => rfl
  · rw [verdict, outcome, hcheck]
    rfl

/-- A guard tells of every call that it decides, once, apart from those that it refuses itself. -/
theorem event?_cases (c : GuardedCall) :
    (g.refusesItself c = true ∧ decided (g.verdict c) = true ∧ g.event? c = none) ∨
    g.refusesItself c = false ∧
      ((decided (g.verdict c) = true ∧ ∃ e, g.event? c = some e ∧ e.convention = g.convention ∧
          e.Tells g.validator.name (g.verdict c)) ∨
        decided (g.verdict c) = false ∧ g.event? c = none) := by
  cases hr : g.refusesItself c with
  | true => exact .inl ⟨rfl, decided_of_refusesItself hlabel compiled hr, by simp [event?, hr]⟩
  | false =>
    have hfamily := withinFamily_verdict hlabel compiled hr
    have hevent : g.event? c =
        Event.ofOutcome? g.validator.name g.convention (g.verdict c) := by simp [event?, hr]
    refine .inr ⟨rfl, ?_⟩
    rw [hevent]
    cases hd : decided (g.verdict c) with
    | true => exact .inl ⟨rfl, Event.ofOutcome?_eq_some _ _ (hfamily.trans hd)⟩
    | false => exact .inr ⟨rfl, Event.ofOutcome?_eq_none _ _ (hfamily.trans hd)⟩

theorem told_iff (calls : List GuardedCall) :
    List.Forall₂ (fun c e => e.convention = g.convention ∧ e.Tells g.validator.name (g.verdict c))
        (calls.filter fun c => decided (g.verdict c)) (calls.filterMap g.event?) ↔
      ∀ c ∈ calls, g.refusesItself c = false := by
  have fewer (cs : List GuardedCall) :
      (cs.filterMap g.event?).length ≤ (cs.filter fun c => decided (g.verdict c)).length := by
    induction cs with
    | nil => simp
    | cons c cs ih =>
      rcases event?_cases hlabel compiled c with
        ⟨-, hd, he⟩ | ⟨-, ⟨hd, e, he, -⟩ | ⟨hd, he⟩⟩ <;>
        simp only [List.filter_cons, List.filterMap_cons, hd, he, if_true, Bool.false_eq_true,
          if_false, List.length_cons] <;>
        omega
  induction calls with
  | nil => simp
  | cons c cs ih =>
    refine Iff.trans ?_ ((and_congr_right fun _ => ih).trans List.forall_mem_cons.symm)
    rcases event?_cases hlabel compiled c with
      ⟨hr, hd, he⟩ | ⟨hr, ⟨hd, e, he, tells⟩ | ⟨hd, he⟩⟩
    · -- the decision has no event, and those behind it have no more than they need
      simp only [List.filter_cons, List.filterMap_cons, hd, he, hr, if_true]
      constructor
      · intro h
        have hlen := h.length_eq
        have hle := fewer cs
        rw [List.length_cons] at hlen
        omega
      · intro h
        exact absurd h.1 (by decide)
    · simp [hd, he, hr, tells]
    · simp [hd, he, hr]

end

/-- In the session `σ` the guard goes by the settings `s`, without loading any. -/
def Settled (g : Guard) (s : Settings) (σ : Session) : Prop :=
  g.settings = some s ∨ g.settings = none ∧ σ.settings = some s

theorem Settled.run {g : Guard} {s : Settings} {σ : Session} (h : g.Settled s σ) :
    g.effectiveSettings.run.run σ = (.ok s, σ) := by
  unfold effectiveSettings
  rcases h with h | ⟨h, hσ⟩
  · rw [h]
    rfl
  · rw [h]
    exact Defaults.settings_of_some hσ

theorem settled_of_run {g : Guard} {s : Settings} {σ ρ : Session}
    (h : g.effectiveSettings.run.run σ = (.ok s, ρ)) : σ.Reads ρ ∧ g.Settled s ρ := by
  unfold effectiveSettings at h
  cases hg : g.settings with
  | some s' =>
    rw [hg] at h
    cases h
    exact ⟨.refl σ, .inl hg⟩
  | none =>
    rw [hg] at h
    obtain ⟨hreads, hρ⟩ := Defaults.reads_settings h
    exact ⟨hreads, .inr ⟨hg, hρ⟩⟩

theorem apply_eq (g : Guard) (c : GuardedCall) : g.apply c = g.letThrough c.args c.keywords :=
  bind_pure _

theorem apply_run {g : Guard} {text : String} (hlabel : g.validator.name.display = .ok text)
    {s : Settings} (enabled : s.enabled.truthy = true) {σ ρ : Session}
    (hs : g.effectiveSettings.run.run σ = (.ok s, ρ)) (c : GuardedCall) :
    (g.apply c).run.run σ = (g.answer c,
      ρ.observing ((g.event? c).toList.flatMap (ρ.footprint g.validator.sink))) := by
  have lifted (x : Except Failure (List (String × Value))) (τ : Session) :
      (liftM x : Action _).run.run τ = (x, τ) := by
    cases x <;> rfl
  rw [apply_eq, letThrough, Action.bind_of_ok hs, if_pos enabled, Action.bind_run,
    g.check_run hlabel, answer]
  cases g.verdict c with
  | error f => rfl
  | ok => exact lifted _ _

/-- A run of calls loads the settings once, if at all, and leaves the events of its calls. -/
theorem attemptAll_apply {g : Guard} {text : String} (hlabel : g.validator.name.display = .ok text)
    {s : Settings} (enabled : s.enabled.truthy = true) {σ ρ : Session}
    (hs : g.effectiveSettings.run.run σ = (.ok s, ρ)) (calls : List GuardedCall) :
    ∃ τ warnings, Action.attemptAll (calls.map g.apply) σ = (calls.map g.answer, τ) ∧
      τ.trace = σ.trace ++ List.map (.logged Logger.settings .warning) warnings ++
        (calls.filterMap g.event?).flatMap (σ.footprint g.validator.sink) := by
  obtain ⟨hreads, settled⟩ := settled_of_run hs
  cases calls with
  | nil => exact ⟨σ, [], rfl, by simp⟩
  | cons first rest =>
    have each : ∀ c ∈ first :: rest, ∀ τ, (∃ seen, τ = ρ.observing seen) →
        ∃ υ, (g.apply c).run.run τ = (g.answer c, υ) ∧
          τ.Continues ((g.event? c).toList.flatMap (ρ.footprint g.validator.sink)) υ ∧
          ∃ seen, υ = ρ.observing seen := by
      rintro c - τ ⟨seen, rfl⟩
      have hsettled : g.Settled s (ρ.observing seen) := settled
      have hrun := apply_run hlabel enabled hsettled.run c
      rw [ρ.observing_footprint] at hrun
      exact ⟨_, hrun, .observing _ _, _, ρ.observing_observing _ _⟩
    obtain ⟨τ, hrun, hτ⟩ := Action.attemptAll_of_steps _ _ each ⟨[], ρ.observing_nil.symm⟩
    -- the first call goes on where the settings are loaded
    have loaded : Action.attemptAll ((first :: rest).map g.apply) σ =
        Action.attemptAll ((first :: rest).map g.apply) ρ := by
      simp only [List.map_cons, Action.attemptAll, apply_run hlabel enabled hs,
        apply_run hlabel enabled settled.run]
    obtain ⟨warnings, hwarnings⟩ := hreads.warned
    refine ⟨τ, warnings, loaded.trans hrun, ?_⟩
    rw [hτ.trace_eq, hwarnings, hreads.footprint_eq, List.filterMap_eq_flatMap_toList,
      List.flatMap_assoc]

/-- Along the calls to a function with a guard, the sink of the guard receives the events of its
decisions, one by one in their order, exactly if no call has positional arguments under the named
convention. -/
theorem decisions_told_iff {f : Function} {o : GuardOptions} {g : Guard} {σ₀ σ₁ : Session}
    (henforce : (enforce f o).run.run σ₀ = (.ok g, σ₁)) {sink : SinkHandle}
    (hsink : g.validator.sink = some sink) {σ ρ : Session} {s : Settings}
    (hs : g.effectiveSettings.run.run σ = (.ok s, ρ)) (enabled : s.enabled.truthy = true)
    (calls : List GuardedCall) :
    ∃ τ warnings told,
      Action.attemptAll (calls.map g.apply) σ = (calls.map g.answer, τ) ∧
      τ.trace = σ.trace ++ List.map (.logged Logger.settings .warning) warnings ++
        told.flatMap (σ.footprint (some sink)) ∧
      (∀ name, σ.sinkOf (some sink) = .outlet (.recording name) →
        told.flatMap (σ.footprint (some sink)) = told.map (.received name)) ∧
      (List.Forall₂ (fun c e => e.convention = g.convention ∧ e.Tells g.validator.name (g.verdict c))
          (calls.filter fun c => decided (g.verdict c)) told ↔
        (g.convention = .named → ∀ c ∈ calls, g.given c.args = [])) := by
  obtain ⟨label, hcompile⟩ := (enforces_of_enforce henforce).compiled
  obtain ⟨hlabel, compiled⟩ := Compiler.compiled_of_compile hcompile
  obtain ⟨τ, warnings, hrun, htrace⟩ :=
    attemptAll_apply (display_name hlabel compiled) enabled hs calls
  rw [hsink] at htrace
  refine ⟨τ, warnings, calls.filterMap g.event?, hrun, htrace, fun name hname => ?_, ?_⟩
  · have received (e : Event) : σ.footprint (some sink) e = [.received name e] := by
      rw [Session.footprint, hname]
      rfl
    rw [List.map_eq_flatMap, funext received]
  · rw [told_iff hlabel compiled]
    simp only [refusesItself, Bool.and_eq_false_iff, Bool.not_eq_false', List.isEmpty_iff,
      decide_eq_false_iff_not]
    constructor
    · intro h hnamed c hc
      exact (h c hc).resolve_left (not_not_intro hnamed)
    · intro h c hc
      by_cases hnamed : g.convention = .named
      · exact .inr (h hnamed c hc)
      · exact .inl hnamed

/-- A contract for the keywords of a call, with a sink that keeps every event. -/
def recorded : GuardOptions :=
  { spec := .record [("a", .str "!string")], label := .null, convention := .str "named",
    sink := some ⟨0, some (.recording "R")⟩, settings := some .standard, method := false }

/-- Keywords that the contract accepts, and keywords that lack a required one. -/
theorem decisions_told_of_keywords : ∃ g σ, (enforce twoDefaults recorded).run.run .fresh =
      (.ok g, σ) ∧
    ∃ τ warnings accepted refused, (Action.attemptAll ([⟨[], ⟨[("a", .str "x")]⟩⟩,
        ⟨[], ⟨[("b", .int 2)]⟩⟩].map g.apply) σ).2 = τ ∧
      τ.trace = σ.trace ++ List.map (.logged Logger.settings .warning) warnings ++
        [.received "R" accepted, .received "R" refused] ∧
      accepted.passed = true ∧ refused.passed = false ∧ refused.contract = .str "f" ∧
      refused.kind = some "MissingRequiredError" := by
  obtain ⟨g, σ, henforce, hsink, hsettings, hrecorder, hconvention, hname, haccepted, message,
      hrefused⟩ : ∃ g σ,
      (enforce twoDefaults recorded).run.run .fresh = (.ok g, σ) ∧
      g.validator.sink = some ⟨0, some (.recording "R")⟩ ∧
      g.effectiveSettings.run.run σ = (.ok .standard, σ) ∧
      σ.sinkOf (some ⟨0, some (.recording "R")⟩) = .outlet (.recording "R") ∧
      g.convention = .named ∧ g.validator.name = .str "f" ∧
      g.verdict ⟨[], ⟨[("a", .str "x")]⟩⟩ = .ok () ∧
      ∃ message, g.verdict ⟨[], ⟨[("b", .int 2)]⟩⟩ =
        .error (.violation (.str "f") message (.missing [.str "a"])) :=
    ⟨_, _, rfl, rfl, rfl, rfl, rfl, rfl, rfl, _, rfl⟩
  obtain ⟨τ, warnings, told, hrun, htrace, hreceived, htold⟩ :=
    decisions_told_iff henforce hsink hsettings rfl
      [⟨[], ⟨[("a", .str "x")]⟩⟩, ⟨[], ⟨[("b", .int 2)]⟩⟩]
  have told_each := htold.2 fun _ c hc => by
    have hargs : c.args = [] := by
      rcases List.mem_pair.1 hc with rfl | rfl <;> rfl
    rw [given, hargs]
    split <;> rfl
  have both : ([⟨[], ⟨[("a", .str "x")]⟩⟩, ⟨[], ⟨[("b", .int 2)]⟩⟩].filter fun c =>
      decided (g.verdict c)) = [⟨[], ⟨[("a", .str "x")]⟩⟩, ⟨[], ⟨[("b", .int 2)]⟩⟩] := by
    simp only [List.filter_cons, haccepted, hrefused]
    rfl
  rw [both, hname] at told_each
  obtain ⟨accepted, _, ⟨-, -, hpassed, -⟩, hrest, rfl⟩ := List.forall₂_cons_left_iff.1 told_each
  obtain ⟨refused, _, ⟨-, hcontract, hfailed, hkind⟩, hnil, rfl⟩ :=
    List.forall₂_cons_left_iff.1 hrest
  rw [List.forall₂_nil_left_iff] at hnil
  subst hnil
  rw [hreceived "R" hrecorder] at htrace
  rw [hrefused] at hfailed hkind
  have hnot : refused.passed = false := by simpa using hfailed
  exact ⟨g, σ, henforce, τ, warnings, accepted, refused, congrArg Prod.snd hrun, htrace,
    hpassed.2 haccepted, hnot, hcontract, (hkind _ rfl).1⟩

/-- The refusal of a positional argument leaves nothing behind. -/
theorem refusal_untold : ∃ g σ, (enforce twoDefaults recorded).run.run .fresh = (.ok g, σ) ∧
    g.validator.sink = some ⟨0, some (.recording "R")⟩ ∧
    σ.sinkOf (some ⟨0, some (.recording "R")⟩) = .outlet (.recording "R") ∧
    g.effectiveSettings.run.run σ = (.ok .standard, σ) ∧
    ∃ message, Action.attemptAll [g.apply ⟨[.str "x"], .empty⟩] σ =
      ([.error (.violation (.str "f") message (.tooMany (.int 1) (.int 0)))], σ) :=
  ⟨_, _, rfl, rfl, rfl, rfl, _, rfl⟩

end Guard

end CallContract
