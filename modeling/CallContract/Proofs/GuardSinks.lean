import CallContract.Proofs.DefaultsKept
import CallContract.Proofs.GuardReports

/-!
# The default sink of guards

A guard without a sink and settings of its own goes by the settings that are in force at each call.
It reports to the default sink of the time when it was made: the one that the settings in force then
ask for. A helper that compiles and validates in one call goes by the settings and the sink of the
time when it is called. So both report to one sink exactly if no settings have been set in between,
or neither has a sink (`Guard.sink_in_force_iff`).
-/

namespace CallContract

open CallContract.Action (KeepsDefaults)

namespace OneCall

/-- A helper goes by the settings in force, and reports to the sink that they ask for. -/
theorem validator_in_force {σ ρ τ : Session} {s : Settings} (sound : σ.Sound)
    (hs : Defaults.settings.run.run σ = (.ok s, ρ)) {convention : Convention} {spec label : Value}
    {v : Validator} (hv : (validator convention spec label).run.run σ = (.ok v, τ)) :
    v.name = (if label.truthy then label else s.defaultLabel) ∧ τ.settings = some s ∧
      τ.sink = some v.sink := by
  cases hspec : spec.isMapping with
  | false =>
    rw [validator_of_not_mapping hspec] at hv
    cases hv
  | true =>
    rw [validator_of_mapping hspec] at hv
    obtain ⟨chosen, σ₁, hchosen, hv⟩ := Action.bind_eq_ok.1 hv
    obtain ⟨schema, σ₂, hschema, hv⟩ := Action.bind_eq_ok.1 hv
    obtain ⟨h, σ₃, hsink, hv⟩ := Action.bind_eq_ok.1 hv
    cases hv
    have kept := (labelOf_keeps label).keeps hchosen
    have kept' := (Compiler.run_keeps spec chosen).keeps hschema
    -- the settings are still the same when the sink is asked for
    have still : chosen = (if label.truthy then label else s.defaultLabel) ∧
        ∃ ρ', Defaults.settings.run.run σ₂ = (.ok s, ρ') := by
      unfold labelOf at hchosen
      cases ht : label.truthy with
      | true =>
        rw [ht] at hchosen
        cases hchosen
        obtain ⟨seen, rfl⟩ := (Compiler.run_onlyObserves _ _).observed hschema
        exact ⟨rfl, Defaults.settings_observing hs seen⟩
      | false =>
        rw [ht, ← bind_pure_comp] at hchosen
        change (Defaults.settings >>= _ : Action Value).run.run σ = _ at hchosen
        rw [Action.bind_of_ok hs] at hchosen
        cases hchosen
        have loaded := kept'.settings s (Defaults.reads_settings hs).2
        exact ⟨rfl, σ₂, Defaults.settings_of_some loaded⟩
    obtain ⟨rfl, ρ', hs'⟩ := still
    have compiled := (Compiler.compiled_of_compile (Compiler.compile_of_run hschema)).2
    exact ⟨compiled.name_eq, Defaults.settings_of_sink ((kept.trans kept').sound sound) hs' hsink,
      Defaults.sink_eq_ok hsink⟩

end OneCall

/-- Along deeds the default sink stays the same exactly if no settings are set, or if there is none
before and after. -/
theorem Deed.sink_eq_iff {ds : List Deed} {σ τ : Session} (sound : σ.Sound)
    (kept : (after ds σ).Keeps τ) {b b' : Option SinkHandle} (hb : σ.sink = some b)
    (hb' : τ.sink = some b') : b = b' ↔ (∀ d ∈ ds, ¬ d.Sets) ∨ (b = none ∧ b' = none) := by
  constructor
  · intro heq
    by_cases hds : ∃ d ∈ ds, d.Sets
    · refine .inr ?_
      have renewed := kept.renewed (after_renewed le_rfl (.inr hds))
      cases b with
      | none => exact ⟨rfl, heq.symm⟩
      | some k =>
        -- the number of `k` is one of the old ones and none of them
        have old := (sound _ hb).made k rfl
        have new := renewed.sink k (heq ▸ hb')
        omega
    · exact .inl (by simpa using hds)
  · rintro (hds | ⟨rfl, rfl⟩)
    · have same := kept.sink b ((after_keeps hds σ).sink b hb)
      exact Option.some.inj (same.symm.trans hb')
    · rfl

namespace Guard

/-- A guard that is given neither takes no settings, and the default sink of its making. -/
theorem default_of_enforce {f : Function} {o : GuardOptions} {g : Guard} {σ τ : Session}
    (h : (enforce f o).run.run σ = (.ok g, τ)) (hsink : o.sink = none) (hsettings : o.settings = none) :
    g.settings = none ∧ τ.sink = some g.validator.sink := by
  have hg := (enforces_of_enforce h).settings
  refine ⟨hg.trans hsettings, ?_⟩
  have given {convention : Convention} {schema : Schema} {σ : Session}
      (h : (installed f o convention schema).run.run σ = (.ok g, τ)) :
      τ.sink = some g.validator.sink := by
    rw [installed, hsink, hsettings] at h
    obtain ⟨b, σ₁, hb, h⟩ := Action.bind_eq_ok.1 h
    obtain ⟨label, σ₂, hlabel, h⟩ := Action.bind_eq_ok.1 h
    obtain ⟨_, σ₃, hlog, h⟩ := Action.bind_eq_ok.1 h
    cases h
    have kept := (KeepsDefaults.lift _).keeps hlabel
    exact ((KeepsDefaults.log _ _ _).keeps hlog).sink b (kept.sink b (Defaults.sink_eq_ok hb))
  rw [enforce_eq] at h
  obtain ⟨convention, σ₁, -, h⟩ := Action.bind_eq_ok.1 h
  obtain ⟨schema, σ₂, -, h⟩ := Action.bind_eq_ok.1 h
  split at h
  · obtain ⟨_, σ₃, -, h⟩ := Action.bind_eq_ok.1 h
    exact given h
  · exact given h

theorem effectiveSettings_of_none {g : Guard} (hg : g.settings = none) :
    g.effectiveSettings = Defaults.settings := by
  rw [effectiveSettings, hg]

theorem apply_by_default {g : Guard} {text : String} (hlabel : g.validator.name.display = .ok text)
    (hg : g.settings = none) {σ ρ : Session} {s : Settings}
    (hs : Defaults.settings.run.run σ = (.ok s, ρ)) (c : GuardedCall) :
    (g.apply c).run.run σ =
      if s.enabled.truthy then
        (g.answer c, ρ.observing ((g.event? c).toList.flatMap (ρ.footprint g.validator.sink)))
      else (g.function.arguments c.args c.keywords, ρ) := by
  rw [← effectiveSettings_of_none hg] at hs
  split
  next enabled => exact apply_run hlabel enabled hs c
  next disabled =>
    rw [apply_eq, letThrough, Action.bind_of_ok hs, if_neg disabled]
    cases g.function.arguments c.args c.keywords <;> rfl

/-- A call to a function whose guard is given neither settings nor a sink goes by the settings in
force at the call, as a helper does. It is reported to the sink that the settings in force at the
making of the guard ask for. That is the sink to which a helper reports exactly if no settings have
been set since, or if no sink is asked for then and now. -/
theorem sink_in_force_iff {f : Function} {o : GuardOptions} {g : Guard} {start σ : Session}
    (unbuilt : start.sink = none) {before : List Deed}
    (made : (enforce f o).run.run (Deed.after before start) = (.ok g, σ)) (hsink : o.sink = none)
    (hsettings : o.settings = none) (ds : List Deed) :
    ∃ s₀, σ.settings = some s₀ ∧
      (∀ f ρ, Defaults.settings.run.run (Deed.after ds σ) = (.error f, ρ) →
        ∀ c, (g.apply c).run.run (Deed.after ds σ) = (.error f, ρ)) ∧
      ∀ s ρ, Defaults.settings.run.run (Deed.after ds σ) = (.ok s, ρ) →
        (∀ c, (g.apply c).run.run (Deed.after ds σ) =
          if s.enabled.truthy then
            (g.answer c, ρ.observing ((g.event? c).toList.flatMap (ρ.footprint g.validator.sink)))
          else (g.function.arguments c.args c.keywords, ρ)) ∧
        ∀ convention spec label v τ,
          (OneCall.validator convention spec label).run.run (Deed.after ds σ) = (.ok v, τ) →
          v.name = (if label.truthy then label else s.defaultLabel) ∧
          τ.sinkOf g.validator.sink = s₀.asked ∧ τ.sinkOf v.sink = s.asked ∧
          (g.validator.sink = v.sink ↔
            (∀ d ∈ ds, ¬ d.Sets) ∨ (s₀.asked = .absent ∧ s.asked = .absent)) ∧
          (τ.sinkOf g.validator.sink = τ.sinkOf v.sink ↔
            s₀.logViolations.truthy = s.logViolations.truthy ∧
              s₀.telemetry.truthy = s.telemetry.truthy) := by
  obtain ⟨hg, hb⟩ := default_of_enforce made hsink hsettings
  have sound : σ.Sound := by
    refine ((enforce_keeps f o).keeps made).sound (Deed.after_sound before ?_)
    intro h hh
    rw [unbuilt] at hh
    cases hh
  have asks := sound _ hb
  obtain ⟨s₀, hs₀, -⟩ := asks.stands
  obtain ⟨label, hcompile⟩ := (enforces_of_enforce made).compiled
  obtain ⟨hlabel, compiled⟩ := Compiler.compiled_of_compile hcompile
  refine ⟨s₀, hs₀, fun f ρ hf c => ?_, fun s ρ hs => ⟨?_, fun convention spec label v τ hv => ?_⟩⟩
  · rw [apply_eq, letThrough, effectiveSettings_of_none hg, Action.bind_run, hf]
  · exact apply_by_default (display_name hlabel compiled) hg hs
  have kept := (OneCall.validator_keeps convention spec label).keeps hv
  have sound' := Deed.after_sound ds sound
  obtain ⟨hname, hs', hb'⟩ := OneCall.validator_in_force sound' hs hv
  have asks' := kept.sound sound' _ hb'
  have hold := asks.sinkOf_eq hs₀ ((Deed.after_extends ds σ).trans kept.ext)
  have hnew := asks'.sinkOf_eq hs' (.refl τ)
  refine ⟨hname, hold, hnew, ?_, ?_⟩
  · rw [Deed.sink_eq_iff sound kept hb hb', ← hold, ← hnew, Session.sinkOf_eq_absent,
      Session.sinkOf_eq_absent]
  · rw [hold, hnew, Settings.asked_eq_iff]

/-- A contract that leaves sink and settings to the defaults. -/
def byDefault : GuardOptions :=
  { GuardOptions.silent (.record [("a", .str "!string")]) false with settings := none }

def unlogged : Settings := { Settings.standard with logViolations := .bool false }

/-- A guard made under the standard settings, which ask for a sink, reports to it also when settings
have been set that ask for none. -/
theorem sink_in_force_of_two_settings : ∃ g σ v τ,
    (enforce twoDefaults byDefault).run.run
      (Deed.after [.setSettings (some .standard)] .fresh) = (.ok g, σ) ∧
    (OneCall.validator .positional byDefault.spec (.str "")).run.run
      (Deed.after [.call g [.str "x"] .empty, .setSettings (some unlogged)] σ) = (.ok v, τ) ∧
    v.name = .str "<>" ∧ g.validator.sink ≠ v.sink ∧ τ.sinkOf v.sink = .absent ∧
    τ.sinkOf g.validator.sink = .outlet (.logging Logger.violations (.int 30)) := by
  obtain ⟨g, σ, v, τ, made, hset, hsettings, hv⟩ : ∃ g σ v τ,
      (enforce twoDefaults byDefault).run.run
        (Deed.after [.setSettings (some .standard)] .fresh) = (.ok g, σ) ∧
      σ.settings = some .standard ∧
      Defaults.settings.run.run
        (Deed.after [.call g [.str "x"] .empty, .setSettings (some unlogged)] σ) =
          (.ok unlogged,
            Deed.after [.call g [.str "x"] .empty, .setSettings (some unlogged)] σ) ∧
      (OneCall.validator .positional byDefault.spec (.str "")).run.run
        (Deed.after [.call g [.str "x"] .empty, .setSettings (some unlogged)] σ) = (.ok v, τ) :=
    ⟨_, _, _, _, rfl, rfl, rfl, rfl⟩
  obtain ⟨s₀, hs₀, -, inForce⟩ := sink_in_force_iff rfl made rfl rfl
    [.call g [.str "x"] .empty, .setSettings (some unlogged)]
  obtain rfl := Option.some.inj (hset.symm.trans hs₀)
  obtain ⟨hname, hold, hnew, hiff, -⟩ := (inForce _ _ hsettings).2 _ _ _ _ _ hv
  refine ⟨g, σ, v, τ, made, hv, hname, fun heq => ?_, hnew, hold⟩
  rcases hiff.1 heq with hds | ⟨habsent, -⟩
  · exact hds (.setSettings (some unlogged)) (by simp) trivial
  · cases habsent

/-- The settings in force at the call ask for a log of violations. The guard was made before, and
leaves nothing of a call that it refuses; a helper that refuses the same argument leaves a record. -/
theorem sink_out_of_date : ∃ g σ τ υ message note,
    (enforce twoDefaults byDefault).run.run
      (Deed.after [.setSettings (some unlogged)] .fresh) = (.ok g, σ) ∧
    Deed.after [.setSettings (some .standard)] σ = τ ∧
    Defaults.settings.run.run τ = (.ok .standard, τ) ∧
    (g.call pure [.int 1] .empty).run.run τ =
      (.error (.violation (.str "f") message (.mismatch (.str "a") (.str "string") (.int 1))), τ) ∧
    (OneCall.validate .positional (.list [.int 1]) byDefault.spec (.str "f")).run.run τ =
      (.error (.violation (.str "f") message (.mismatch (.str "a") (.str "string") (.int 1))), υ) ∧
    υ.trace = τ.trace ++ [.logged Logger.compiler .debug note,
      .logged Logger.violations .warning
        ("TypeMismatchError" ++ " in " ++ "f" ++ " (" ++ "positional" ++ " convention): " ++ message)] :=
  ⟨_, _, _, _, _, _, rfl, rfl, rfl, rfl, rfl, rfl⟩

end Guard

end CallContract
