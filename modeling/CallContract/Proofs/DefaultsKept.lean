import CallContract.OneCall
import CallContract.Proofs.GuardedCalls
import CallContract.Proofs.SettingsLoading
import CallContract.Proofs.SinkTrees

/-!
# What keeps the defaults

`Session.Keeps σ τ`: the session `τ` comes after `σ` without settings having been set in between. The
default settings and the default sink of `σ` are then still those of `τ`. A default sink that has
been built since is the one that the settings ask for (`Settings.asked`), and none of those that were
there.

Setting settings is all that does not keep a session in this way (`Deed.keeps`). It forgets the
default sink, so that the next one is new (`Deed.after_renewed`); and whatever is done, the default
sink is the one that the default settings ask for (`Deed.after_sound`).
-/

namespace CallContract

namespace Settings

def asked (s : Settings) : Sink :=
  match s.logViolations.truthy, s.telemetry.truthy with
  | true, true =>
    .composite [.outlet (.logging Logger.violations (.int Level.warning.rank)),
      .outlet (.telemetry "arg_contracts")]
  | true, false => .outlet (.logging Logger.violations (.int Level.warning.rank))
  | false, true => .outlet (.telemetry "arg_contracts")
  | false, false => .absent

theorem asked_eq_iff (s t : Settings) : s.asked = t.asked ↔
    s.logViolations.truthy = t.logViolations.truthy ∧ s.telemetry.truthy = t.telemetry.truthy := by
  unfold asked
  cases s.logViolations.truthy <;> cases s.telemetry.truthy <;>
    cases t.logViolations.truthy <;> cases t.telemetry.truthy <;> simp

theorem buildSink_eq_build (s : Settings) : s.buildSink = s.asked.build := by
  rw [buildSink, asked]
  cases s.logViolations.truthy <;> cases s.telemetry.truthy <;> rfl

theorem buildSink_run (s : Settings) (σ : Session) : ∃ h τ, s.buildSink.run.run σ = (.ok h, τ) ∧
    τ.settings = σ.settings ∧ τ.sink = σ.sink ∧ σ.Extends τ ∧ τ.Stands h τ.sinksMade s.asked ∧
    ∀ k, h = some k → σ.sinksMade ≤ k.id ∧ k.id < τ.sinksMade := by
  obtain ⟨h, τ, hrun, ext, made, stands⟩ := s.asked.build_stands σ
  have deep : τ.Stands h τ.sinksMade s.asked := fun υ hυ d hd => stands υ hυ d (by omega)
  have numbered : τ.settings = σ.settings ∧ τ.sink = σ.sink ∧
      ∀ k, h = some k → σ.sinksMade ≤ k.id ∧ k.id < τ.sinksMade := by
    clear made stands deep ext
    rw [asked] at hrun
    cases hlog : s.logViolations.truthy <;> cases htel : s.telemetry.truthy <;>
      rw [hlog, htel] at hrun <;> cases hrun <;> refine ⟨rfl, rfl, ?_⟩ <;> rintro _ ⟨⟩
    · exact ⟨le_rfl, Nat.lt_succ_self _⟩
    · exact ⟨le_rfl, Nat.lt_succ_self _⟩
    · -- the composite is the last of three
      exact ⟨Nat.le_add_right _ 2, Nat.lt_succ_self _⟩
  rw [← s.buildSink_eq_build] at hrun
  exact ⟨h, τ, hrun, numbered.1, numbered.2.1, ext, deep, numbered.2.2⟩

end Settings

namespace Session

/-- `h` is a sink made already, and the one that the settings of `σ` ask for. -/
structure Asks (σ : Session) (h : Option SinkHandle) : Prop where
  stands : ∃ s, σ.settings = some s ∧ σ.Stands h σ.sinksMade s.asked
  made : ∀ k, h = some k → k.id < σ.sinksMade

/-- `τ` comes after `σ` without settings having been set in between. -/
structure Keeps (σ τ : Session) : Prop where
  ext : σ.Extends τ
  settings : ∀ s, σ.settings = some s → τ.settings = some s
  sink : ∀ h, σ.sink = some h → τ.sink = some h
  built : ∀ h, σ.sink = none → τ.sink = some h → τ.Asks h ∧ ∀ k, h = some k → σ.sinksMade ≤ k.id

/-- The default sink is the one that the default settings ask for. -/
def Sound (σ : Session) : Prop := ∀ h, σ.sink = some h → σ.Asks h

/-- A default sink that has been built is none of the first `n` sinks. -/
structure Renewed (n : Nat) (σ : Session) : Prop where
  made : n ≤ σ.sinksMade
  sink : ∀ k, σ.sink = some (some k) → n ≤ k.id

namespace Keeps

variable {σ τ υ : Session}

theorem asks (h : σ.Keeps τ) {b : Option SinkHandle} (hb : σ.Asks b) : τ.Asks b where
  stands := by
    obtain ⟨s, hs, stands⟩ := hb.stands
    refine ⟨s, h.settings s hs, fun ρ hρ d hd => ?_⟩
    exact stands ρ (h.ext.trans hρ) d (h.ext.sinksMade_le.trans hd)
  made k hk := Nat.lt_of_lt_of_le (hb.made k hk) h.ext.sinksMade_le

theorem of_sink_eq (ext : σ.Extends τ)
    (settings : ∀ s, σ.settings = some s → τ.settings = some s) (sink : τ.sink = σ.sink) :
    σ.Keeps τ where
  ext := ext
  settings := settings
  sink h hh := sink.trans hh
  built h hnone hh := by
    rw [sink, hnone] at hh
    cases hh

theorem of_same (composites : τ.composites = σ.composites) (made : τ.sinksMade = σ.sinksMade)
    (settings : τ.settings = σ.settings) (sink : τ.sink = σ.sink) : σ.Keeps τ :=
  of_sink_eq ⟨made.ge, fun id _ => by rw [composites]⟩ (fun _ hs => settings.trans hs) sink

theorem refl (σ : Session) : σ.Keeps σ := of_same rfl rfl rfl rfl

/-- The default sink was there before, or it is a new one that the settings ask for. -/
theorem sink_cases (h : σ.Keeps τ) {b : Option SinkHandle} (hb : τ.sink = some b) :
    σ.sink = some b ∨ σ.sink = none ∧ τ.Asks b ∧ ∀ k, b = some k → σ.sinksMade ≤ k.id := by
  cases hσ : σ.sink with
  | none => exact .inr ⟨rfl, h.built b hσ hb⟩
  | some c =>
    have hc := h.sink c hσ
    rw [hb] at hc
    exact .inl hc.symm

theorem trans (h : σ.Keeps τ) (h' : τ.Keeps υ) : σ.Keeps υ where
  ext := h.ext.trans h'.ext
  settings s hs := h'.settings s (h.settings s hs)
  sink b hb := h'.sink b (h.sink b hb)
  built b hnone hb := by
    rcases h'.sink_cases hb with hτ | ⟨-, asks, new⟩
    · obtain ⟨asks, new⟩ := h.built b hnone hτ
      exact ⟨h'.asks asks, new⟩
    · exact ⟨asks, fun k hk => h.ext.sinksMade_le.trans (new k hk)⟩

theorem sound (h : σ.Keeps τ) (hσ : σ.Sound) : τ.Sound := by
  intro b hb
  rcases h.sink_cases hb with hsink | ⟨-, asks, -⟩
  · exact h.asks (hσ b hsink)
  · exact asks

theorem renewed (h : σ.Keeps τ) {n : Nat} (hσ : σ.Renewed n) : τ.Renewed n where
  made := hσ.made.trans h.ext.sinksMade_le
  sink k hk := by
    rcases h.sink_cases hk with hsink | ⟨-, -, new⟩
    · exact hσ.sink k hsink
    · exact hσ.made.trans (new k rfl)

end Keeps

theorem Asks.sinkOf_eq {σ : Session} {h : Option SinkHandle} (asks : σ.Asks h)
    {s : Settings} (hs : σ.settings = some s) {τ : Session} (ext : σ.Extends τ) :
    τ.sinkOf h = s.asked := by
  obtain ⟨s', hs', stands⟩ := asks.stands
  obtain rfl := Option.some.inj (hs.symm.trans hs')
  exact stands τ ext τ.sinksMade ext.sinksMade_le

theorem sinkOf_eq_absent {σ : Session} {h : Option SinkHandle} :
    σ.sinkOf h = .absent ↔ h = none := by
  unfold sinkOf
  generalize σ.sinksMade = depth
  constructor
  · intro habsent
    cases h with
    | none => rfl
    | some h =>
      unfold sinkTo at habsent
      cases ho : h.outlet? <;> cases depth <;> simp [ho] at habsent
  · rintro rfl
    cases depth <;> simp only [sinkTo]

end Session

namespace Action

variable {α β : Type}

/-- However the action ends, it adds to the trace at most. -/
def OnlyObserves (x : Action α) : Prop := ∀ σ : Session, ∃ seen, (x.run.run σ).2 = σ.observing seen

namespace OnlyObserves

theorem of_run {x : Action α} (h : ∀ σ, (x.run.run σ).2 = σ) : x.OnlyObserves :=
  fun σ => ⟨[], by rw [h σ, σ.observing_nil]⟩

theorem lift (x : Except Failure α) : (liftM x : Action α).OnlyObserves :=
  .of_run fun σ => by cases x <;> rfl

theorem throw (f : Failure) : (throw f : Action α).OnlyObserves := .of_run fun _ => rfl

theorem log (logger : String) (level : Level) (text : String) :
    (log logger level text).OnlyObserves :=
  fun _ => ⟨_, rfl⟩

theorem bind {x : Action α} {k : α → Action β} (hx : x.OnlyObserves)
    (hk : ∀ a, (k a).OnlyObserves) : (x >>= k).OnlyObserves := by
  refine bind_leaves (R := fun σ τ => ∃ seen, τ = σ.observing seen) (fun h h' => ?_) hx hk
  obtain ⟨seen, rfl⟩ := h
  obtain ⟨seen', rfl⟩ := h'
  exact ⟨seen ++ seen', Session.observing_observing _ seen seen'⟩

theorem observed {x : Action α} (hx : x.OnlyObserves) {σ τ : Session}
    {outcome : Except Failure α} (h : x.run.run σ = (outcome, τ)) : ∃ seen, τ = σ.observing seen := by
  have hσ := hx σ
  rwa [h] at hσ

end OnlyObserves

/-- However the action ends, it sets no settings. -/
def KeepsDefaults (x : Action α) : Prop := ∀ σ : Session, σ.Keeps (x.run.run σ).2

theorem OnlyObserves.keeps {x : Action α} (hx : x.OnlyObserves) : x.KeepsDefaults := by
  intro σ
  obtain ⟨seen, hseen⟩ := hx σ
  rw [hseen]
  exact .of_same rfl rfl rfl rfl

namespace KeepsDefaults

theorem keeps {x : Action α} (hx : x.KeepsDefaults) {σ τ : Session}
    {outcome : Except Failure α} (h : x.run.run σ = (outcome, τ)) : σ.Keeps τ := by
  have hσ := hx σ
  rwa [h] at hσ

theorem of_run {x : Action α} (h : ∀ σ, (x.run.run σ).2 = σ) : x.KeepsDefaults :=
  (OnlyObserves.of_run h).keeps

theorem lift (x : Except Failure α) : (liftM x : Action α).KeepsDefaults := (OnlyObserves.lift x).keeps

theorem log (logger : String) (level : Level) (text : String) :
    (log logger level text).KeepsDefaults :=
  (OnlyObserves.log logger level text).keeps

theorem bind {x : Action α} {k : α → Action β} (hx : x.KeepsDefaults)
    (hk : ∀ a, (k a).KeepsDefaults) : (x >>= k).KeepsDefaults :=
  bind_leaves (fun h h' => h.trans h') hx hk

theorem setVariable (name value : String) : (setVariable name value).KeepsDefaults := by
  intro σ
  unfold Action.setVariable
  split
  · exact .refl σ
  · exact .of_same rfl rfl rfl rfl

end KeepsDefaults

end Action

open CallContract.Action (KeepsDefaults OnlyObserves)

theorem Settings.buildSink_keeps (s : Settings) : s.buildSink.KeepsDefaults := by
  intro σ
  obtain ⟨h, τ, hrun, settings, sink, ext, -⟩ := s.buildSink_run σ
  rw [hrun]
  exact .of_sink_eq ext (fun _ hs => settings.trans hs) sink

namespace Defaults

theorem settings_keeps : settings.KeepsDefaults := by
  intro σ
  cases hs : σ.settings with
  | some s =>
    rw [settings_of_some hs]
    exact .refl σ
  | none =>
    have hreads := Settings.fromEnvironment_onlyReads none true σ
    rw [settings_of_none hs]
    generalize (Settings.fromEnvironment none true).run.run σ = loaded at hreads
    obtain ⟨outcome, τ⟩ := loaded
    have kept (υ : Session) (composites : υ.composites = τ.composites)
        (made : υ.sinksMade = τ.sinksMade) (sink : υ.sink = τ.sink) : σ.Keeps υ := by
      refine .of_sink_eq ⟨(made.trans hreads.sinksMade).ge, fun id _ => ?_⟩ (fun s h => ?_)
        (sink.trans hreads.sink)
      · rw [composites, hreads.composites]
      · rw [hs] at h
        cases h
    cases outcome with
    | error f => exact kept τ rfl rfl rfl
    | ok s => exact kept _ rfl rfl rfl

theorem sink_of_some {σ : Session} {h : Option SinkHandle} (hσ : σ.sink = some h) :
    sink.run.run σ = (.ok h, σ) := by
  have hget : (get : Action Session).run.run σ = (.ok σ, σ) := rfl
  rw [sink, Action.bind_of_ok hget, hσ]
  rfl

theorem sink_of_error {σ ρ : Session} {f : Failure} (hσ : σ.sink = none)
    (hs : settings.run.run σ = (.error f, ρ)) : sink.run.run σ = (.error f, ρ) := by
  have hget : (get : Action Session).run.run σ = (.ok σ, σ) := rfl
  rw [sink, Action.bind_of_ok hget, hσ]
  exact Action.bind_of_error hs

/-- The default sink is built from the settings in force, unless it is there already. -/
theorem sink_of_none {σ ρ τ : Session} {s : Settings} {h : Option SinkHandle} (hσ : σ.sink = none)
    (hs : settings.run.run σ = (.ok s, ρ)) (hbuilt : s.buildSink.run.run ρ = (.ok h, τ)) :
    sink.run.run σ = (.ok h, { τ with sink := some h }) := by
  have hget : (get : Action Session).run.run σ = (.ok σ, σ) := rfl
  rw [sink, Action.bind_of_ok hget, hσ]
  dsimp only
  rw [Action.bind_of_ok hs, Action.bind_of_ok hbuilt]
  rfl

theorem sink_keeps : sink.KeepsDefaults := by
  intro σ
  cases hσ : σ.sink with
  | some h =>
    rw [sink_of_some hσ]
    exact .refl σ
  | none =>
    rcases Defaults.settings.ok_or_error σ with ⟨s, ρ, hs⟩ | ⟨f, ρ, hs⟩
    · have hkeeps := settings_keeps.keeps hs
      obtain ⟨h, τ, hbuilt, settings, -, ext, stands, new⟩ := s.buildSink_run ρ
      have made := hkeeps.ext.sinksMade_le
      rw [sink_of_none hσ hs hbuilt]
      refine { ext := hkeeps.ext.trans ⟨ext.sinksMade_le, ext.members⟩
               settings := fun s hs => settings.trans (hkeeps.settings s hs)
               sink := fun b hb => by rw [hσ] at hb; cases hb
               built := fun k _ hk => ?_ }
      obtain rfl := Option.some.inj hk
      refine ⟨⟨⟨s, settings.trans (reads_settings hs).2, fun υ hυ => ?_⟩, fun k hk => ?_⟩, fun k hk => ?_⟩
      · exact stands υ ⟨hυ.sinksMade_le, hυ.members⟩
      · exact (new k hk).2
      · exact made.trans (new k hk).1
    · rw [sink_of_error hσ hs]
      exact settings_keeps.keeps hs

theorem sink_eq_ok {σ τ : Session} {h : Option SinkHandle} (hrun : sink.run.run σ = (.ok h, τ)) :
    τ.sink = some h := by
  cases hσ : σ.sink with
  | some b =>
    rw [sink_of_some hσ] at hrun
    cases hrun
    exact hσ
  | none =>
    rcases settings.ok_or_error σ with ⟨s, ρ, hs⟩ | ⟨f, ρ, hs⟩
    · obtain ⟨b, υ, hbuilt, -⟩ := s.buildSink_run ρ
      rw [sink_of_none hσ hs hbuilt] at hrun
      cases hrun
      rfl
    · rw [sink_of_error hσ hs] at hrun
      cases hrun

/-- A sink that is given belongs to settings that are there, or that are loaded for it. -/
theorem settings_of_sink {σ τ ρ : Session} {s : Settings} {h : Option SinkHandle} (sound : σ.Sound)
    (hs : settings.run.run σ = (.ok s, ρ)) (hrun : sink.run.run σ = (.ok h, τ)) :
    τ.settings = some s := by
  cases hσ : σ.sink with
  | some b =>
    -- there are settings already
    obtain ⟨s', hs', -⟩ := (sound b hσ).stands
    rw [settings_of_some hs'] at hs
    cases hs
    exact (sink_keeps.keeps hrun).settings s hs'
  | none =>
    obtain ⟨b, υ, hbuilt, hυ, -⟩ := s.buildSink_run ρ
    rw [sink_of_none hσ hs hbuilt] at hrun
    cases hrun
    exact hυ.trans (reads_settings hs).2

end Defaults

/-! ### What the library does -/

theorem Compiler.run_onlyObserves (spec label : Value) : (Compiler.run spec label).OnlyObserves :=
  (OnlyObserves.lift _).bind fun _ => (OnlyObserves.lift _).bind fun _ =>
    (OnlyObserves.log _ _ _).bind fun _ => .of_run fun _ => rfl

theorem Compiler.run_keeps (spec label : Value) : (Compiler.run spec label).KeepsDefaults :=
  (run_onlyObserves spec label).keeps

theorem Validator.run_onlyObserves (v : Validator) (c : Convention) (p : Value) :
    (v.run c p).OnlyObserves := by
  intro σ
  rw [v.run_run]
  exact ⟨_, rfl⟩

theorem Validator.run_keeps (v : Validator) (c : Convention) (p : Value) :
    (v.run c p).KeepsDefaults :=
  (v.run_onlyObserves c p).keeps

namespace Guard

theorem installed_keeps (f : Function) (o : GuardOptions) (convention : Convention)
    (schema : Schema) : (installed f o convention schema).KeepsDefaults := by
  unfold installed
  have rest (sink : Option SinkHandle) : (do
      Action.log Logger.guards .debug ("Enforcing " ++ convention.name ++ " contract " ++
        (← schema.name.literal) ++ " on " ++ f.qualname)
      return { function := f, validator := { schema, sink }, convention, settings := o.settings,
               method := o.method } : Action Guard).KeepsDefaults :=
    (KeepsDefaults.lift _).bind fun _ => (KeepsDefaults.log _ _ _).bind fun _ => .of_run fun _ => rfl
  split
  · exact (KeepsDefaults.of_run fun _ => rfl).bind rest
  · exact (Settings.buildSink_keeps _).bind rest
  · exact Defaults.sink_keeps.bind rest

theorem enforce_keeps (f : Function) (o : GuardOptions) : (enforce f o).KeepsDefaults := by
  rw [enforce_eq]
  refine (KeepsDefaults.lift _).bind fun convention => (Compiler.run_keeps _ _).bind fun schema => ?_
  split
  · exact (KeepsDefaults.lift _).bind fun _ => installed_keeps f o convention schema
  · exact installed_keeps f o convention schema

theorem check_onlyObserves (g : Guard) (args : List Value) (kw : Keywords) :
    (g.check args kw).OnlyObserves := by
  by_cases hc : g.convention = .named
  · rw [check, hc]
    have refused (received : Nat) : (g.refusePositional received).OnlyObserves :=
      (OnlyObserves.lift _).bind fun _ => .throw _
    dsimp only
    split
    all_goals
      split
      · exact (refused _).bind fun _ => Validator.run_onlyObserves _ _ _
      · exact Validator.run_onlyObserves _ _ _
  · cases hr : g.signature.positionalValues (g.given args) kw with
    | ok vs =>
      rw [check_of_positionalValues hc hr]
      exact Validator.run_onlyObserves _ _ _
    | error e =>
      rw [check_of_binding hc hr]
      exact .throw _

/-- Behind the settings a guard adds to the trace at most. -/
theorem letThrough_under_onlyObserves (g : Guard) (args : List Value) (kw : Keywords)
    (s : Settings) : (do
      if s.enabled.truthy then g.check args kw
      g.function.arguments args kw : Action (List (String × Value))).OnlyObserves := by
  split
  · exact (g.check_onlyObserves args kw).bind fun _ => .lift _
  · exact .lift _

theorem call_keeps {α : Type} (g : Guard) {body : List (String × Value) → Action α}
    (hbody : ∀ bound, (body bound).KeepsDefaults) (args : List Value) (kw : Keywords) :
    (g.call body args kw).KeepsDefaults := by
  have loaded : g.effectiveSettings.KeepsDefaults := by
    unfold effectiveSettings
    split
    · exact .of_run fun _ => rfl
    · exact Defaults.settings_keeps
  have letThrough : (g.letThrough args kw).KeepsDefaults :=
    loaded.bind fun s => (g.letThrough_under_onlyObserves args kw s).keeps
  exact letThrough.bind hbody

end Guard

namespace OneCall

/-- The label of a specification that may be given none. -/
def labelOf (label : Value) : Action Value :=
  if label.truthy then pure label else (·.defaultLabel) <$> Defaults.settings

theorem validator_of_mapping {spec : Value} (h : spec.isMapping = true) (convention : Convention)
    (label : Value) : validator convention spec label = (do
      let label ← labelOf label
      let schema ← Compiler.run spec label
      let sink ← Defaults.sink
      return { schema, sink }) := by
  rw [validator, labelOf, h]
  cases label.truthy <;> rfl

theorem validator_of_not_mapping {spec : Value} (h : spec.isMapping = false)
    (convention : Convention) (label : Value) : validator convention spec label =
      throw (.configuration (convention.name ++ " needs parameters as a mapping") []) := by
  rw [validator, h]
  rfl

theorem labelOf_keeps (label : Value) : (labelOf label).KeepsDefaults := by
  unfold labelOf
  split
  · exact .of_run fun _ => rfl
  · rw [← bind_pure_comp]
    exact Defaults.settings_keeps.bind fun _ => .of_run fun _ => rfl

theorem validator_keeps (convention : Convention) (spec label : Value) :
    (validator convention spec label).KeepsDefaults := by
  cases h : spec.isMapping with
  | false =>
    rw [validator_of_not_mapping h]
    exact (OnlyObserves.throw _).keeps
  | true =>
    rw [validator_of_mapping h]
    exact (labelOf_keeps label).bind fun _ => (Compiler.run_keeps _ _).bind fun _ =>
      Defaults.sink_keeps.bind fun _ => .of_run fun _ => rfl

theorem validate_keeps (convention : Convention) (arguments spec label : Value) :
    (validate convention arguments spec label).KeepsDefaults :=
  (validator_keeps convention spec label).bind fun v =>
    (v.run_keeps convention arguments).bind fun _ => .of_run fun _ => rfl

end OneCall

/-! ### Runs -/

/-- What can be done in a session that bears on its defaults. -/
inductive Deed where
  | setSettings (s : Option Settings)
  | enforce (f : Function) (o : GuardOptions)
  | call (g : Guard) (args : List Value) (keywords : Keywords)
  | validate (convention : Convention) (arguments spec label : Value)
  | askSettings
  | askSink
  | setVariable (name value : String)
  | unsetVariable (name : String)
  /-- From now on environment files are loaded in this way. -/
  | setLoader (loader : FileLoader)

namespace Deed

def run : Deed → Action Unit
  | setSettings s => Defaults.setSettings s
  | enforce f o => do let _ ← Guard.enforce f o
  | call g args keywords => do let _ ← g.call pure args keywords
  | validate convention arguments spec label => do
    let _ ← OneCall.validate convention arguments spec label
  | askSettings => do let _ ← Defaults.settings
  | askSink => do let _ ← Defaults.sink
  | setVariable name value => Action.setVariable name value
  | unsetVariable name => Action.unsetVariable name
  | setLoader loader => modify ({ · with loader })

def Sets : Deed → Prop
  | setSettings _ => True
  | _ => False

/-- The session after deeds, of which some may have failed. -/
def after (ds : List Deed) (σ : Session) : Session := (Action.attemptAll (ds.map run) σ).2

theorem after_cons (d : Deed) (ds : List Deed) (σ : Session) :
    after (d :: ds) σ = after ds (d.run.run.run σ).2 := rfl

theorem keeps {d : Deed} (h : ¬ d.Sets) : d.run.KeepsDefaults := by
  have discarded {α : Type} {x : Action α} (hx : x.KeepsDefaults) :
      (do let _ ← x : Action Unit).KeepsDefaults :=
    hx.bind fun _ => .of_run fun _ => rfl
  cases d with
  | setSettings s => exact absurd trivial h
  | enforce f o => exact discarded (Guard.enforce_keeps f o)
  | call g args keywords => exact discarded (g.call_keeps (fun _ => .of_run fun _ => rfl) args keywords)
  | validate convention arguments spec label =>
    exact discarded (OneCall.validate_keeps convention arguments spec label)
  | askSettings => exact discarded Defaults.settings_keeps
  | askSink => exact discarded Defaults.sink_keeps
  | setVariable name value => exact .setVariable name value
  | unsetVariable name => exact fun σ => .of_same rfl rfl rfl rfl
  | setLoader loader => exact fun σ => .of_same rfl rfl rfl rfl

theorem sets {d : Deed} (h : d.Sets) (σ : Session) : σ.Extends (d.run.run.run σ).2 ∧
    (d.run.run.run σ).2.sinksMade = σ.sinksMade ∧ (d.run.run.run σ).2.sink = none := by
  cases d with
  | setSettings s => exact ⟨⟨Nat.le_refl _, fun _ _ => rfl⟩, rfl, rfl⟩
  | _ => exact h.elim

theorem after_keeps {ds : List Deed} (h : ∀ d ∈ ds, ¬ d.Sets) (σ : Session) : σ.Keeps (after ds σ) := by
  induction ds generalizing σ with
  | nil => exact .refl σ
  | cons d ds ih =>
    obtain ⟨hd, hds⟩ := List.forall_mem_cons.1 h
    exact (keeps hd σ).trans (ih hds _)

theorem after_extends (ds : List Deed) (σ : Session) : σ.Extends (after ds σ) := by
  induction ds generalizing σ with
  | nil => exact .refl σ
  | cons d ds ih =>
    refine Session.Extends.trans ?_ (ih _)
    by_cases hd : d.Sets
    · exact (sets hd σ).1
    · exact (keeps hd σ).ext

theorem after_sound (ds : List Deed) {σ : Session} (h : σ.Sound) : (after ds σ).Sound := by
  induction ds generalizing σ with
  | nil => exact h
  | cons d ds ih =>
    refine ih ?_
    by_cases hd : d.Sets
    · intro b hb
      have hnone := hb.symm.trans (sets hd σ).2.2
      cases hnone
    · exact (keeps hd σ).sound h

theorem after_renewed {ds : List Deed} {n : Nat} {σ : Session} (made : n ≤ σ.sinksMade)
    (h : σ.Renewed n ∨ ∃ d ∈ ds, d.Sets) : (after ds σ).Renewed n := by
  induction ds generalizing σ with
  | nil => exact h.resolve_right (by simp)
  | cons d ds ih =>
    rw [after_cons]
    by_cases hd : d.Sets
    · obtain ⟨-, same, hnone⟩ := sets hd σ
      refine ih (made.trans same.ge) (.inl ⟨made.trans same.ge, fun k hk => ?_⟩)
      rw [hnone] at hk
      cases hk
    · refine ih (made.trans (keeps hd σ).ext.sinksMade_le) ?_
      rcases h with h | ⟨e, he, hsets⟩
      · exact .inl ((keeps hd σ).renewed h)
      · rcases List.mem_cons.1 he with rfl | he
        · exact absurd hsets hd
        · exact .inr ⟨e, he, hsets⟩

end Deed

end CallContract
