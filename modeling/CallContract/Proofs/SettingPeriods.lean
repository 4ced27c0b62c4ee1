import CallContract.Proofs.OneCallAgreement

/-!
# Periods of settings

A period is what is done from one setting of settings to the next. Settings that are set are in
force all through their period; if none are set, the first use of settings loads them from the
environment, and those are in force from then on (`Deed.after_loads`). All that is given the default
sink in a period is given one and the same sink, built once, which is the one that the settings in
force ask for; and this is none of the default sinks that there were before the period
(`Deed.periods_coherent`).
-/

namespace CallContract

open CallContract.Action (KeepsDefaults OnlyObserves)

/-! ### Loading once -/

/-- What the environment gives in `σ` when settings are loaded. -/
def Session.Loads (σ : Session) (s : Settings) : Prop :=
  ((Settings.fromEnvironment none true).run.run σ).1 = .ok s

theorem Session.Loads.of_observing {σ : Session} {seen : List Observation} {s : Settings}
    (h : (σ.observing seen).Loads s) : σ.Loads s := by
  obtain ⟨outcome, τ, trace, hσ, hseen⟩ :=
    Settings.fromEnvironment_ignoresTrace none true σ (σ.trace ++ seen)
  change ((Settings.fromEnvironment none true).run.run { σ with trace := σ.trace ++ seen }).1 = _ at h
  rw [hseen] at h
  rw [Loads, hσ]
  exact h

namespace Action

variable {α β : Type}

def LeavesSettings (x : Action α) : Prop := ∀ σ : Session, (x.run.run σ).2.settings = σ.settings

/-- Where there are no settings the action loads them from the environment as it finds it, or does
without. -/
def LoadsOnce (x : Action α) : Prop := ∀ σ : Session, σ.settings = none →
  (x.run.run σ).2.settings = none ∨ ∃ s, σ.Loads s ∧ (x.run.run σ).2.settings = some s

theorem OnlyObserves.leavesSettings {x : Action α} (hx : x.OnlyObserves) : x.LeavesSettings := by
  intro σ
  obtain ⟨seen, hseen⟩ := hx σ
  rw [hseen]
  rfl

theorem LeavesSettings.bind {x : Action α} {k : α → Action β} (hx : x.LeavesSettings)
    (hk : ∀ a, (k a).LeavesSettings) : (x >>= k).LeavesSettings :=
  bind_leaves (R := fun σ τ => τ.settings = σ.settings) (fun h h' => h'.trans h) hx hk

namespace LoadsOnce

theorem of_leavesSettings {x : Action α} (hx : x.LeavesSettings) : x.LoadsOnce :=
  fun σ hσ => .inl ((hx σ).trans hσ)

theorem behind {x : Action α} {k : α → Action β} (hx : x.OnlyObserves)
    (hk : ∀ a, (k a).LoadsOnce) : (x >>= k).LoadsOnce := by
  intro σ hσ
  rcases x.ok_or_error σ with ⟨a, τ, hrun⟩ | ⟨f, τ, hrun⟩
  · obtain ⟨seen, rfl⟩ := hx.observed hrun
    rw [bind_of_ok hrun]
    rcases hk a (σ.observing seen) hσ with hnone | ⟨s, loads, hs⟩
    · exact .inl hnone
    · exact .inr ⟨s, loads.of_observing, hs⟩
  · obtain ⟨seen, rfl⟩ := hx.observed hrun
    rw [bind_of_error hrun]
    exact .inl hσ

theorem bind {x : Action α} {k : α → Action β} (hx : x.LoadsOnce)
    (hk : ∀ a, (k a).LeavesSettings) : (x >>= k).LoadsOnce := by
  intro σ hσ
  have loaded := hx σ hσ
  rcases x.ok_or_error σ with ⟨a, τ, hrun⟩ | ⟨f, τ, hrun⟩
  · rw [hrun, ← hk a τ] at loaded
    rwa [bind_of_ok hrun]
  · rw [hrun] at loaded
    rwa [bind_of_error hrun]

end LoadsOnce

end Action

namespace Defaults

theorem settings_of_loaded {σ ρ : Session} {s : Settings} (h : σ.settings = none)
    (hs : (Settings.fromEnvironment none true).run.run σ = (.ok s, ρ)) :
    settings.run.run σ = (.ok s, { ρ with settings := some s }) := by
  rw [settings_of_none h, hs]

theorem settings_loadsOnce : settings.LoadsOnce := by
  intro σ hσ
  have unset := Settings.fromEnvironment_settings none true σ
  rcases (Settings.fromEnvironment none true).ok_or_error σ with ⟨s, ρ, hs⟩ | ⟨f, ρ, hf⟩
  · rw [settings_of_loaded hσ hs]
    exact .inr ⟨s, congrArg Prod.fst hs, rfl⟩
  · rw [hf] at unset
    rw [settings_of_none hσ, hf]
    exact .inl (unset.trans hσ)

/-- Settings that have been loaded stay in force, whatever is done with them. -/
theorem loadsOnce_of_settings {α : Type} {k : Settings → Action α} (hk : ∀ s, (k s).KeepsDefaults) :
    (settings >>= k).LoadsOnce := by
  intro σ hσ
  have loaded := settings_loadsOnce σ hσ
  rcases settings.ok_or_error σ with ⟨s, ρ, hs⟩ | ⟨f, ρ, hs⟩
  · rw [hs] at loaded
    rw [Action.bind_of_ok hs]
    have hρ := (reads_settings hs).2
    rcases loaded with hnone | ⟨s', loads, hs'⟩
    · rw [hnone] at hρ
      cases hρ
    · exact .inr ⟨s', loads, (hk s ρ).settings s' hs'⟩
  · rw [hs] at loaded
    rw [Action.bind_of_error hs]
    exact loaded

theorem sink_loadsOnce : sink.LoadsOnce := by
  intro σ hσ
  cases hsink : σ.sink with
  | some h =>
    rw [sink_of_some hsink]
    exact .inl hσ
  | none =>
    have loaded := settings_loadsOnce σ hσ
    rcases settings.ok_or_error σ with ⟨s, ρ, hs⟩ | ⟨f, ρ, hs⟩
    · obtain ⟨h, τ, hbuilt, same, -⟩ := s.buildSink_run ρ
      rw [sink_of_none hsink hs hbuilt]
      -- what is built leaves the settings as they have been loaded
      rw [hs, ← same] at loaded
      exact loaded
    · rw [hs] at loaded
      rw [sink_of_error hsink hs]
      exact loaded

end Defaults

theorem Settings.buildSink_leavesSettings (s : Settings) : s.buildSink.LeavesSettings := by
  intro σ
  obtain ⟨h, τ, hrun, same, -⟩ := s.buildSink_run σ
  rw [hrun]
  exact same

open CallContract.Action (LeavesSettings LoadsOnce)

namespace Guard

theorem installed_loadsOnce (f : Function) (o : GuardOptions) (convention : Convention)
    (schema : Schema) : (installed f o convention schema).LoadsOnce := by
  unfold installed
  have rest (sink : Option SinkHandle) : (do
      Action.log Logger.guards .debug ("Enforcing " ++ convention.name ++ " contract " ++
        (← schema.name.literal) ++ " on " ++ f.qualname)
      return { function := f, validator := { schema, sink }, convention, settings := o.settings,
               method := o.method } : Action Guard).LeavesSettings :=
    ((OnlyObserves.lift _).bind fun _ => (OnlyObserves.log _ _ _).bind fun _ =>
      .of_run fun _ => rfl).leavesSettings
  split
  · exact .bind (.of_leavesSettings (OnlyObserves.of_run fun _ => rfl).leavesSettings) rest
  · exact .bind (.of_leavesSettings (Settings.buildSink_leavesSettings _)) rest
  · exact Defaults.sink_loadsOnce.bind rest

theorem enforce_loadsOnce (f : Function) (o : GuardOptions) : (enforce f o).LoadsOnce := by
  rw [enforce_eq]
  refine .behind (.lift _) fun convention => .behind (Compiler.run_onlyObserves _ _) fun schema => ?_
  split
  · exact .behind (.lift _) fun _ => installed_loadsOnce f o convention schema
  · exact installed_loadsOnce f o convention schema

theorem letThrough_loadsOnce (g : Guard) (args : List Value) (kw : Keywords) :
    (g.letThrough args kw).LoadsOnce := by
  have rest := g.letThrough_under_onlyObserves args kw
  rw [letThrough]
  cases hg : g.settings with
  | none =>
    rw [effectiveSettings_of_none hg]
    exact Defaults.loadsOnce_of_settings fun s => (rest s).keeps
  | some s =>
    rw [effectiveSettings, hg]
    exact .of_leavesSettings ((OnlyObserves.of_run fun _ => rfl).bind rest).leavesSettings

theorem call_loadsOnce {α : Type} (g : Guard) {body : List (String × Value) → Action α}
    (hbody : ∀ bound, (body bound).LeavesSettings) (args : List Value) (kw : Keywords) :
    (g.call body args kw).LoadsOnce :=
  (g.letThrough_loadsOnce args kw).bind hbody

end Guard

namespace OneCall

theorem validator_loadsOnce (convention : Convention) (spec label : Value) :
    (validator convention spec label).LoadsOnce := by
  cases h : spec.isMapping with
  | false =>
    rw [validator_of_not_mapping h]
    exact .of_leavesSettings (OnlyObserves.throw _).leavesSettings
  | true =>
    rw [validator_of_mapping h, labelOf]
    have made (schema : Schema) : (do
        let sink ← Defaults.sink
        return { schema, sink } : Action Validator).LoadsOnce :=
      Defaults.sink_loadsOnce.bind fun _ => (OnlyObserves.of_run fun _ => rfl).leavesSettings
    cases label.truthy with
    | true => exact .behind (.of_run fun _ => rfl) fun _ => .behind (Compiler.run_onlyObserves _ _) made
    | false =>
      rw [if_neg Bool.false_ne_true, map_eq_pure_bind, bind_assoc]
      refine Defaults.loadsOnce_of_settings fun s => ?_
      exact (KeepsDefaults.of_run fun _ => rfl).bind fun _ => (Compiler.run_keeps _ _).bind fun _ =>
        Defaults.sink_keeps.bind fun _ => .of_run fun _ => rfl

theorem validate_loadsOnce (convention : Convention) (arguments spec label : Value) :
    (validate convention arguments spec label).LoadsOnce :=
  (validator_loadsOnce convention spec label).bind fun v =>
    ((v.run_onlyObserves convention arguments).bind fun _ => .of_run fun _ => rfl).leavesSettings

/-- The helper's validator reports to what is the default sink from then on. -/
theorem sink_of_validator {σ τ : Session} {convention : Convention} {spec label : Value}
    {v : Validator} (h : (validator convention spec label).run.run σ = (.ok v, τ)) :
    τ.sink = some v.sink := by
  cases hspec : spec.isMapping with
  | false =>
    rw [validator_of_not_mapping hspec] at h
    cases h
  | true =>
    rw [validator_of_mapping hspec] at h
    obtain ⟨_, _, -, h⟩ := Action.bind_eq_ok.1 h
    obtain ⟨_, _, -, h⟩ := Action.bind_eq_ok.1 h
    obtain ⟨b, _, hsink, h⟩ := Action.bind_eq_ok.1 h
    cases h
    exact Defaults.sink_eq_ok hsink

/-- A helper ends as the validation does that it makes, and hands that to the sink of the time. -/
theorem validate_of_validator {σ ρ : Session} {convention : Convention} {spec label : Value}
    {v : Validator} (h : (validator convention spec label).run.run σ = (.ok v, ρ))
    (arguments : Value) : (validate convention arguments spec label).run.run σ =
      ((v.schema.validate convention arguments).map fun _ => v,
        ρ.observing ((Event.ofOutcome? v.name convention
          (v.schema.validate convention arguments)).toList.flatMap (ρ.footprint v.sink))) := by
  show (validatedBy (validator convention spec label) convention arguments).run.run σ = _
  rw [validatedBy_of_made h, told_of_made h]

end OneCall

namespace Deed

theorem loadsOnce {d : Deed} (h : ¬ d.Sets) : d.run.LoadsOnce := by
  have discarded {α : Type} {x : Action α} (hx : x.LoadsOnce) :
      (do let _ ← x : Action Unit).LoadsOnce :=
    hx.bind fun _ => (OnlyObserves.of_run fun _ => rfl).leavesSettings
  cases d with
  | setSettings s => exact absurd trivial h
  | enforce f o => exact discarded (Guard.enforce_loadsOnce f o)
  | call g args keywords => exact discarded (g.call_loadsOnce (fun _ _ => rfl) args keywords)
  | validate convention arguments spec label =>
    exact discarded (OneCall.validate_loadsOnce convention arguments spec label)
  | askSettings => exact discarded Defaults.settings_loadsOnce
  | askSink => exact discarded Defaults.sink_loadsOnce
  | setVariable name value =>
    refine .of_leavesSettings fun σ => ?_
    rw [run, Action.setVariable]
    split <;> rfl
  | unsetVariable name => exact .of_leavesSettings fun σ => rfl
  | setLoader loader => exact .of_leavesSettings fun σ => rfl

theorem after_append (ds ds' : List Deed) (σ : Session) :
    after (ds ++ ds') σ = after ds' (after ds σ) := by
  induction ds generalizing σ with
  | nil => rfl
  | cons d ds ih => exact ih _

theorem after_snoc (ds : List Deed) (d : Deed) (σ : Session) :
    after (ds ++ [d]) σ = (d.run.run.run (after ds σ)).2 := after_append ds [d] σ

/-- A period without settings at its beginning stays without, or they are loaded once: by one deed,
before which there are none. -/
theorem after_loads {ds : List Deed} (h : ∀ d ∈ ds, ¬ d.Sets) {σ : Session}
    (hσ : σ.settings = none) :
    (∀ m, m <+: ds → (after m σ).settings = none) ∨
      ∃ first d s, first ++ [d] <+: ds ∧ (∀ m, m <+: first → (after m σ).settings = none) ∧
        (after first σ).Loads s ∧ (after (first ++ [d]) σ).settings = some s := by
  induction ds generalizing σ with
  | nil =>
    refine .inl fun m hm => ?_
    obtain rfl := List.prefix_nil.1 hm
    exact hσ
  | cons d ds ih =>
    obtain ⟨hd, hds⟩ := List.forall_mem_cons.1 h
    have before (first : List Deed)
        (hfirst : ∀ m, m <+: first → (after m (d.run.run.run σ).2).settings = none) (m : List Deed)
        (hm : m <+: d :: first) : (after m σ).settings = none := by
      rcases List.prefix_cons_iff.1 hm with rfl | ⟨m', rfl, hm'⟩
      · exact hσ
      · exact hfirst m' hm'
    rcases loadsOnce hd σ hσ with hnone | ⟨s, loads, hs⟩
    · rcases ih hds hnone with never | ⟨first, e, s, hfirst, hnone, loads, hs⟩
      · exact .inl (before ds never)
      · exact .inr ⟨d :: first, e, s, (List.prefix_cons_inj d).2 hfirst, before first hnone, loads, hs⟩
    · refine .inr ⟨[], d, s, ⟨ds, rfl⟩, fun m hm => ?_, loads, hs⟩
      obtain rfl := List.prefix_nil.1 hm
      exact hσ

/-- The default sink that a deed is given in `σ`, if it asks for it and comes to have it: the sink
that is asked for, that of a helper's validator, or that of a guard that is given neither a sink nor
settings. -/
def given? (d : Deed) (σ : Session) : Option (Option SinkHandle) :=
  match d with
  | askSink => (Defaults.sink.run.run σ).1.toOption
  | validate convention _ spec label =>
    ((OneCall.validator convention spec label).run.run σ).1.toOption.map (·.sink)
  | enforce f o =>
    if o.sink.isNone && o.settings.isNone then
      ((Guard.enforce f o).run.run σ).1.toOption.map (·.validator.sink)
    else none
  | _ => none

theorem run_validate {σ ρ : Session} {convention : Convention} {spec label : Value} {v : Validator}
    (h : (OneCall.validator convention spec label).run.run σ = (.ok v, ρ)) (arguments : Value) :
    ((run (validate convention arguments spec label)).run.run σ).2 =
      ρ.observing ((Event.ofOutcome? v.name convention
        (v.schema.validate convention arguments)).toList.flatMap (ρ.footprint v.sink)) := by
  rw [run, Action.bind_run, OneCall.validate_of_validator h]
  cases v.schema.validate convention arguments <;> rfl

theorem sink_of_given {d : Deed} {σ : Session} {h : Option SinkHandle}
    (given : d.given? σ = some h) : (d.run.run.run σ).2.sink = some h := by
  have returned {α : Type} {x : Action α} {a : α} (hx : (x.run.run σ).1.toOption = some a) :
      ∃ τ, x.run.run σ = (.ok a, τ) := by
    rcases x.ok_or_error σ with ⟨b, τ, hrun⟩ | ⟨f, τ, hrun⟩
    · rw [hrun] at hx
      cases hx
      exact ⟨τ, hrun⟩
    · rw [hrun] at hx
      cases hx
  cases d with
  | askSink =>
    obtain ⟨τ, hrun⟩ := returned given
    rw [run, Action.bind_of_ok hrun]
    exact Defaults.sink_eq_ok hrun
  | validate convention arguments spec label =>
    obtain ⟨v, hv, rfl⟩ := Option.map_eq_some_iff.1 given
    obtain ⟨τ, hrun⟩ := returned hv
    rw [run_validate hrun arguments]
    show τ.sink = some v.sink
    exact OneCall.sink_of_validator hrun
  | enforce f o =>
    rw [given?] at given
    split at given
    next unset =>
      obtain ⟨g, hg, rfl⟩ := Option.map_eq_some_iff.1 given
      obtain ⟨τ, hrun⟩ := returned hg
      rw [run, Action.bind_of_ok hrun]
      simp only [Bool.and_eq_true, Option.isNone_iff_eq_none] at unset
      exact (Guard.default_of_enforce hrun unset.1 unset.2).2
    · cases given
  | _ => cases given

/-- The settings and the default sink of a period `ds` that begins in `σ`, with the settings `set`
or with none. The moments of the period are the sessions after the beginnings of `ds`. -/
structure Coherent (set : Option Settings) (ds : List Deed) (σ : Session) : Prop where
  /-- Settings that are set are in force at every moment. -/
  kept : ∀ s, set = some s → ∀ m, m <+: ds →
    Defaults.settings.run.run (after m σ) = (.ok s, after m σ)
  /-- If none are set, the first use loads them, and those are in force from then on. -/
  loaded : set = none → (∀ m, m <+: ds → (after m σ).settings = none) ∨
    ∃ first d s ρ, first ++ [d] <+: ds ∧ (∀ m, m <+: first → (after m σ).settings = none) ∧
      (Settings.fromEnvironment none true).run.run (after first σ) = (.ok s, ρ) ∧
      Defaults.settings.run.run (after first σ) = (.ok s, { ρ with settings := some s }) ∧
      ∀ m, first ++ [d] <+: m → m <+: ds →
        Defaults.settings.run.run (after m σ) = (.ok s, after m σ)
  /-- Settings that have been asked for are the same ever after. -/
  asked : ∀ first s ρ, first ++ [askSettings] <+: ds →
    Defaults.settings.run.run (after first σ) = (.ok s, ρ) →
    ∀ m, first ++ [askSettings] <+: m → m <+: ds →
      Defaults.settings.run.run (after m σ) = (.ok s, after m σ)
  /-- What is given the default sink finds it built or builds it. -/
  given : ∀ first d h, first ++ [d] <+: ds → d.given? (after first σ) = some h →
    (after (first ++ [d]) σ).sink = some h
  /-- Whatever is given the default sink is given the same one. -/
  one : ∀ first d h first' d' h', first ++ [d] <+: ds → first' ++ [d'] <+: ds →
    d.given? (after first σ) = some h → d'.given? (after first' σ) = some h' → h = h'
  /-- Once built it is not built again, and is the one that the settings in force ask for. -/
  built : ∀ first h, (after first σ).sink = some h → ∀ m, first <+: m → m <+: ds →
    Defaults.sink.run.run (after m σ) = (.ok h, after m σ) ∧
    ∃ s, Defaults.settings.run.run (after m σ) = (.ok s, after m σ) ∧
      (after m σ).sinkOf h = s.asked
  /-- A helper hands it the event of its validation. -/
  told : ∀ first convention arguments spec label v ρ,
    first ++ [validate convention arguments spec label] <+: ds →
    (OneCall.validator convention spec label).run.run (after first σ) = (.ok v, ρ) →
    (validate convention arguments spec label).given? (after first σ) = some v.sink ∧
      after (first ++ [validate convention arguments spec label]) σ =
        ρ.observing ((Event.ofOutcome? v.name convention
          (v.schema.validate convention arguments)).toList.flatMap (ρ.footprint v.sink))

section
variable {ds : List Deed} {σ : Session}

theorem keeps_between (h : ∀ d ∈ ds, ¬ d.Sets) {m m' : List Deed} (hm : m <+: m') (hm' : m' <+: ds) :
    (after m σ).Keeps (after m' σ) := by
  obtain ⟨rest, rfl⟩ := hm
  rw [after_append]
  exact after_keeps (fun d hd => h d (hm'.subset (List.mem_append_right m hd))) _

theorem sink_after_given (first : List Deed) {d : Deed} {b : Option SinkHandle}
    (given : d.given? (after first σ) = some b) : (after (first ++ [d]) σ).sink = some b := by
  rw [after_snoc]
  exact sink_of_given given

theorem sound_of_unbuilt (unbuilt : σ.sink = none) : σ.Sound := by
  intro b hb
  rw [unbuilt] at hb
  cases hb

/-- Where there is no default sink yet, a period is coherent. -/
theorem coherent (unbuilt : σ.sink = none) (h : ∀ d ∈ ds, ¬ d.Sets) :
    Coherent σ.settings ds σ where
  kept s hs m hm := Defaults.settings_of_some
    ((keeps_between h List.nil_prefix hm).settings s hs)
  loaded hnone := by
    rcases after_loads h hnone with never | ⟨first, d, s, hfirst, hbefore, loads, hs⟩
    · exact .inl never
    · have unset := hbefore first List.prefix_rfl
      obtain ⟨ρ, hρ⟩ : ∃ ρ, (Settings.fromEnvironment none true).run.run (after first σ) =
          (.ok s, ρ) := ⟨_, Prod.ext loads rfl⟩
      exact .inr ⟨first, d, s, ρ, hfirst, hbefore, hρ, Defaults.settings_of_loaded unset hρ,
        fun m hm hds => Defaults.settings_of_some ((keeps_between h hm hds).settings s hs)⟩
  asked first s ρ _ hs m hm hds := by
    refine Defaults.settings_of_some ((keeps_between h hm hds).settings s ?_)
    rw [after_snoc, run, Action.bind_of_ok hs]
    exact (Defaults.reads_settings hs).2
  given first d b _ given := sink_after_given first given
  one first d b first' d' b' hds hds' given given' := by
    -- both are the default sink at the end of the period
    have hb := (keeps_between h hds List.prefix_rfl).sink b (sink_after_given first given)
    have hb' := (keeps_between h hds' List.prefix_rfl).sink b' (sink_after_given first' given')
    exact Option.some.inj (hb.symm.trans hb')
  built first b hb m hm hds := by
    have hsink := (keeps_between h hm hds).sink b hb
    have asks := after_sound m (sound_of_unbuilt unbuilt) b hsink
    obtain ⟨s, hs, -⟩ := asks.stands
    exact ⟨Defaults.sink_of_some hsink, s, Defaults.settings_of_some hs, asks.sinkOf_eq hs (.refl _)⟩
  told first convention arguments spec label v ρ _ hv := by
    refine ⟨?_, ?_⟩
    · rw [given?, hv]
      rfl
    · rw [after_snoc, run_validate hv]

end

/-- From one setting of settings to the next, settings and default sink are coherent, and no default
sink from before the period is given in it. -/
theorem periods_coherent {start : Session} (unbuilt : start.sink = none) (before : List Deed)
    (set : Option Settings) {ds : List Deed} (h : ∀ d ∈ ds, ¬ d.Sets) :
    Coherent set ds (after (before ++ [.setSettings set]) start) ∧
      ∀ m, m <+: before → ∀ k, (after m start).sink = some (some k) →
        ∀ first d, first ++ [d] <+: ds →
          d.given? (after first (after (before ++ [.setSettings set]) start)) ≠ some (some k) := by
  have opening : (after (before ++ [.setSettings set]) start).settings = set ∧
      (after (before ++ [.setSettings set]) start).sink = none := by
    rw [after_snoc]
    exact ⟨rfl, rfl⟩
  constructor
  · have period := coherent opening.2 h
    rwa [opening.1] at period
  · intro m hm k hk first d hds given
    have old : k.id < (after m start).sinksMade :=
      (after_sound m (sound_of_unbuilt unbuilt) (some k) hk).made k rfl
    -- the settings that open the period are set behind the moment `m`
    obtain ⟨rest, rfl⟩ := hm
    have sets : ∃ e ∈ rest ++ [setSettings set] ++ (first ++ [d]), e.Sets :=
      ⟨.setSettings set, by simp, trivial⟩
    have renewed := after_renewed (Nat.le_refl (after m start).sinksMade) (.inr sets)
    have later : after (rest ++ [setSettings set] ++ (first ++ [d])) (after m start) =
        (d.run.run.run (after first (after (m ++ rest ++ [setSettings set]) start))).2 := by
      simp only [after_append]
      rfl
    rw [later] at renewed
    have new := renewed.sink k (sink_of_given given)
    omega

def loggedAndCounted : Settings := { Settings.standard with telemetry := .bool true }

def helping : Deed :=
  .validate .positional (.list [.str "x"]) (.record [("a", .str "!string")]) (.str "f")

/-- A session in which one sink has been asked for before settings are set that ask for two. -/
def twoPeriods : Session :=
  after [.setSettings (some .standard), .askSink, .setSettings (some loggedAndCounted)] .fresh

/-- A helper of the second period and whoever asks for the sink are given the same composite, and
not the sink of the first. -/
theorem periods_coherent_of_two : ∃ k h,
    (after [.setSettings (some .standard), .askSink] .fresh).sink = some (some k) ∧
    helping.given? twoPeriods = some h ∧ askSink.given? (after [helping] twoPeriods) = some h ∧
    h ≠ some k ∧ (after [helping, .askSink] twoPeriods).sinkOf h =
      .composite [.outlet (.logging Logger.violations (.int 30)),
        .outlet (.telemetry "arg_contracts")] := by
  obtain ⟨k, h, h', hk, given, given'⟩ : ∃ k h h',
      (after [.setSettings (some .standard), .askSink] .fresh).sink = some (some k) ∧
      helping.given? twoPeriods = some h ∧ askSink.given? (after [helping] twoPeriods) = some h' :=
    ⟨_, _, _, rfl, rfl, rfl⟩
  have unset : ∀ d ∈ [helping, .askSink], ¬ d.Sets :=
    List.forall_mem_cons.2 ⟨id, List.forall_mem_singleton.2 id⟩
  have first : [] ++ [helping] <+: [helping, .askSink] := ⟨[.askSink], rfl⟩
  have unbuilt : Session.fresh.sink = none := rfl
  obtain ⟨period, renewed⟩ := periods_coherent unbuilt [.setSettings (some .standard), .askSink]
    (some loggedAndCounted) unset
  obtain rfl := period.one [] helping h [helping] .askSink h' first List.prefix_rfl given given'
  have there := period.given [] helping h first given
  obtain ⟨-, s, hs, stands⟩ := period.built _ h there _ first List.prefix_rfl
  have inForce := period.kept loggedAndCounted rfl _ List.prefix_rfl
  rw [hs] at inForce
  cases inForce
  refine ⟨k, h, hk, given, given', ?_, stands⟩
  rintro rfl
  exact renewed _ List.prefix_rfl k hk [] helping first given

end Deed

end CallContract
