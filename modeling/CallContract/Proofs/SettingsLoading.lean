import CallContract.Proofs.Reporting
import CallContract.Defaults

/-!
# Loading settings

Asking for the default settings loads them from the environment the first time. That can set
variables and warns of texts that are no flags, but it makes no sink, adds to no composite and
leaves the current span alone (`Defaults.reads_settings`). Settings that are there are returned as
they are. What has been observed in a session has no bearing on its settings
(`Defaults.settings_observing`).
-/

namespace CallContract

namespace Session

/-- `τ` is what reading settings makes of `σ`. -/
structure Reads (σ τ : Session) : Prop where
  composites : τ.composites = σ.composites
  sinksMade : τ.sinksMade = σ.sinksMade
  sink : τ.sink = σ.sink
  inSpan : τ.inSpan = σ.inSpan
  warned : ∃ texts : List String,
    τ.trace = σ.trace ++ texts.map (.logged Logger.settings .warning)

namespace Reads
variable {σ τ υ : Session}

theorem refl (σ : Session) : σ.Reads σ :=
  ⟨rfl, rfl, rfl, rfl, [], (List.append_nil _).symm⟩

theorem trans (h : σ.Reads τ) (h' : τ.Reads υ) : σ.Reads υ where
  composites := h'.composites.trans h.composites
  sinksMade := h'.sinksMade.trans h.sinksMade
  sink := h'.sink.trans h.sink
  inSpan := h'.inSpan.trans h.inSpan
  warned := by
    obtain ⟨texts, hτ⟩ := h.warned
    obtain ⟨texts', hυ⟩ := h'.warned
    exact ⟨texts ++ texts', by rw [hυ, hτ, List.map_append, List.append_assoc]⟩

theorem sinkOf_eq (h : σ.Reads τ) (sink : Option SinkHandle) : τ.sinkOf sink = σ.sinkOf sink := by
  rw [sinkOf, sinkOf, h.sinksMade]
  exact sinkTo_congr h.composites _ sink

theorem footprint_eq (h : σ.Reads τ) (sink : Option SinkHandle) :
    τ.footprint sink = σ.footprint sink := by
  funext e
  cases sink with
  | none => rfl
  | some sink =>
    simp only [footprint]
    rw [h.sinkOf_eq, h.inSpan]

end Reads

end Session

namespace Action

variable {α β : Type}

/-- What every action leaves of the session before it is left by one behind the other, too. -/
theorem bind_leaves {R : Session → Session → Prop}
    (trans : ∀ {σ τ υ : Session}, R σ τ → R τ υ → R σ υ) {x : Action α} {k : α → Action β}
    (hx : ∀ σ, R σ (x.run.run σ).2) (hk : ∀ a σ, R σ ((k a).run.run σ).2) (σ : Session) :
    R σ ((x >>= k).run.run σ).2 := by
  have hσ := hx σ
  rw [bind_run]
  generalize x.run.run σ = ran at hσ
  obtain ⟨outcome, τ⟩ := ran
  cases outcome with
  | error f => exact hσ
  | ok a => exact trans hσ (hk a τ)

/-- However the action ends, `R` relates the session before it to the one behind it. -/
def Leaves (R : Session → Session → Prop) (x : Action α) : Prop := ∀ σ : Session, R σ (x.run.run σ).2

/-- However the action ends, it does no more to a session than reading settings does. -/
def OnlyReads (x : Action α) : Prop := ∀ σ : Session, σ.Reads (x.run.run σ).2

/-- From sessions that differ in their traces at most the action ends in the same way, in sessions
that differ in their traces at most. -/
def IgnoresTrace (x : Action α) : Prop := ∀ (σ : Session) trace, ∃ outcome τ trace',
  x.run.run σ = (outcome, τ) ∧
    x.run.run { σ with trace := trace } = (outcome, { τ with trace := trace' })

namespace IgnoresTrace

theorem of_get {k : Session → Action α} (hk : ∀ σ, (k σ).IgnoresTrace)
    (same : ∀ (σ : Session) trace, k { σ with trace := trace } = k σ) : (get >>= k).IgnoresTrace := by
  intro σ trace
  have hget (τ : Session) : (get >>= k).run.run τ = (k τ).run.run τ := rfl
  simp only [hget, same σ trace]
  exact hk σ σ trace

theorem pure (a : α) : (pure a : Action α).IgnoresTrace :=
  fun σ trace => ⟨.ok a, σ, trace, rfl, rfl⟩

theorem bind {x : Action α} {k : α → Action β} (hx : x.IgnoresTrace)
    (hk : ∀ a, (k a).IgnoresTrace) : (x >>= k).IgnoresTrace := by
  intro σ trace
  obtain ⟨outcome, τ, trace', hσ, hσ'⟩ := hx σ trace
  rw [bind_run, bind_run, hσ, hσ']
  cases outcome with
  | error f => exact ⟨.error f, τ, trace', rfl, rfl⟩
  | ok a => exact hk a τ trace'

theorem forM {l : List α} {x : α → Action Unit} (h : ∀ a, (x a).IgnoresTrace) :
    (l.forM x).IgnoresTrace := by
  induction l with
  | nil => exact .pure ()
  | cons a l ih => exact (h a).bind fun _ => ih

theorem log (logger : String) (level : Level) (text : String) :
    (log logger level text).IgnoresTrace :=
  fun _ trace => ⟨.ok (), _, trace ++ [.logged logger level text], rfl, rfl⟩

theorem setVariable (name value : String) : (setVariable name value).IgnoresTrace := by
  intro σ trace
  unfold Action.setVariable
  split
  · exact ⟨.error (.unsettable _), σ, trace, rfl, rfl⟩
  · exact ⟨.ok (), _, trace, rfl, rfl⟩

end IgnoresTrace

end Action

namespace Session

/-- `R` relates a session to what loading settings makes of it: variables are set, warnings are
logged. -/
structure LeftByLoading (R : Session → Session → Prop) : Prop where
  refl : ∀ σ, R σ σ
  trans : ∀ {σ τ υ : Session}, R σ τ → R τ υ → R σ υ
  set : ∀ (σ : Session) (name value : String),
    R σ { σ with environment := σ.environment.insert name value }
  warned : ∀ (σ : Session) (text : String), R σ (σ.observing [.logged Logger.settings .warning text])

namespace LeftByLoading

variable {R : Session → Session → Prop} {α β : Type}

theorem bind (hR : LeftByLoading R) {x : Action α} {k : α → Action β} (hx : x.Leaves R)
    (hk : ∀ a, (k a).Leaves R) : (x >>= k).Leaves R :=
  Action.bind_leaves (R := R) hR.trans hx hk

theorem same (hR : LeftByLoading R) {x : Action α} (h : ∀ σ, (x.run.run σ).2 = σ) : x.Leaves R := by
  intro σ
  rw [h σ]
  exact hR.refl σ

theorem setVariable (hR : LeftByLoading R) (name value : String) :
    (Action.setVariable name value).Leaves R := by
  intro σ
  unfold Action.setVariable
  split
  · exact hR.refl σ
  · exact hR.set σ name value

end LeftByLoading

theorem Reads.leftByLoading : LeftByLoading Reads where
  refl := Reads.refl
  trans h h' := h.trans h'
  set _ _ _ := ⟨rfl, rfl, rfl, rfl, [], (List.append_nil _).symm⟩
  warned _ text := ⟨rfl, rfl, rfl, rfl, [text], rfl⟩

end Session

namespace Settings

section
variable {R : Session → Session → Prop}

theorem loadFile_leaves (hR : Session.LeftByLoading R) (path? : Option String) :
    (loadFile path?).Leaves R := by
  refine hR.bind (hR.same fun _ => rfl) fun s => ?_
  induction s.loader s.environment path? with
  | nil => exact hR.same fun _ => rfl
  | cons entry rest ih => exact hR.bind (hR.setVariable entry.1 entry.2) fun _ => ih

theorem flagFromEnvironment_leaves (hR : Session.LeftByLoading R) (setting : String)
    (default : Bool) : (flagFromEnvironment setting default).Leaves R := by
  refine hR.bind (hR.same fun _ => rfl) fun s => ?_
  split
  · exact hR.same fun _ => rfl
  next raw _ =>
    split
    · exact hR.same fun _ => rfl
    · exact hR.same fun _ => rfl
    · exact fun σ => hR.warned σ (flagWarning setting raw)

/-- However it ends, loading settings from the environment sets variables and warns, and does no
more. -/
theorem fromEnvironment_leaves (hR : Session.LeftByLoading R) (path? : Option String)
    (load : Bool) : (fromEnvironment path? load).Leaves R := by
  unfold fromEnvironment
  split
  on_goal 1 => refine hR.bind (loadFile_leaves hR _) fun _ => ?_
  -- the flags are read in the same way with a file and without
  all_goals
    refine hR.bind (flagFromEnvironment_leaves hR _ _) fun _ => ?_
    exact hR.bind (flagFromEnvironment_leaves hR _ _) fun _ =>
      hR.bind (flagFromEnvironment_leaves hR _ _) fun _ => hR.same fun _ => rfl

end

theorem fromEnvironment_onlyReads (path? : Option String) (load : Bool) :
    (fromEnvironment path? load).OnlyReads :=
  fromEnvironment_leaves Session.Reads.leftByLoading path? load

theorem fromEnvironment_settings (path? : Option String) (load : Bool) (σ : Session) :
    ((fromEnvironment path? load).run.run σ).2.settings = σ.settings :=
  fromEnvironment_leaves (R := fun σ τ => τ.settings = σ.settings)
    { refl := fun _ => rfl
      trans := fun h h' => h'.trans h
      set := fun _ _ _ => rfl
      warned := fun _ _ => rfl } path? load σ

theorem loadFile_ignoresTrace (path? : Option String) : (loadFile path?).IgnoresTrace :=
  .of_get (fun _ => .forM fun entry => .setVariable entry.1 entry.2) fun _ _ => rfl

theorem flagFromEnvironment_ignoresTrace (setting : String) (default : Bool) :
    (flagFromEnvironment setting default).IgnoresTrace := by
  refine Action.IgnoresTrace.of_get (fun σ => ?_) fun σ trace => rfl
  split
  · exact .pure _
  · split
    · exact .pure _
    · exact .pure _
    · exact (Action.IgnoresTrace.log _ _ _).bind fun _ => .pure _

theorem labelFromEnvironment_ignoresTrace : labelFromEnvironment.IgnoresTrace :=
  .of_get (fun _ => .pure _) fun _ _ => rfl

theorem fromEnvironment_ignoresTrace (path? : Option String) (load : Bool) :
    (fromEnvironment path? load).IgnoresTrace := by
  unfold fromEnvironment
  split
  on_goal 1 => refine (loadFile_ignoresTrace _).bind fun _ => ?_
  all_goals
    refine (flagFromEnvironment_ignoresTrace _ _).bind fun _ => ?_
    exact (flagFromEnvironment_ignoresTrace _ _).bind fun _ =>
      (flagFromEnvironment_ignoresTrace _ _).bind fun _ =>
        labelFromEnvironment_ignoresTrace.bind fun _ => .pure _

end Settings

namespace Defaults

theorem settings_of_some {σ : Session} {s : Settings} (h : σ.settings = some s) :
    settings.run.run σ = (.ok s, σ) := by
  have hget : (get : Action Session).run.run σ = (.ok σ, σ) := rfl
  rw [settings, Action.bind_of_ok hget, h]
  rfl

theorem settings_of_none {σ : Session} (h : σ.settings = none) :
    settings.run.run σ =
      match (Settings.fromEnvironment none true).run.run σ with
      | (.ok s, ρ) => (.ok s, { ρ with settings := some s })
      | (.error f, ρ) => (.error f, ρ) := by
  have hget : (get : Action Session).run.run σ = (.ok σ, σ) := rfl
  rw [settings, Action.bind_of_ok hget, h]
  simp only [Action.bind_run]
  generalize (Settings.fromEnvironment none true).run.run σ = loaded
  obtain ⟨outcome, ρ⟩ := loaded
  cases outcome <;> rfl

theorem reads_settings {σ τ : Session} {s : Settings} (h : settings.run.run σ = (.ok s, τ)) :
    σ.Reads τ ∧ τ.settings = some s := by
  cases hs : σ.settings with
  | some s' =>
    rw [settings_of_some hs] at h
    cases h
    exact ⟨.refl σ, hs⟩
  | none =>
    rw [settings_of_none hs] at h
    have hloaded := Settings.fromEnvironment_onlyReads none true σ
    generalize (Settings.fromEnvironment none true).run.run σ = loaded at h hloaded
    obtain ⟨outcome, υ⟩ := loaded
    cases outcome with
    | error f => cases h
    | ok s' =>
      cases h
      exact ⟨⟨hloaded.composites, hloaded.sinksMade, hloaded.sink, hloaded.inSpan,
        hloaded.warned⟩, rfl⟩

theorem settings_observing {σ ρ : Session} {outcome : Except Failure Settings}
    (h : settings.run.run σ = (outcome, ρ)) (seen : List Observation) :
    ∃ τ, settings.run.run (σ.observing seen) = (outcome, τ) := by
  have ignores : settings.IgnoresTrace := by
    refine Action.IgnoresTrace.of_get (fun τ => ?_) fun τ trace => rfl
    split
    · exact .pure _
    · exact (Settings.fromEnvironment_ignoresTrace none true).bind fun s =>
        fun τ trace => ⟨.ok s, _, trace, rfl, rfl⟩
  obtain ⟨outcome', τ, trace, hσ, hseen⟩ := ignores σ (σ.trace ++ seen)
  rw [h] at hσ
  cases hσ
  exact ⟨_, hseen⟩

end Defaults

end CallContract
