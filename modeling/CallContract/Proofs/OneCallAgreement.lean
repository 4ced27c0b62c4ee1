import CallContract.Proofs.GuardSinks

/-!
# One call and two

A helper compiles a specification and validates with it in one call. Under a label that is not empty
that is the same as compiling first and validating then. The empty label counts as none and gives
way to the default label. There both ways still end alike and report the same exactly if the default
label is the same label (`OneCall.helpers_agree_iff`).
-/

namespace CallContract

theorem Compiler.run_outcome (spec label : Value) (σ τ : Session) :
    ((run spec label).run.run σ).1 = ((run spec label).run.run τ).1 := by
  unfold run
  cases compile spec label with
  | error f => rfl
  | ok s =>
    have noted (υ : Session) : ((liftM (note label s) >>= fun text =>
        Action.log Logger.compiler .debug text >>= fun _ => pure s : Action Schema).run.run υ).1 =
          (note label s).map fun _ => s := by
      cases note label s <;> rfl
    exact (noted σ).trans (noted τ).symm

theorem Defaults.sink_of_settings {σ ρ : Session} {s : Settings}
    (hs : settings.run.run σ = (.ok s, ρ)) : ∃ h τ, sink.run.run σ = (.ok h, τ) := by
  cases hσ : σ.sink with
  | some h => exact ⟨h, σ, sink_of_some hσ⟩
  | none =>
    obtain ⟨h, τ, hbuilt, -⟩ := s.buildSink_run ρ
    exact ⟨h, _, sink_of_none hσ hs hbuilt⟩

namespace OneCall

/-- Compiles a specification and makes a validator of it that reports to the default sink. -/
def separately (spec label : Value) : Action Validator := do
  let schema ← Compiler.run spec label
  let sink ← Defaults.sink
  return { schema, sink }

/-- Validates arguments with the validator that `make` makes. -/
def validatedBy (make : Action Validator) (convention : Convention) (arguments : Value) :
    Action Validator := do
  let v ← make
  v.run convention arguments
  return v

/-- How the validation ends, and the event that it hands to the sink of its validator. -/
def told (make : Action Validator) (convention : Convention) (arguments : Value) (σ : Session) :
    Except Failure Unit × Option Event :=
  match (make.run.run σ).1 with
  | .error f => (.error f, none)
  | .ok v =>
    (v.schema.validate convention arguments,
      Event.ofOutcome? v.name convention (v.schema.validate convention arguments))

section
variable {α : Type} {make : Action Validator} {convention : Convention} {spec label : Value}
  {arguments : Value} {σ ρ : Session}

theorem told_of_made {v : Validator} (h : make.run.run σ = (.ok v, ρ)) :
    told make convention arguments σ = (v.schema.validate convention arguments,
      Event.ofOutcome? v.name convention (v.schema.validate convention arguments)) := by
  rw [told, h]

theorem told_of_unmade {f : Failure} (h : make.run.run σ = (.error f, ρ)) :
    told make convention arguments σ = (.error f, none) := by
  rw [told, h]

theorem validatedBy_of_made {v : Validator} (h : make.run.run σ = (.ok v, ρ)) :
    (validatedBy make convention arguments).run.run σ =
      ((told make convention arguments σ).1.map fun _ => v,
        ρ.observing ((told make convention arguments σ).2.toList.flatMap (ρ.footprint v.sink))) := by
  rw [validatedBy, Action.bind_of_ok h, Action.bind_run, v.run_run, told_of_made h]
  cases v.schema.validate convention arguments <;> rfl

theorem validatedBy_outcome (make : Action Validator) (convention : Convention) (arguments : Value)
    (σ : Session) : ((validatedBy make convention arguments).run.run σ).1.map (fun _ => ()) =
      (told make convention arguments σ).1 := by
  rcases make.ok_or_error σ with ⟨v, ρ, h⟩ | ⟨f, ρ, h⟩
  · rw [validatedBy_of_made h]
    cases (told make convention arguments σ).1 <;> rfl
  · rw [validatedBy, Action.bind_of_error h, told_of_unmade h]
    rfl

theorem told_bind {x : Action α} {k : α → Action Validator} {a : α}
    (hx : x.run.run σ = (.ok a, ρ)) :
    told (x >>= k) convention arguments σ = told (k a) convention arguments ρ := by
  rw [told, told, Action.bind_of_ok hx]

theorem validator_eq (h : spec.isMapping = true) (convention : Convention) (label : Value) :
    validator convention spec label = labelOf label >>= separately spec :=
  validator_of_mapping h convention label

/-- Where there are settings to be had, what has been done before makes no difference. -/
theorem told_separately {s : Settings} (hs : Defaults.settings.run.run σ = (.ok s, ρ)) :
    told (separately spec label) convention arguments σ =
      match ((Compiler.run spec label).run.run σ).1 with
      | .error f => (.error f, none)
      | .ok schema => (schema.validate convention arguments,
          Event.ofOutcome? schema.name convention (schema.validate convention arguments)) := by
  rcases (Compiler.run spec label).ok_or_error σ with ⟨schema, τ, hschema⟩ | ⟨f, τ, hschema⟩
  · rw [hschema]
    obtain ⟨seen, rfl⟩ := (Compiler.run_onlyObserves _ _).observed hschema
    obtain ⟨υ, hs'⟩ := Defaults.settings_observing hs seen
    obtain ⟨h, υ', hsink⟩ := Defaults.sink_of_settings hs'
    refine told_of_made (v := { schema, sink := h }) (ρ := υ') ?_
    rw [separately, Action.bind_of_ok hschema, Action.bind_of_ok hsink]
    rfl
  · rw [hschema]
    exact told_of_unmade (Action.bind_of_error hschema)

/-- A helper ends and reports as compiling first does, under the default label in place of an empty
one. -/
theorem told_validator {s : Settings} (hs : Defaults.settings.run.run σ = (.ok s, ρ))
    (hspec : spec.isMapping = true) :
    told (validator convention spec label) convention arguments σ =
      told (separately spec (label.orElse s.defaultLabel)) convention arguments σ := by
  rw [validator_eq hspec, labelOf, Value.orElse]
  cases label.truthy with
  | true => rfl
  | false =>
    have hchosen : ((·.defaultLabel) <$> Defaults.settings : Action Value).run.run σ =
        (.ok s.defaultLabel, ρ) := by
      rw [← bind_pure_comp, Action.bind_of_ok hs]
      rfl
    rw [if_neg Bool.false_ne_true, if_neg Bool.false_ne_true, told_bind hchosen,
      told_separately hs, told_separately (Defaults.settings_of_some (Defaults.reads_settings hs).2),
      Compiler.run_outcome spec s.defaultLabel ρ σ]

end

/-- Under a label that stands for true a helper is compiling first and validating then. -/
theorem validate_of_label {label : Value} (hlabel : label.truthy = true) {spec : Value}
    (hspec : spec.isMapping = true) (convention : Convention) (arguments : Value) :
    validate convention arguments spec label =
      validatedBy (separately spec label) convention arguments := by
  show validatedBy (validator convention spec label) convention arguments = _
  rw [validator_eq hspec, labelOf, if_pos hlabel]
  rfl

theorem empty_of_text {label : Value} (hlabel : label.text?.isSome) (h : label.truthy = false) :
    label = .str "" ∨ label = .text "" := by
  cases label with
  | str t =>
    simp only [Value.truthy, Bool.not_eq_false', String.isEmpty_iff] at h
    exact .inl (by rw [h])
  | text t =>
    simp only [Value.truthy, Bool.not_eq_false', String.isEmpty_iff] at h
    exact .inr (by rw [h])
  | _ => cases hlabel

/-- Compiling first tells specifications apart that are refused, also where there are no settings to
be had. -/
theorem refusals_of_empty {label : Value} (h : label = .str "" ∨ label = .text "") (σ : Session) :
    ∃ f f', f ≠ f' ∧
      (Compiler.run (.record [("a", .int 1)]) label).run.run σ = (.error f, σ) ∧
      (Compiler.run (.record [("b", .int 1)]) label).run.run σ = (.error f', σ) := by
  rcases h with rfl | rfl
  all_goals
    refine ⟨_, _, fun same => ?_, rfl, rfl⟩
    exact absurd (congrArg Failure.message same) (by decide)

theorem accepted_of_empty {label : Value} (h : label = .str "" ∨ label = .text "") (σ : Session) :
    ∃ schema, ((Compiler.run (.record [("a", .str "string")]) label).run.run σ).1 = .ok schema ∧
      schema.name = label ∧ schema.validate .positional (.list []) = .ok () := by
  rcases h with rfl | rfl
  · exact ⟨_, rfl, rfl, rfl⟩
  · exact ⟨_, rfl, rfl, rfl⟩

/-- Where a helper agrees with compiling first under an empty label, there are settings to be had. -/
theorem settings_of_agree {label : Value} (empty : label = .str "" ∨ label = .text "") {σ : Session}
    (agree : ∀ spec, spec.isMapping = true →
      told (validator .positional spec label) .positional .null σ =
        told (separately spec label) .positional .null σ) :
    ∃ s ρ, Defaults.settings.run.run σ = (.ok s, ρ) := by
  refine (Defaults.settings.ok_or_error σ).resolve_right ?_
  rintro ⟨f, ρ, hs⟩
  have untrue : label.truthy = false := by rcases empty with rfl | rfl <;> rfl
  -- the helper ends as the loading does, whatever the specification
  have fails {spec : Value} (hspec : spec.isMapping = true) :
      (validator .positional spec label).run.run σ = (.error f, ρ) := by
    rw [validator_eq hspec, labelOf, untrue, if_neg Bool.false_ne_true, ← bind_pure_comp]
    exact Action.bind_of_error (Action.bind_of_error hs)
  have refused {spec : Value} {f' : Failure} (hspec : spec.isMapping = true)
      (h : (Compiler.run spec label).run.run σ = (.error f', σ)) : f = f' := by
    have unmade : (separately spec label).run.run σ = (.error f', σ) := Action.bind_of_error h
    have same := agree spec hspec
    rw [told_of_unmade (fails hspec), told_of_unmade unmade] at same
    cases same
    rfl
  obtain ⟨f₁, f₂, hne, h₁, h₂⟩ := refusals_of_empty empty σ
  exact hne ((refused rfl h₁).symm.trans (refused rfl h₂))

theorem label_of_told {label label' : Value} (empty : label = .str "" ∨ label = .text "")
    {σ ρ : Session} {s : Settings} (hs : Defaults.settings.run.run σ = (.ok s, ρ))
    (same : told (separately (.record [("a", .str "string")]) label') .positional (.list []) σ =
      told (separately (.record [("a", .str "string")]) label) .positional (.list []) σ) :
    label' = label := by
  obtain ⟨schema, hschema, hname, haccepts⟩ := accepted_of_empty empty σ
  rw [told_separately hs, told_separately hs, hschema] at same
  rcases (Compiler.run (.record [("a", .str "string")]) label').ok_or_error σ with
    ⟨schema', τ, hrun⟩ | ⟨f, τ, hrun⟩
  · rw [hrun] at same
    obtain ⟨ended, reported⟩ := Prod.mk.inj same
    rw [ended, haccepts] at reported
    have names : schema'.name = schema.name := congrArg Event.contract (Option.some.inj reported)
    have compiled := (Compiler.compiled_of_compile (Compiler.compile_of_run hrun)).2
    rw [← compiled.name_eq, names, hname]
  · rw [hrun] at same
    obtain ⟨ended, -⟩ := Prod.mk.inj same
    rw [haccepts] at ended
    cases ended

/-- A helper and compiling first and validating then end alike and report the same under a label
that is not empty, where they are the same, and under the empty one exactly if it is the default
label. In every case the helper is compiling first, under the default label in place of an empty
one. What is `told` of a validation is how it ends and what its sink is handed. -/
theorem helpers_agree_iff {label : Value} (hlabel : label.text?.isSome) (σ : Session) :
    ((∀ convention arguments spec, spec.isMapping = true →
        told (validator convention spec label) convention arguments σ =
          told (separately spec label) convention arguments σ) ↔
      label.truthy = true ∨
        ∃ s ρ, Defaults.settings.run.run σ = (.ok s, ρ) ∧ s.defaultLabel = label) ∧
    (label.truthy = true → ∀ convention arguments spec, spec.isMapping = true →
      validate convention arguments spec label =
        validatedBy (separately spec label) convention arguments) ∧
    (∀ s ρ, Defaults.settings.run.run σ = (.ok s, ρ) →
      ∀ convention arguments spec, spec.isMapping = true →
        told (validator convention spec label) convention arguments σ =
          told (separately spec (label.orElse s.defaultLabel)) convention arguments σ) ∧
    ∀ make convention arguments,
      ((validatedBy make convention arguments).run.run σ).1.map (fun _ => ()) =
        (told make convention arguments σ).1 ∧
      ∀ v ρ, make.run.run σ = (.ok v, ρ) →
        ((validatedBy make convention arguments).run.run σ).2 = ρ.observing
          ((told make convention arguments σ).2.toList.flatMap (ρ.footprint v.sink)) := by
  refine ⟨⟨fun agree => ?_, ?_⟩, fun htrue convention arguments spec hspec => ?_,
    fun s ρ hs convention arguments spec hspec => told_validator hs hspec,
    fun make convention arguments => ⟨validatedBy_outcome make convention arguments σ,
      fun v ρ hv => by rw [validatedBy_of_made hv]⟩⟩
  · cases htrue : label.truthy with
    | true => exact .inl rfl
    | false =>
      have empty := empty_of_text hlabel htrue
      obtain ⟨s, ρ, hs⟩ := settings_of_agree empty (agree .positional .null)
      refine .inr ⟨s, ρ, hs, label_of_told empty hs ?_⟩
      have same := agree .positional (.list []) (.record [("a", .str "string")]) rfl
      rwa [told_validator hs rfl, Value.orElse, htrue, if_neg Bool.false_ne_true] at same
  · rintro (htrue | ⟨s, ρ, hs, rfl⟩) convention arguments spec hspec
    · rw [validator_eq hspec, labelOf, if_pos htrue]
      rfl
    · rw [told_validator hs hspec, Value.orElse, ite_self]
  · exact validate_of_label htrue hspec convention arguments

def unlabelled : Settings := { Settings.standard with defaultLabel := .str "" }

/-- Where the default label is empty itself, an empty label makes no difference. -/
theorem helpers_agree_of_unlabelled : ∃ σ message e,
    Deed.after [.setSettings (some unlabelled)] .fresh = σ ∧
    told (separately (.record [("a", .str "string")]) (.str "")) .positional (.list [.int 1]) σ =
      (.error (.violation (.str "") message (.mismatch (.str "a") (.str "string") (.int 1))),
        some e) ∧
    e.contract = .str "" ∧
    told (validator .positional (.record [("a", .str "string")]) (.str "")) .positional
        (.list [.int 1]) σ =
      (.error (.violation (.str "") message (.mismatch (.str "a") (.str "string") (.int 1))),
        some e) := by
  obtain ⟨σ, message, e, hσ, hsettings, htold, he⟩ : ∃ σ message e,
      Deed.after [.setSettings (some unlabelled)] .fresh = σ ∧
      Defaults.settings.run.run σ = (.ok unlabelled, σ) ∧
      told (separately (.record [("a", .str "string")]) (.str "")) .positional (.list [.int 1]) σ =
        (.error (.violation (.str "") message (.mismatch (.str "a") (.str "string") (.int 1))),
          some e) ∧ e.contract = .str "" := ⟨_, _, _, rfl, rfl, rfl, rfl⟩
  have label : (Value.str "").text?.isSome := rfl
  obtain ⟨agree, -⟩ := helpers_agree_iff label σ
  refine ⟨σ, message, e, hσ, htold, he, ?_⟩
  rw [agree.2 (.inr ⟨unlabelled, σ, hsettings, rfl⟩) .positional (.list [.int 1]) _ rfl, htold]

/-- Under the standard settings a helper that is given the empty label refuses under another one. -/
theorem helpers_disagree : ∃ σ message message' τ τ',
    Deed.after [.setSettings (some .standard)] .fresh = σ ∧
    (validate .positional (.list [.int 1]) (.record [("a", .str "string")]) (.str "")).run.run σ =
      (.error (.violation (.str "<>") message (.mismatch (.str "a") (.str "string") (.int 1))), τ) ∧
    (validatedBy (separately (.record [("a", .str "string")]) (.str "")) .positional
        (.list [.int 1])).run.run σ =
      (.error (.violation (.str "") message' (.mismatch (.str "a") (.str "string") (.int 1))), τ') :=
  ⟨_, _, _, _, _, rfl, rfl, rfl⟩

end OneCall

end CallContract
