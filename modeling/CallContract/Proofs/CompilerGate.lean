import CallContract.Proofs.Validation
import CallContract.Proofs.WellFormed

/-!
# The gate of the compiler

What the compiler finds to be wrong with its arguments: nothing given for one of them, a violation
of its own contract, or a defect of the specification (`Compiler.finding`). It returns a schema if
it finds nothing, which is so for a well-formed specification under a label that is a text or
`undefined`, and otherwise it ends in a configuration error, unless a value that the error shows
cannot be shown (`Compiler.gate_exact_iff`).
-/

namespace CallContract

namespace Value

/-- The value as running text shows it, if it can be shown. -/
def shownText (v : Value) : String :=
  match v.display with
  | .ok s => s
  | .error _ => ""

theorem shownText_of_text {v : Value} {s : String} (h : v.text? = some s) : v.shownText = s := by
  cases v with
  | str | text => exact Option.some.inj h
  | _ => cases h

theorem hasTag_string (v : Value) : v.hasTag Tag.string.name = v.text?.isSome := by
  cases v with
  | mapping kind _ => cases kind <;> rfl
  | cls c => cases c <;> rfl
  | creature _ species _ => cases species <;> rfl
  | _ => rfl

theorem hasTag_object_of_entries {v : Value} (h : v.entries?.isSome) :
    v.hasTag Tag.object.name = true := by
  cases v with
  | mapping kind _ => cases kind <;> rfl
  | _ => cases h

end Value

/-- The finding as one of a wrong shape, which takes the place of a violation. -/
def Finding.asMalformed (x : Finding) : Finding :=
  match x.offence with
  | .violation _ _ => .malformed x.shown
  | _ => x

/-- What is wrong with a value in place of one that is counted under a tag is a violation, whose
report shows the schema, the parameter and the value at most. -/
theorem Schema.findInParam_violation {s : Schema} {supplied : Payload} {name v : Value}
    {tag : String} (checkBags : Bool) (hv : supplied.get? name = some v)
    (ht : s.types.get? name = some (.primitive tag)) :
    Finding.Always (fun x => (∃ contract what, x.offence = .violation contract what) ∧
        (s.name.Shown → name.Shown → v.Shown → x.IsShown))
      (s.findInParam supplied false checkBags name) := by
  rcases v.null_or_undefined_or_there with rfl | rfl | hthere
  · simp only [findInParam, hv]
    exact .none
  · simp only [findInParam, hv]
    exact .none
  · rw [findInParam_of_value _ _ hv hthere, ht]
    simp only [findInValue]
    split
    · exact .none
    · refine .some ⟨⟨_, _, rfl⟩, fun hs hn hv => ?_⟩
      split <;> simp [Finding.IsShown, Finding.violation, hs, hn, hv]

theorem Schema.findInParam_eq_none_iff {s : Schema} {supplied : Payload} {name v : Value}
    {tag : String} (checkBags : Bool) (hv : supplied.get? name = some v)
    (ht : s.types.get? name = some (.primitive tag)) :
    s.findInParam supplied false checkBags name = none ↔
      v = .null ∨ v = .undefined ∨ v.hasTag tag = true := by
  rcases v.null_or_undefined_or_there with rfl | rfl | hthere
  · simp [findInParam, hv]
  · simp [findInParam, hv]
  · rw [findInParam_of_value _ _ hv hthere, ht]
    simp [findInValue, hthere.1, hthere.2]

namespace Compiler

def findInArguments (spec label : Value) : Option Finding :=
  (contract.findPositional (.list [spec, label]) true).map Finding.asMalformed

def findInSpecification (spec label : Value) : Option Finding :=
  match spec.entries? with
  | none => some (.malformed [label])
  | some entries => Specification.findDeep label label.shownText entries

def finding (spec label : Value) : Option Finding :=
  match label with
  | .null => some (.malformed [])
  | _ =>
    match spec with
    | .null => some (.malformed [])
    | _ => (findInArguments spec label).or (findInSpecification spec label)

variable {spec label : Value}

theorem reports_selfCheck : Reports (findInArguments spec label) (selfCheck spec label) := by
  have h : Reports (contract.finding .positional (.list [spec, label]))
      (contract.validate .positional (.list [spec, label])) := Schema.reports_validate .positional rfl
  simp only [Schema.finding, Schema.validate] at h
  rw [findInArguments, selfCheck]
  generalize contract.findPositional _ _ = found at h ⊢
  generalize contract.validatePositional _ = outcome at h ⊢
  cases h with
  | passes a => exact .passes a
  | @ends x f h =>
    obtain ⟨offence, shown⟩ := x
    rcases h with ⟨hs, ho⟩ | ⟨hn, text, rfl⟩
    · cases offence with
      | untestable =>
        obtain rfl : f = .untestableClass := ho
        exact .ends (.inl ⟨hs, rfl⟩)
      | untyped =>
        obtain ⟨name, rfl⟩ := ho
        exact .ends (.inl ⟨hs, name, rfl⟩)
      | malformed =>
        obtain ⟨message, details, cause, rfl⟩ := ho
        exact .ends (.inl ⟨hs, message, details, cause, rfl⟩)
      | violation label what =>
        obtain ⟨message, rfl⟩ := ho
        exact .ends (.inl ⟨hs, message, what.details, some what, rfl⟩)
    · cases offence with
      | violation => exact .ends (.inr ⟨hn, text, rfl⟩)
      | _ => exact .ends (.inr ⟨hn, text, rfl⟩)

theorem supplied_spec_map (spec label : Value) :
    (Arguments.pair contract [spec, label]).get? (.str "spec_map") = some spec := rfl

theorem supplied_label (spec label : Value) :
    (Arguments.pair contract [spec, label]).get? (.str "label") = some label := rfl

theorem expects_object :
    contract.types.get? (.str "spec_map") = some (.primitive Tag.object.name) := rfl

theorem expects_string : contract.types.get? (.str "label") = some (.primitive Tag.string.name) := rfl

theorem findPositional_contract : contract.findPositional (.list [spec, label]) true =
    contract.findInTypes (Arguments.pair contract [spec, label]) false true := by
  have missing : contract.findMissing (Arguments.pair contract [spec, label]) = none := rfl
  have surplus : contract.findSurplus ([spec, label].length : Nat) = none := rfl
  rw [show contract.findPositional (.list [spec, label]) true =
      contract.findInValues [spec, label] true from rfl, Schema.findInValues, missing, surplus,
    Option.none_or, Option.or_none]

/-- The compiler's contract lets `undefined` pass in place of a specification and of a label. -/
theorem findInArguments_eq_none_iff : findInArguments spec label = none ↔
    (spec = .null ∨ spec = .undefined ∨ spec.hasTag Tag.object.name = true) ∧
      (label = .null ∨ label = .undefined ∨ label.text?.isSome) := by
  rw [findInArguments, Option.map_eq_none_iff, findPositional_contract, Schema.findInTypes,
    List.findSome?_eq_none_iff, ← label.hasTag_string,
    ← Schema.findInParam_eq_none_iff true (supplied_spec_map spec label) expects_object,
    ← Schema.findInParam_eq_none_iff true (supplied_label spec label) expects_string]
  exact ⟨fun h => ⟨h _ (by simp [contract]), h _ (by simp [contract])⟩,
    fun ⟨h, h'⟩ => List.forall_mem_cons.2 ⟨h, List.forall_mem_singleton.2 h'⟩⟩

theorem always_findInArguments : Finding.Always
    (fun x => x.offence = .malformed ∧ (spec.Shown → label.Shown → x.IsShown))
    (findInArguments spec label) := by
  have violations : Finding.Always (fun x => (∃ contract what, x.offence = .violation contract what) ∧
      (spec.Shown → label.Shown → x.IsShown)) (contract.findPositional (.list [spec, label]) true) := by
    rw [findPositional_contract]
    refine .findSome? fun name hname x hx => ?_
    obtain rfl | rfl : name = .str "spec_map" ∨ name = .str "label" := by
      simpa [contract] using hname
    · obtain ⟨hx, hshown⟩ :=
        Schema.findInParam_violation true (supplied_spec_map spec label) expects_object x hx
      exact ⟨hx, fun hs _ => hshown ⟨_, rfl⟩ ⟨_, rfl⟩ hs⟩
    · obtain ⟨hx, hshown⟩ :=
        Schema.findInParam_violation true (supplied_label spec label) expects_string x hx
      exact ⟨hx, fun _ hl => hshown ⟨_, rfl⟩ ⟨_, rfl⟩ hl⟩
  intro x hx
  obtain ⟨y, hy, rfl⟩ := Option.map_eq_some_iff.1 hx
  obtain ⟨⟨contract, what, h⟩, hshown⟩ := violations y hy
  rw [Finding.asMalformed, h]
  exact ⟨rfl, hshown⟩

theorem finding_of_given (hl : label ≠ .null) (hs : spec ≠ .null) :
    finding spec label = (findInArguments spec label).or (findInSpecification spec label) := by
  simp only [finding]

theorem compile_of_given (hl : label ≠ .null) (hs : spec ≠ .null) :
    compile spec label = selfCheck spec label >>= fun _ => Specification.compile spec label true := by
  simp only [compile]

/-- The label of a specification that is looked into: a text, or `undefined`. -/
def IsLabel (label : Value) : Prop := label.text?.isSome ∨ label = .undefined

theorem IsLabel.shown (h : IsLabel label) : label.Shown := by
  rcases h with h | rfl
  · exact Value.shown_of_text h
  · exact ⟨_, rfl⟩

theorem IsLabel.display (h : IsLabel label) : label.display = .ok label.shownText := by
  rcases h with h | rfl
  · cases label with
    | str | text => rfl
    | _ => cases h
  · rfl

theorem isLabel_of_selfCheck (hl : label ≠ .null) (h : selfCheck spec label = .ok ()) :
    IsLabel label := by
  have hnone := reports_selfCheck.isOk_iff.1 ⟨(), h⟩
  rcases (findInArguments_eq_none_iff.1 hnone).2 with h | h | h
  · exact absurd h hl
  · exact .inr h
  · exact .inl h

theorem reports_specification (h : IsLabel label) :
    Reports (findInSpecification spec label) (Specification.compile spec label true) := by
  rw [findInSpecification, Specification.compile]
  cases spec.entries? with
  | none => exact Reports.throwing (.display label) fun shown => ⟨_, _, _, rfl⟩
  | some entries => exact Specification.reports_compileDeep h.display entries

theorem reports_compile : Reports (finding spec label) (compile spec label) := by
  have refused (message : String) : Offence.malformed.EndsIn (.configuration message []) :=
    ⟨_, _, _, rfl⟩
  by_cases hl : label = .null
  · subst hl
    exact .throw (refused _)
  by_cases hs : spec = .null
  · subst hs
    simp only [finding, compile]
    exact .throw (refused _)
  rw [finding_of_given hl hs, compile_of_given hl hs]
  exact reports_selfCheck.bind fun _ h => reports_specification (isLabel_of_selfCheck hl h)

theorem findInSpecification_eq_none_iff :
    findInSpecification spec label = none ↔ Specification.WellFormed spec := by
  rw [findInSpecification, Specification.WellFormed]
  cases spec.entries? with
  | none => simp
  | some entries => simp [Specification.findDeep_eq_none_iff]

theorem finding_eq_none_iff :
    finding spec label = none ↔ IsLabel label ∧ Specification.WellFormed spec := by
  by_cases hl : label = .null
  · subst hl
    simp [finding, IsLabel, Value.text?]
  by_cases hs : spec = .null
  · subst hs
    have : finding .null label ≠ none := by
      unfold finding
      split <;> simp
    simp [this, Specification.WellFormed, Value.entries?]
  rw [finding_of_given hl hs, Option.or_eq_none_iff, findInArguments_eq_none_iff,
    findInSpecification_eq_none_iff]
  constructor
  · rintro ⟨⟨-, hlabel⟩, wf⟩
    exact ⟨(hlabel.resolve_left hl).symm, wf⟩
  · rintro ⟨hlabel, wf⟩
    obtain ⟨entries, hentries, -⟩ := id wf
    have object := Value.hasTag_object_of_entries (Option.isSome_iff_exists.2 ⟨entries, hentries⟩)
    exact ⟨⟨.inr (.inr object), .inr hlabel.symm⟩, wf⟩

/-- What the compiler returns is compiled from the entries of a mapping, under a label that can be
shown. -/
theorem compileDeep_of_compile {s : Schema} (h : compile spec label = .ok s) :
    IsLabel label ∧ ∃ entries, spec.entries? = some entries ∧
      Specification.compileDeep label entries = .ok s := by
  have hnone := reports_compile.isOk_iff.1 ⟨s, h⟩
  obtain ⟨hlabel, entries, hentries, -⟩ := finding_eq_none_iff.1 hnone
  have hl : label ≠ .null := by
    rintro rfl
    cases hnone
  have hs : spec ≠ .null := by
    rintro rfl
    cases hentries
  rw [compile_of_given hl hs] at h
  obtain ⟨_, -, h⟩ := bind_eq_ok.1 h
  rw [Specification.compile, hentries] at h
  exact ⟨hlabel, entries, hentries, h⟩

theorem compiled_of_compile {s : Schema} (h : compile spec label = .ok s) :
    IsLabel label ∧ s.Compiled label label.shownText := by
  obtain ⟨hlabel, entries, -, h⟩ := compileDeep_of_compile h
  exact ⟨hlabel, Specification.compileDeep_eq_ok hlabel.display h⟩

/-- How a compilation in a session ends. -/
def outcome (spec label : Value) (σ : Session) : Except Failure Schema :=
  ((run spec label).run.run σ).1

theorem note_isOk {s : Schema} (hlabel : IsLabel label) (h : s.Compiled label label.shownText) :
    ∃ text, note label s = .ok text := by
  obtain ⟨ps, rfl, listed, -⟩ := h
  have shown : ∀ p ∈ ps, p.name.Shown := fun p hp => Value.shown_of_text (listed.texts p hp)
  obtain ⟨shownLabel, hl⟩ : label.Shown := hlabel.shown
  obtain ⟨params, hparams⟩ : (Value.list (ps.map (·.name))).Shown :=
    Value.shown_list_iff.2 (List.forall_mem_map.2 shown)
  obtain ⟨required, hrequired⟩ : (Value.list ((ps.filter (·.required)).map (·.name))).Shown :=
    Value.shown_list_iff.2 (List.forall_mem_map.2 fun p hp => shown p (List.mem_filter.1 hp).1)
  obtain ⟨positions, hpositions⟩ : (Value.list ((ascending (Schema.listing label ps).hybrids).map
      fun e => .int e.1)).Shown :=
    Value.shown_list_iff.2 (List.forall_mem_map.2 fun e _ => ⟨_, rfl⟩)
  refine ⟨_, bind_eq_ok.2 ⟨shownLabel, hl, bind_eq_ok.2 ⟨params, hparams, bind_eq_ok.2
    ⟨required, hrequired, bind_eq_ok.2 ⟨positions, hpositions, rfl⟩⟩⟩⟩⟩

theorem outcome_eq (spec label : Value) (σ : Session) : outcome spec label σ = compile spec label := by
  rw [outcome, run]
  cases h : compile spec label with
  | error f => rfl
  | ok s =>
    obtain ⟨hlabel, compiled⟩ := compiled_of_compile h
    obtain ⟨text, htext⟩ := note_isOk hlabel compiled
    show ((do Action.log Logger.compiler .debug (← note label s); return s : Action Schema).run.run σ).1
      = _
    rw [htext]
    rfl

/-- The compiler finds nothing but wrong shapes, and what it finds in arguments that can be shown can
be shown too. -/
theorem always_finding : Finding.Always
    (fun x => x.offence = .malformed ∧ (spec.Shown → label.Shown → x.IsShown))
    (finding spec label) := by
  by_cases hl : label = .null
  · subst hl
    exact .some ⟨rfl, fun _ _ => nofun⟩
  by_cases hs : spec = .null
  · subst hs
    simp only [finding]
    exact .some ⟨rfl, fun _ _ => nofun⟩
  rw [finding_of_given hl hs]
  refine always_findInArguments.or ?_
  rw [findInSpecification]
  split
  next => exact .some ⟨rfl, fun _ hl => by simpa [Finding.IsShown, Finding.malformed] using hl⟩
  next entries hentries =>
    exact fun x hx => ⟨Specification.malformed_findDeep _ _ _ x hx, fun hspec hlabel =>
      Specification.shown_findDeep hlabel (hspec.entries hentries) x hx⟩

/-- The gate is exact, and closed over configuration errors, exactly if the label is not `undefined`
in front of a well-formed specification and what is found first can be shown: then a schema is
returned for a text as label and a well-formed specification, and in every other case the compiler
ends in a configuration error. The second condition holds if both arguments can be shown
(`always_finding`). -/
theorem gate_exact_iff (spec label : Value) (σ : Session) :
    (((∃ s, outcome spec label σ = .ok s) ↔
        label.text?.isSome ∧ Specification.WellFormed spec) ∧
      ∀ f, outcome spec label σ = .error f →
        ∃ message details cause, f = .contract (.configuration message details cause)) ↔
    ¬ (label = .undefined ∧ Specification.WellFormed spec) ∧
      Finding.Always Finding.IsShown (finding spec label) := by
  have h : Reports (finding spec label) (compile spec label) := reports_compile
  rw [outcome_eq, h.isOk_iff, finding_eq_none_iff]
  constructor
  · rintro ⟨hexact, herror⟩
    refine ⟨?_, fun x hx => ?_⟩
    · rintro ⟨rfl, wf⟩
      cases (hexact.1 ⟨.inr rfl, wf⟩).1
    · rw [hx] at h
      obtain ⟨f, hf, hends⟩ := h.of_some
      obtain ⟨message, details, cause, rfl⟩ := herror f hf
      exact (hends.contract_iff.1 ⟨_, rfl⟩).2
  · rintro ⟨hlabel, hshown⟩
    refine ⟨?_, fun f hf => ?_⟩
    · exact ⟨fun ⟨hl, wf⟩ => ⟨hl.resolve_right fun hu => hlabel ⟨hu, wf⟩, wf⟩,
        fun ⟨hl, wf⟩ => ⟨.inl hl, wf⟩⟩
    · obtain ⟨x, hx, hends⟩ := h.error hf
      have hoffence := (always_finding x hx).1
      rcases hends with ⟨-, ho⟩ | ⟨⟨v, hv, hn⟩, -⟩
      · rw [hoffence] at ho
        exact ho
      · exact absurd (hshown x hx v hv) hn

/-- An `undefined` label is let pass, and an undeclarable value that cannot be shown takes the place
of the error. -/
theorem gate_inexact :
    ((∃ s, outcome (.record [("a", .str "string")]) .undefined .fresh = .ok s) ∧
      Value.undefined.text? = none) ∧
    outcome (.record [("a", .creature 0 .mute "x")]) (.str "F") .fresh =
      .error (.unprintable "mute: x") :=
  ⟨⟨⟨_, rfl⟩, rfl⟩, rfl⟩

end Compiler

end CallContract
