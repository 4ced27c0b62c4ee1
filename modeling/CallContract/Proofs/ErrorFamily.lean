import CallContract.Proofs.CompilerGate
import CallContract.Validator

/-!
# The family of errors

What the checks of a schema find is a violation of its contract of one of five kinds, or a class
that has no instances to test for (`Finding.IsOrdinary`), provided that every parameter has an
expected type that is one (`Schema.Typed`). Compiled schemas have, so that their validations stay
within the errors of the library unless such a class is declared or a value that a message shows
cannot be shown (`Compiler.family_closed_iff`).

What a message shows are names of the schema, which can be shown, and what was given. So every
validation stays within those errors if what is given can be shown and no such class is declared
(`Compiler.always_shown_of_testable`).
-/

namespace CallContract

/-- The violation is of one of the five kinds that checks report. -/
def Violation.IsSpecific : Violation → Prop
  | .unspecified _ => False
  | _ => True

namespace Schema

/-- A parameter is declared with the class that has no instances to test for. -/
def DeclaresAny (s : Schema) : Prop := ∃ name, s.types.get? name = some (.instanceOf .any)

/-- The label and the names can be shown, and every name has an expected type. -/
structure Typed (s : Schema) : Prop where
  label : s.name.Shown
  names : ∀ name ∈ s.params, name.Shown
  required : ∀ name ∈ s.required, name ∈ s.params
  types : ∀ name ∈ s.params, ∃ e, s.types.get? name = some e ∧ ∀ v, e ≠ .other v

end Schema

namespace Finding

/-- A specific violation of the contract of `s`, or a class that it declares and that cannot be
tested for. It can be shown if what was given can. -/
structure IsOrdinary (s : Schema) (given : Prop) (x : Finding) : Prop where
  offence : (∃ what, x.offence = .violation s.name what ∧ what.IsSpecific) ∨
    x.offence = .untestable ∧ s.DeclaresAny
  shown : given → x.IsShown

variable {s : Schema} {given given' : Prop}

theorem isOrdinary_violation {what : Violation} {shown : List Value} (h : what.IsSpecific)
    (hs : given → ∀ v ∈ shown, v.Shown) : (violation s.name what shown).IsOrdinary s given :=
  ⟨.inl ⟨what, rfl, h⟩, hs⟩

theorem IsOrdinary.imp {x : Finding} (h : x.IsOrdinary s given) (hg : given' → given) :
    x.IsOrdinary s given' :=
  ⟨h.offence, h.shown ∘ hg⟩

theorem Always.imp {o : Option Finding} (h : Always (IsOrdinary s given) o)
    (hg : given' → given) : Always (IsOrdinary s given') o :=
  Always.mono (fun _ hx => hx.imp hg) h

theorem IsOrdinary.contract_eq {contract : Value} {what : Violation} {shown : List Value}
    (h : (violation contract what shown).IsOrdinary s given) : contract = s.name := by
  rcases h.offence with ⟨what', h, -⟩ | ⟨h, -⟩
  · cases h
    rfl
  · cases h

end Finding

namespace Schema.Typed

open Finding

variable {s : Schema} (h : s.Typed) (supplied : Payload)
include h

theorem ordinary_findMissing : Always (IsOrdinary s True) (s.findMissing supplied) := by
  simp only [findMissing]
  cases hmissing : s.required.filter fun name => !supplied.contains name with
  | nil => exact .none
  | cons first rest =>
    refine .some (isOrdinary_violation trivial fun _ => List.forall_mem_cons.2 ⟨h.label, ?_⟩)
    intro name hname
    rw [← hmissing] at hname
    exact h.names name (h.required name (List.mem_filter.1 hname).1)

theorem ordinary_findInValue {name : Value} (value : Value) (checkBags : Bool) {e : Expected}
    (hname : name.Shown) (he : s.types.get? name = some e) (hother : ∀ v, e ≠ .other v) :
    Always (IsOrdinary s value.Shown) (s.findInValue name value checkBags e) := by
  have hl := h.label
  cases e with
  | wildcard => exact .none
  | bag nested =>
    rw [findInValue]
    split
    · exact .some (isOrdinary_violation trivial fun hv => by simp [hl, hname, hv])
    · exact .none
  | instanceOf c =>
    rw [findInValue]
    split
    next hc =>
      rw [hc] at he
      exact .some ⟨.inr ⟨rfl, name, he⟩, fun _ => by simp [IsShown]⟩
    · split
      · exact .none
      · exact .some (isOrdinary_violation trivial fun _ => by simp [hl, hname])
  | primitive tag =>
    rw [findInValue]
    split
    · exact .none
    · refine .some (isOrdinary_violation trivial fun hv => ?_)
      split <;> simp [hl, hname, hv]
  | other v => exact absurd rfl (hother v)

theorem ordinary_findInTypes (checkUndefined checkBags : Bool) :
    Always (IsOrdinary s (∀ e ∈ supplied.entries, e.2.Shown))
      (s.findInTypes supplied checkUndefined checkBags) := by
  refine .findSome? fun name hname => ?_
  obtain ⟨e, he, hother⟩ := h.types name hname
  have hshown := h.names name hname
  unfold findInParam
  split
  · exact .none
  · exact .none
  · split
    · exact .some (isOrdinary_violation trivial fun _ => by simp [h.label, hshown])
    · exact .none
  next value _ _ hvalue =>
    rw [he]
    refine (h.ordinary_findInValue value checkBags hshown he hother).imp fun given => ?_
    obtain ⟨entry, hentry, -, rfl⟩ := Table.mem_of_get? hvalue
    exact given entry hentry

theorem ordinary_findExtra :
    Always (IsOrdinary s (∀ e ∈ supplied.entries, e.1.Shown)) (s.findExtra supplied) := by
  simp only [findExtra]
  cases hextras : supplied.keys.filter fun key => !s.isDeclared key with
  | nil => exact .none
  | cons first rest =>
    refine .some (isOrdinary_violation trivial fun given => List.forall_mem_cons.2 ⟨h.label, ?_⟩)
    intro key hkey
    rw [← hextras] at hkey
    obtain ⟨entry, hentry, rfl⟩ := List.mem_map.1 (List.mem_filter.1 hkey).1
    exact given entry hentry

theorem ordinary_findSurplus (received : Int) :
    Always (IsOrdinary s True) (s.findSurplus received) := by
  rw [findSurplus]
  split
  · exact .some (isOrdinary_violation trivial fun _ => by simp [h.label])
  · exact .none

theorem ordinary_findInNames :
    Always (IsOrdinary s (∀ e ∈ supplied.entries, e.1.Shown ∧ e.2.Shown))
      (s.findInNames supplied) := by
  refine Always.or ((h.ordinary_findMissing supplied).imp fun _ => trivial) (Always.or ?_ ?_)
  · exact (h.ordinary_findInTypes supplied true true).imp fun given e he => (given e he).2
  · exact (h.ordinary_findExtra supplied).imp fun given e he => (given e he).1

theorem ordinary_findInValues (vs : List Value) (checkBags : Bool) :
    Always (IsOrdinary s (∀ v ∈ vs, v.Shown)) (s.findInValues vs checkBags) := by
  refine Always.or ((h.ordinary_findMissing _).imp fun _ => trivial) (Always.or ?_ ?_)
  · refine (h.ordinary_findInTypes _ false checkBags).imp fun given e he => ?_
    have paired : ∀ e ∈ s.params.zip vs, True ∧ e.2.Shown := fun e he =>
      ⟨trivial, given e.2 (List.of_mem_zip he).2⟩
    exact (Table.forall_ofList (P := fun _ => True) paired e he).2
  · exact (h.ordinary_findSurplus _).imp fun _ => trivial

theorem ordinary_findNamed {p : Value} : Always
    (fun x => x.IsOrdinary s (∀ fs, p.fragments? = some fs → ∀ v ∈ fs, v.Shown) ∨
      x.offence = .malformed ∧ x.IsShown ∧ p.fragments? = none)
    (s.findNamed p) := by
  rw [findNamed]
  cases p.fragments? with
  | none => exact .some (.inr ⟨rfl, List.forall_mem_singleton.2 h.label, rfl⟩)
  | some fs =>
    refine Always.mono (fun x => .inl) (Always.or (.findSome? fun v _ => ?_) ?_)
    · rw [findInFragment]
      split
      · exact .none
      · exact .some (isOrdinary_violation trivial fun _ => List.forall_mem_singleton.2 h.label)
    · refine (h.ordinary_findInNames _).imp fun given => Table.forall_ofList fun e he => ?_
      obtain ⟨v, hv, he⟩ := List.mem_flatMap.1 he
      exact (given fs rfl v hv).fragment e he

theorem ordinary_findPositional {p : Value} (checkBags : Bool) : Always
    (fun x => x.IsOrdinary s (∀ vs, p.sequence? = some vs → ∀ v ∈ vs, v.Shown) ∨
      x.offence = .malformed ∧ x.IsShown ∧ p.sequence? = none)
    (s.findPositional p checkBags) := by
  rw [findPositional]
  cases p.sequence? with
  | none => exact .some (.inr ⟨rfl, List.forall_mem_singleton.2 h.label, rfl⟩)
  | some vs =>
    refine Always.mono (fun x => .inl) ((h.ordinary_findInValues vs checkBags).imp fun given => ?_)
    exact given vs rfl

/-- A destructured argument has always the shape of named arguments, or is no mapping. -/
theorem ordinary_findInBag {parent : Schema} (hparent : parent.Typed) {vs : List Value}
    {index : Int} :
    Always (IsOrdinary s (∀ v ∈ vs, v.Shown)) (parent.findInBag vs (index, s)) := by
  have named (v : Value) : Always (IsOrdinary s v.Shown) (s.findNamed (.list [v])) := fun x hx => by
    rcases h.ordinary_findNamed x hx with ho | ⟨-, -, hnone⟩
    · refine ho.imp fun given fs hfs => ?_
      obtain rfl := Option.some.inj hfs
      exact List.forall_mem_singleton.2 given
    · cases hnone
  have nothing : (Value.record []).Shown := ⟨_, rfl⟩
  unfold findInBag
  split
  · exact (named _).imp fun _ => nothing
  · exact (named _).imp fun _ => nothing
  · have hbag (given : ∀ v ∈ vs, v.Shown) : (vs[index.toNat]?.getD .undefined).Shown := by
      cases hv : vs[index.toNat]? with
      | none => exact ⟨_, rfl⟩
      | some v => exact given v (List.mem_of_getElem? hv)
    split
    · exact (named _).imp hbag
    · refine .some (isOrdinary_violation trivial fun given => ?_)
      have hname : ((paramAt? parent.params index).getD .null).Shown := by
        unfold paramAt?
        split
        · exact ⟨_, rfl⟩
        · cases hn : parent.params[index.toNat]? with
          | none => exact ⟨_, rfl⟩
          | some name => exact hparent.names name (List.mem_of_getElem? hn)
      simp [h.label, hname, hbag given]

end Schema.Typed

namespace Schema

open Finding

theorem typed_of_listed {label : Value} {ps : List Parameter} (hlabel : label.Shown)
    (listed : Listed ps) (h : ∀ p ∈ ps, ∀ v, p.expected ≠ .other v) :
    (listing label ps).Typed where
  label := hlabel
  names name hname := by
    obtain ⟨p, hp, rfl⟩ := List.mem_map.1 hname
    exact Value.shown_of_text (listed.texts p hp)
  required name hname := by
    obtain ⟨p, hp, rfl⟩ := List.mem_map.1 hname
    exact List.mem_map_of_mem (List.mem_filter.1 hp).1
  types name hname := by
    obtain ⟨p, hp, rfl⟩ := List.mem_map.1 hname
    exact ⟨p.expected, listed.types_get? hp (listed.beq_self hp), h p hp⟩

theorem Flat.typed {s : Schema} {label : Value} (h : s.Flat label) (hlabel : label.Shown) :
    s.Typed := by
  obtain ⟨ps, rfl, listed, hexp⟩ := h
  refine typed_of_listed hlabel listed fun p hp v hv => ?_
  have flat := hexp p hp
  rw [hv] at flat
  cases flat

section
variable {s : Schema} {label : Value} {labelText : String} (h : s.Compiled label labelText)
include h

theorem Compiled.typed (hlabel : label.Shown) : s.Typed := by
  obtain ⟨ps, rfl, listed, hexp⟩ := h
  refine typed_of_listed hlabel listed fun p hp v hv => ?_
  rcases hexp p hp with flat | ⟨nested, hbag, -⟩
  · rw [hv] at flat
    cases flat
  · rw [hv] at hbag
    cases hbag

theorem Compiled.nested_typed {entry : Int × Schema} (hentry : entry ∈ s.hybrids.entries) :
    entry.2.Typed :=
  (h.nested hentry).typed ⟨_, rfl⟩

end

/-- The arguments have not the shape that the convention asks for. -/
def Misshapen (p : Value) : Convention → Prop
  | .named => p.fragments? = none
  | .positional | .hybrid => p.sequence? = none

/-- The schema and those of its destructured arguments. -/
def parts (s : Schema) : List Schema := s :: s.hybrids.entries.map Prod.snd

/-- What a validation of a compiled schema finds: misshapen arguments, or a specific violation of
the schema or of one that is nested in it, or a class that one of them declares and that cannot be
tested for. -/
theorem Compiled.ordinary_finding {s : Schema} {label : Value} {labelText : String}
    (h : s.Compiled label labelText) (hlabel : label.Shown) (c : Convention) (p : Value) : Always
    (fun x => (∃ t ∈ s.parts, x.IsOrdinary t (∀ vs, p.fragments? = some vs → ∀ v ∈ vs, v.Shown)) ∨
      x.offence = .malformed ∧ x.IsShown ∧ Misshapen p c)
    (s.finding c p) := by
  have typed := h.typed hlabel
  have positional (checkBags : Bool) : Always
      (fun x => (∃ t ∈ s.parts,
          x.IsOrdinary t (∀ vs, p.fragments? = some vs → ∀ v ∈ vs, v.Shown)) ∨
        x.offence = .malformed ∧ x.IsShown ∧ p.sequence? = none)
      (s.findPositional p checkBags) := fun x hx =>
    (typed.ordinary_findPositional checkBags x hx).imp_left fun ho =>
      ⟨s, by simp [parts], ho.imp fun given vs hvs => given vs (Value.fragments?_of_sequence hvs)⟩
  cases c with
  | named =>
    exact fun x hx => (typed.ordinary_findNamed x hx).imp_left fun ho => ⟨s, by simp [parts], ho⟩
  | positional => exact positional true
  | hybrid =>
    refine (positional false).or (.findSome? fun entry hentry x hx => ?_)
    rw [h.ascending_hybrids] at hentry
    have ordinary := (h.nested_typed hentry).ordinary_findInBag typed x hx
    refine .inl ⟨entry.2, List.mem_cons_of_mem _ (List.mem_map_of_mem hentry), ?_⟩
    refine ordinary.imp fun given => ?_
    cases hvs : p.sequence? with
    | none => exact nofun
    | some vs => exact given vs (Value.fragments?_of_sequence hvs)

end Schema

namespace Validator

/-- How a validation in a session ends. -/
def outcome (v : Validator) (c : Convention) (p : Value) (σ : Session) : Except Failure Unit :=
  ((v.run c p).run.run σ).1

theorem report_isOk (v : Validator) (e : Event) (σ : Session) :
    ((v.report e).run.run σ).1 = .ok () := by
  rw [report]
  cases v.sink with
  | none => rfl
  | some h =>
    -- the record may fail, and what is logged then does not
    simp only [tryCatch, tryCatchThe, MonadExceptOf.tryCatch, ExceptT.tryCatch, ExceptT.run_mk,
      StateT.run_bind]
    obtain ⟨r, σ'⟩ := StateT.run (Action.record (some h) e) σ
    cases r <;> rfl

theorem outcome_eq (v : Validator) (c : Convention) (p : Value) (σ : Session) :
    v.outcome c p σ = v.schema.validate c p := by
  have reported (e : Event) : ∃ σ', (v.report e).run.run σ = (.ok (), σ') :=
    ⟨_, Prod.ext (v.report_isOk e σ) rfl⟩
  rw [outcome, run]
  cases v.schema.validate c p with
  | ok => exact v.report_isOk _ σ
  | error f =>
    cases f with
    | contract e =>
      obtain ⟨σ', hσ⟩ := reported (.refused v.name c e)
      simp only [ExceptT.run_bind, StateT.run_bind, hσ]
      rfl
    | _ => rfl

end Validator

namespace Compiler

/-- Neither a value that cannot be shown nor a class that cannot be tested for is found if everything
that is given can be shown and no such class is declared. -/
theorem always_shown_of_testable {spec label : Value} {s : Schema} (h : compile spec label = .ok s)
    (testable : ∀ t ∈ s.parts, ¬ t.DeclaresAny) (c : Convention) {p : Value}
    (given : ∀ vs, p.fragments? = some vs → ∀ v ∈ vs, v.Shown) :
    Finding.Always (fun x => x.offence ≠ .untestable ∧ x.IsShown) (s.finding c p) := by
  obtain ⟨hlabel, compiled⟩ := compiled_of_compile h
  intro x hx
  rcases compiled.ordinary_finding hlabel.shown c p x hx with
    ⟨t, ht, ordinary⟩ | ⟨hmalformed, hshown, -⟩
  · refine ⟨fun hu => ?_, ordinary.shown given⟩
    rcases ordinary.offence with ⟨what, hwhat, -⟩ | ⟨-, any⟩
    · rw [hu] at hwhat
      cases hwhat
    · exact testable t ht any
  · refine ⟨fun hu => ?_, hshown⟩
    rw [hu] at hmalformed
    cases hmalformed

/-- A validation accepts or ends in an error of the library, exactly if what it finds is no class
without instances to test for and shows only values that can be shown. The error is a configuration
error for misshapen arguments, and a violation of a specific kind otherwise. The condition holds if
everything that is given can be shown and no such class is declared (`always_shown_of_testable`). -/
theorem family_closed_iff {spec label : Value} {s : Schema} (h : compile spec label = .ok s)
    (sink : Option SinkHandle) (c : Convention) {p : Value} (hp : p.interruption? = none)
    (σ : Session) :
    (Validator.outcome ⟨s, sink⟩ c p σ = .ok () ∨
      (Schema.Misshapen p c ∧ ∃ message details cause,
        Validator.outcome ⟨s, sink⟩ c p σ =
          .error (.contract (.configuration message details cause))) ∨
      ∃ contract message what,
        Validator.outcome ⟨s, sink⟩ c p σ = .error (.violation contract message what) ∧
          what.IsSpecific) ↔
    ∀ x, s.finding c p = some x → x.offence ≠ .untestable ∧ x.IsShown := by
  obtain ⟨hlabel, compiled⟩ := compiled_of_compile h
  have reports := s.reports_validate c hp
  rw [Validator.outcome_eq]
  constructor
  · intro hends x hx
    have closed : (∃ a, s.validate c p = .ok a) ∨ ∃ e, s.validate c p = .error (.contract e) := by
      rcases hends with hok | ⟨-, _, _, _, he⟩ | ⟨_, _, _, he, -⟩
      · exact .inl ⟨(), hok⟩
      · exact .inr ⟨_, he⟩
      · exact .inr ⟨_, he⟩
    obtain ⟨hfamily, hshown⟩ := reports.closed_iff.1 closed x hx
    refine ⟨fun hu => ?_, hshown⟩
    rw [hu] at hfamily
    exact hfamily
  · intro hall
    cases hfound : s.finding c p with
    | none =>
      obtain ⟨u, hu⟩ := reports.isOk_iff.2 hfound
      exact .inl hu
    | some x =>
      obtain ⟨htestable, hshown⟩ := hall x hfound
      rw [hfound] at reports
      obtain ⟨f, hf, ⟨-, ho⟩ | ⟨⟨v, hv, hn⟩, -⟩⟩ := reports.of_some
      · rw [hf]
        rcases compiled.ordinary_finding hlabel.shown c p x hfound with
          ⟨t, -, ordinary⟩ | ⟨hmalformed, -, hshape⟩
        · rcases ordinary.offence with ⟨what, hwhat, hspecific⟩ | ⟨hu, -⟩
          · rw [hwhat] at ho
            obtain ⟨message, rfl⟩ := ho
            exact .inr (.inr ⟨t.name, message, what, rfl, hspecific⟩)
          · exact absurd hu htestable
        · rw [hmalformed] at ho
          obtain ⟨message, details, cause, rfl⟩ := ho
          exact .inr (.inl ⟨hshape, message, details, cause, rfl⟩)
      · exact absurd (hshown v hv) hn

theorem family_closed_of_surplus : ∃ s,
    compile (.record [("a", .str "string")]) (.str "F") = .ok s ∧
    (Validator.outcome ⟨s, none⟩ .positional (.list [.str "v", .int 1]) .fresh = .ok () ∨
      (Schema.Misshapen (.list [.str "v", .int 1]) .positional ∧ ∃ message details cause,
        Validator.outcome ⟨s, none⟩ .positional (.list [.str "v", .int 1]) .fresh =
          .error (.contract (.configuration message details cause))) ∨
      ∃ contract message what,
        Validator.outcome ⟨s, none⟩ .positional (.list [.str "v", .int 1]) .fresh =
          .error (.violation contract message what) ∧ what.IsSpecific) := by
  obtain ⟨s, h⟩ : ∃ s, compile (.record [("a", .str "string")]) (.str "F") = .ok s := ⟨_, rfl⟩
  refine ⟨s, h, (family_closed_iff h none .positional rfl .fresh).2 fun x hx => ?_⟩
  cases h
  cases hx
  exact ⟨nofun, List.forall_mem_singleton.2 ⟨_, rfl⟩⟩

/-- A value that cannot be shown takes the place of the mismatch that would show it, and a class
without instances to test for the place of every check. -/
theorem family_not_closed :
    (∃ s, compile (.record [("a", .str "string")]) (.str "F") = .ok s ∧
      Validator.outcome ⟨s, none⟩ .positional (.list [.creature 0 .mute "x"]) .fresh =
        .error (.unprintable "mute: x")) ∧
    ∃ s, compile (.record [("a", .cls .any)]) (.str "F") = .ok s ∧
      Validator.outcome ⟨s, none⟩ .positional (.list [.int 1]) .fresh = .error .untestableClass :=
  ⟨⟨_, rfl, rfl⟩, ⟨_, rfl, rfl⟩⟩

end Compiler

end CallContract
