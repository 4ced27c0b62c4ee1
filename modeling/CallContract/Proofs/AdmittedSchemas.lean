import CallContract.Proofs.Coherence

/-!
# Schemas that the constructor admits

The constructor holds the tables of a schema against its parameters and not the parameters against
the tables: no table contradicts the parameters (`Schema.Agrees`), but a parameter may have no entry
in the table of types or in that of positions. What a validation then does is traced to the gap
(`Failure.TracedTo`), and every gap shows in some validation, so that an admitted schema can be used
without these failures exactly if its tables have no gaps (`Schema.admitted_usable_iff`).
-/

namespace CallContract

theorem mem_insertAscending {α : Type} {e f : Int × α} {es : List (Int × α)} :
    f ∈ insertAscending e es ↔ f = e ∨ f ∈ es := by
  induction es with
  | nil => exact List.mem_cons
  | cons g es ih =>
    rw [insertAscending]
    split
    · exact List.mem_cons
    · rw [List.mem_cons, ih, List.mem_cons, or_left_comm]

theorem mem_ascending {α : Type} {t : Table Int α} {e : Int × α} :
    e ∈ ascending t ↔ e ∈ t.entries := by
  rw [ascending]
  induction t.entries with
  | nil => exact Iff.rfl
  | cons f es ih => rw [List.foldr_cons, mem_insertAscending, ih, List.mem_cons]

namespace Schema

/-- A schema is within itself and within those that have one around it in a destructured position. -/
inductive Within : Schema → Schema → Prop
  | self (s : Schema) : Within s s
  | nested {s t : Schema} {e : Int × Schema} (he : e ∈ s.hybrids.entries) (h : Within t e.2) :
    Within t s

theorem Within.of_hybrid {s t : Schema} {e : Int × Schema} (h : t.Within s)
    (he : e ∈ t.hybrids.entries) : e.2.Within s := by
  induction h with
  | self => exact .nested he (.self e.2)
  | nested he' _ ih => exact .nested he' (ih he)

theorem Within.forall_iff {s : Schema} {P : Schema → Prop} : (∀ t, Within t s → P t) ↔
    P s ∧ ∀ e ∈ s.hybrids.entries, ∀ t, Within t e.2 → P t := by
  constructor
  · exact fun all => ⟨all s (.self s), fun e he t ht => all t (.nested he ht)⟩
  · rintro ⟨here, below⟩ t ht
    cases ht with
    | self => exact here
    | nested he ht => exact below _ he t ht

/-- The label and the names are texts, the expected types are types, and the constructor lets the
tables pass. -/
structure Admitted (s : Schema) : Prop where
  label : s.name.text?.isSome
  params : ∀ name ∈ s.params, name.text?.isSome
  required : ∀ name ∈ s.required, name.text?.isSome
  types : ∀ e ∈ s.types.entries, ∀ v, e.2 ≠ .other v
  constructed : ofTables s.name s.params s.required s.types s.positions s.hybrids = .ok s

/-- The tables do not contradict the parameters. -/
structure Agrees (s : Schema) : Prop where
  apart : Table.Apart s.params
  required : ∀ name ∈ s.required, ∃ param ∈ s.params, (name == param) = true
  positions : ∀ e ∈ s.positions.entries,
    ∃ param, paramAt? s.params e.2 = some param ∧ (param == e.1) = true
  hybrids : ∀ e ∈ s.hybrids.entries, (paramAt? s.params e.1).isSome

/-- Every parameter has an entry in the table of types. -/
def TypesCover (s : Schema) : Prop := ∀ name ∈ s.params, (s.types.get? name).isSome

/-- Every parameter has its place in the table of positions. -/
def PositionsCover (s : Schema) : Prop :=
  ∀ (i : Nat) (name : Value), s.params[i]? = some name → s.positions.get? name = some (i : Int)

/-- The failure reports a declared parameter as one that is not. -/
def DisownsParameter (s : Schema) (f : Failure) : Prop :=
  ∃ message names, f = .violation s.name message (.unexpected names) ∧
    ∃ name ∈ names, ∃ param ∈ s.params, (name == param) = true

theorem bind_ne_ok {α β : Type} {x : Except Failure α} {k : α → Except Failure β} {b : β}
    (h : ∀ a, k a ≠ .ok b) : x >>= k ≠ .ok b := by
  intro hx
  obtain ⟨a, -, hk⟩ := bind_eq_ok.1 hx
  exact h a hk

theorem not_refused {refused : Bool} {stop rest : Except Failure Unit}
    (h : (if refused then stop else rest) = .ok ()) (hstop : stop ≠ .ok ()) :
    refused = false ∧ rest = .ok () := by
  cases refused with
  | true => exact absurd h hstop
  | false => exact ⟨rfl, h⟩

theorem coherent_of_checkTables {s : Schema} (h : s.checkTables = .ok ()) :
    hasDuplicates s.params = false ∧ undeclared s.params s.required = [] ∧
      strayHybrid? s.params s.hybrids = none ∧ misplaced s.params s.positions = [] := by
  unfold checkTables at h
  obtain ⟨_, -, h⟩ := bind_eq_ok.1 h
  obtain ⟨distinct, h⟩ := not_refused h (bind_ne_ok fun _ => nofun)
  obtain ⟨_, -, h⟩ := bind_eq_ok.1 h
  obtain ⟨declared, h⟩ := not_refused h (bind_ne_ok fun _ => bind_ne_ok fun _ => nofun)
  cases placed : strayHybrid? s.params s.hybrids with
  | some index =>
    simp only [placed] at h
    exact absurd h (bind_ne_ok fun _ => nofun)
  | none =>
    simp only [placed] at h
    obtain ⟨ordered, -⟩ := not_refused h (bind_ne_ok fun _ => nofun)
    exact ⟨distinct, by simpa using declared, rfl, by simpa using ordered⟩

theorem Admitted.agrees {s : Schema} (h : s.Admitted) : s.Agrees := by
  obtain ⟨_, hcheck, -⟩ := bind_eq_ok.1 h.constructed
  obtain ⟨distinct, declared, placed, ordered⟩ := coherent_of_checkTables hcheck
  refine ⟨hasDuplicates_eq_false_iff.1 distinct, fun name hname => ?_, fun e he => ?_, fun e he => ?_⟩
  · have found := List.filter_eq_nil_iff.1 declared name hname
    simpa using found
  · have found := List.filter_eq_nil_iff.1 ordered e he
    rw [Bool.not_eq_true', Bool.not_eq_false, Option.any_eq_true] at found
    obtain ⟨param, hat, hparam⟩ := found
    exact ⟨param, hat, PartialEquivBEq.symm hparam⟩
  · have found := List.find?_eq_none.1 placed e.1 (List.mem_map_of_mem he)
    simpa [Option.isSome_iff_ne_none] using found

end Schema

/-- What is wrong with the tables of the schema if this is found. -/
structure Finding.TracedTo (s : Schema) (x : Finding) : Prop where
  untyped : x.offence = .untyped → ∃ name ∈ s.params, s.types.get? name = none
  unexpected : ∀ contract names, x.offence = .violation contract (.unexpected names) →
    ∀ name ∈ names, s.isDeclared name = false

/-- What is wrong with the tables of the schema if a validation fails so. -/
structure Failure.TracedTo (s : Schema) (f : Failure) : Prop where
  untyped : ∀ name, f = .untypedParameter name → ∃ name ∈ s.params, s.types.get? name = none
  unexpected : ∀ contract message names, f = .violation contract message (.unexpected names) →
    ∀ name ∈ names, s.isDeclared name = false

namespace Finding

variable {s : Schema} {x : Finding} {f : Failure}

theorem tracedTo_of_other (typed : x.offence ≠ .untyped)
    (expected : ∀ contract names, x.offence ≠ .violation contract (.unexpected names)) :
    x.TracedTo s :=
  ⟨fun h => absurd h typed, fun _ _ h => absurd h (expected _ _)⟩

theorem TracedTo.of_endsIn (h : x.TracedTo s) (ends : x.EndsIn f) : f.TracedTo s := by
  obtain ⟨offence, shown⟩ := x
  rcases ends with ⟨-, ends⟩ | ⟨-, text, rfl⟩
  · cases offence with
    | untestable =>
      obtain rfl : f = .untestableClass := ends
      exact ⟨nofun, nofun⟩
    | untyped =>
      obtain ⟨name, rfl⟩ := ends
      exact ⟨fun _ _ => h.untyped rfl, nofun⟩
    | malformed =>
      obtain ⟨message, details, cause, rfl⟩ := ends
      exact ⟨nofun, nofun⟩
    | violation contract what =>
      obtain ⟨message, rfl⟩ := ends
      refine ⟨nofun, ?_⟩
      rintro _ _ names ⟨⟩
      exact h.unexpected contract names rfl
  · exact ⟨nofun, nofun⟩

end Finding

namespace Schema

open Finding

variable {s : Schema} (supplied : Payload)

theorem traced_findMissing : Always (TracedTo s) (s.findMissing supplied) := by
  unfold findMissing
  split
  · exact .none
  · exact .some (tracedTo_of_other nofun nofun)

theorem traced_findInValue (name value : Value) (checkBags : Bool) (e : Expected) :
    Always (TracedTo s) (s.findInValue name value checkBags e) := by
  have other {x : Finding} (typed : x.offence ≠ .untyped)
      (expected : ∀ contract names, x.offence ≠ .violation contract (.unexpected names)) :
      Always (TracedTo s) (some x) := .some (tracedTo_of_other typed expected)
  unfold findInValue
  split
  next => exact .none
  next =>
    split
    · exact other nofun nofun
    · exact .none
  next =>
    split
    · exact other nofun nofun
    · split
      · exact .none
      · exact other nofun nofun
  next =>
    split
    · exact .none
    · exact other nofun nofun
  next => exact other nofun nofun

theorem traced_findInTypes (checkUndefined checkBags : Bool) :
    Always (TracedTo s) (s.findInTypes supplied checkUndefined checkBags) := by
  refine .findSome? fun name hname => ?_
  unfold findInParam
  split
  · exact .none
  · exact .none
  · split
    · exact .some (tracedTo_of_other nofun nofun)
    · exact .none
  · split
    · exact s.traced_findInValue _ _ _ _
    next hgap => exact .some ⟨fun _ => ⟨name, hname, hgap⟩, nofun⟩

theorem traced_findExtra : Always (TracedTo s) (s.findExtra supplied) := by
  unfold findExtra
  cases hextras : supplied.keys.filter fun key => !s.isDeclared key with
  | nil => exact .none
  | cons first rest =>
    refine .some ⟨nofun, ?_⟩
    rintro _ _ ⟨⟩ name hname
    rw [← hextras] at hname
    simpa using (List.mem_filter.1 hname).2

theorem traced_findSurplus (received : Int) : Always (TracedTo s) (s.findSurplus received) := by
  unfold findSurplus
  split
  · exact .some (tracedTo_of_other nofun nofun)
  · exact .none

section
variable {supplied} {p : Value} {f : Failure}

theorem traced_of_reports {α : Type} {o : Option Finding} {outcome : Except Failure α}
    (reports : Reports o outcome) (traced : Always (TracedTo s) o) (hf : outcome = .error f) :
    f.TracedTo s := by
  obtain ⟨x, hx, ends⟩ := reports.error hf
  exact (traced x hx).of_endsIn ends

theorem traced_validateNamed (hf : s.validateNamed p = .error f) : f.TracedTo s := by
  rcases bind_eq_error.1 hf with hf | ⟨supplied, -, hf⟩
  · rcases named_eq_error hf with ⟨why, rfl⟩ | ⟨x, ends, ⟨hx, -⟩ | ⟨v, hx⟩⟩
    · exact ⟨nofun, nofun⟩
    · exact (tracedTo_of_other (by rw [hx]; nofun) (by rw [hx]; nofun)).of_endsIn ends
    · exact (tracedTo_of_other (by rw [hx]; nofun) (by rw [hx]; nofun)).of_endsIn ends
  · exact traced_of_reports (reports_checkNames supplied) (.or (traced_findMissing supplied)
      (.or (traced_findInTypes supplied true true) (traced_findExtra supplied))) hf

theorem traced_positionalValues (hf : Arguments.positionalValues s p = .error f) : f.TracedTo s := by
  rcases positionalValues_eq_error hf with ⟨why, rfl⟩ | ⟨x, ends, hx, -⟩
  · exact ⟨nofun, nofun⟩
  · exact (tracedTo_of_other (by rw [hx]; nofun) (by rw [hx]; nofun)).of_endsIn ends

theorem traced_validateValues {checkBags : Bool} (hf : s.validateValues p checkBags = .error f) :
    f.TracedTo s := by
  rcases bind_eq_error.1 hf with hf | ⟨vs, -, hf⟩
  · exact traced_positionalValues hf
  · exact traced_of_reports (reports_checkedValues vs checkBags) (.or (traced_findMissing _)
      (.or (traced_findInTypes _ false checkBags) (traced_findSurplus _))) hf

theorem traced_validateBag {vs : List Value} {e : Int × Schema} (hf : s.validateBag vs e = .error f) :
    f.TracedTo e.2 := by
  obtain ⟨index, nested⟩ := e
  unfold validateBag at hf
  dsimp only at hf
  split at hf
  · exact traced_validateNamed hf
  · exact traced_validateNamed hf
  · split at hf
    · exact traced_validateNamed hf
    · exact traced_of_reports (nested.reports_mismatch ((Shows.literal _).map _))
        (.some (tracedTo_of_other nofun nofun)) hf

/-- Whatever the arguments, a failure is traced to the schema or to one of a destructured position. -/
theorem traced_validate {c : Convention} (hf : s.validate c p = .error f) :
    f.TracedTo s ∨ ∃ e ∈ s.hybrids.entries, f.TracedTo e.2 := by
  cases c with
  | named => exact .inl (traced_validateNamed hf)
  | positional =>
    rcases bind_eq_error.1 hf with hf | ⟨_, -, hf⟩
    · exact .inl (traced_validateValues hf)
    · cases hf
  | hybrid =>
    rcases bind_eq_error.1 hf with hf | ⟨vs, -, hf⟩
    · exact .inl (traced_validateValues hf)
    · obtain ⟨before, e, after, hentries, -, hbag⟩ := forM_eq_error hf
      have he : e ∈ ascending s.hybrids := by simp [hentries]
      exact .inr ⟨e, mem_ascending.1 he, traced_validateBag hbag⟩

end

/-- A mapping that gives a value to every parameter. -/
def everyParam (s : Schema) (value : Value → Value) : Value :=
  .mapping .dict (s.params.map fun name => (name, value name))

section
variable {s : Schema} (h : s.Agrees)
include h

theorem Agrees.positionsCover_iff :
    s.PositionsCover ↔ ∀ name ∈ s.params, s.isDeclared name = true := by
  constructor
  · intro covers name hname
    obtain ⟨i, hi⟩ := List.mem_iff_getElem?.1 hname
    rw [isDeclared, Table.contains, covers i name hi]
    rfl
  · intro declared i name hi
    have found := declared name (List.mem_of_getElem? hi)
    rw [isDeclared, Table.contains] at found
    obtain ⟨j, hj⟩ := Option.isSome_iff_exists.1 found
    obtain ⟨e, he, hkey, rfl⟩ := Table.mem_of_get? hj
    obtain ⟨param, hat, hparam⟩ := h.positions e he
    obtain ⟨n, hn, hparams⟩ := Specification.paramAt?_eq_some_iff.1 hat
    have same : (name == param) = true := PartialEquivBEq.trans hkey (PartialEquivBEq.symm hparam)
    rw [hj, h.apart.index_unique hi hparams same, hn]

end

section
variable {s : Schema} (h : s.Admitted) (value : Value → Value)
include h

theorem Admitted.merged_everyParam :
    Arguments.merged [s.everyParam value] = ⟨s.params.map fun name => (name, value name)⟩ := by
  have apart : Table.Apart ((s.params.map fun name => (name, value name)).map Prod.fst) := by
    rw [List.map_map]
    simpa [Function.comp_def] using h.agrees.apart
  rw [Arguments.merged, List.flatMap_singleton]
  exact Table.ofList_of_apart apart

theorem Admitted.keys_everyParam : (Arguments.merged [s.everyParam value]).keys = s.params := by
  rw [h.merged_everyParam, Table.keys, List.map_map]
  simp [Function.comp_def]

theorem Admitted.get?_everyParam {name : Value} (hname : name ∈ s.params) :
    (Arguments.merged [s.everyParam value]).get? name = some (value name) := by
  have mem : (name, value name) ∈ (Arguments.merged [s.everyParam value]).entries := by
    rw [h.merged_everyParam]
    exact List.mem_map_of_mem hname
  refine Table.get?_of_mem ?_ mem (Value.beq_self_of_text (h.params name hname))
  rw [h.keys_everyParam]
  exact h.agrees.apart

/-- Nothing is missing there, so the types are looked at, and then the names. -/
theorem Admitted.findNamed_everyParam : s.findNamed (s.everyParam value) =
    (s.findInTypes (Arguments.merged [s.everyParam value]) true true).or
      (s.findExtra (Arguments.merged [s.everyParam value])) := by
  have missing : s.findMissing (Arguments.merged [s.everyParam value]) = none := by
    rw [s.findMissing_eq_none_iff]
    intro name hname
    rw [Table.contains_iff, h.keys_everyParam]
    exact h.agrees.required name hname
  rw [show s.findNamed (s.everyParam value) =
    s.findInNames (Arguments.merged [s.everyParam value]) from rfl, findInNames, missing,
    Option.none_or]

end

section
variable {s : Schema} (h : s.Admitted) {name : Value} (hname : name ∈ s.params)
include h hname

/-- A parameter without a type fails the validation in which it alone is given a value. -/
theorem Admitted.untyped_of_gap (hgap : s.types.get? name = none) :
    ∃ p shown, s.validate .named p = .error (.untypedParameter shown) := by
  let p := s.everyParam fun param => if param == name then .int 1 else .null
  have found (param : Value) (hparam : param ∈ s.params) :
      s.findInParam (Arguments.merged [p]) true true param =
        if param == name then some ⟨.untyped, [param]⟩ else none := by
    have hget := h.get?_everyParam (fun param => if param == name then .int 1 else .null) hparam
    by_cases same : (param == name) = true
    · rw [if_pos same] at hget ⊢
      rw [findInParam_of_value _ _ hget ⟨nofun, nofun⟩, Table.get?_congr same, hgap]
    · rw [if_neg same] at hget ⊢
      rw [findInParam, hget]
  cases hx : s.findInTypes (Arguments.merged [p]) true true with
  | none =>
    have none := List.findSome?_eq_none_iff.1 hx name hname
    rw [found name hname, if_pos (Value.beq_self_of_text (h.params name hname))] at none
    cases none
  | some x =>
    obtain ⟨param, hparam, hat⟩ := List.exists_of_findSome?_eq_some hx
    rw [found param hparam] at hat
    split at hat
    next =>
      cases hat
      have reports := s.reports_validateNamed (p := p) rfl
      rw [h.findNamed_everyParam, hx, Option.some_or] at reports
      obtain ⟨f, hf, ⟨-, shown, rfl⟩ | ⟨⟨v, hv, hn⟩, -⟩⟩ := reports.of_some
      · exact ⟨p, shown, hf⟩
      · obtain rfl := List.mem_singleton.1 hv
        exact absurd (Value.shown_of_text (h.params v hparam)) hn
    next => cases hat

/-- A parameter without a position is disowned by the validation in which every parameter is null. -/
theorem Admitted.disowned_of_gap (hgap : s.isDeclared name = false) :
    ∃ p f, s.validateNamed p = .error f ∧ s.DisownsParameter f := by
  have types : s.findInTypes (Arguments.merged [s.everyParam fun _ => .null]) true true = none := by
    refine List.findSome?_eq_none_iff.2 fun param hparam => ?_
    rw [findInParam, h.get?_everyParam _ hparam]
  have undeclared : name ∈ s.params.filter fun key => !s.isDeclared key :=
    List.mem_filter.2 ⟨hname, by rw [hgap]; rfl⟩
  have reports := s.reports_validateNamed (p := s.everyParam fun _ => .null) rfl
  rw [h.findNamed_everyParam, types, Option.none_or, findExtra, h.keys_everyParam] at reports
  cases hextras : s.params.filter fun key => !s.isDeclared key with
  | nil =>
    rw [hextras] at undeclared
    cases undeclared
  | cons first rest =>
    simp only [hextras] at reports
    have shown : ∀ v ∈ s.name :: first :: rest, v.Shown := by
      refine List.forall_mem_cons.2 ⟨Value.shown_of_text h.label, fun v hv => ?_⟩
      rw [← hextras] at hv
      exact Value.shown_of_text (h.params v (List.mem_filter.1 hv).1)
    obtain ⟨message, hf⟩ := reports.violates shown
    rw [hextras] at undeclared
    exact ⟨_, _, hf, message, _, rfl, name, undeclared, name, hname,
      Value.beq_self_of_text (h.params name hname)⟩

end

/-- No table of an admitted schema contradicts its parameters. It never reports a declared parameter
as unexpected exactly if each has its place in the table of positions, and neither it nor a schema
within it ever looks for a type in vain exactly if each parameter of each has one. -/
theorem admitted_usable_iff {s : Schema} (h : ∀ t : Schema, t.Within s → t.Admitted) :
    (∀ t : Schema, t.Within s → t.Agrees) ∧
    (∀ t : Schema, t.Within s →
      ((∀ p f, t.validate .named p = .error f → ¬ t.DisownsParameter f) ↔ t.PositionsCover)) ∧
    ((∀ t : Schema, t.Within s → ∀ c p name, t.validate c p ≠ .error (.untypedParameter name)) ↔
      ∀ t : Schema, t.Within s → t.TypesCover) := by
  refine ⟨fun t ht => (h t ht).agrees, fun t ht => ?_, ?_⟩
  · rw [(h t ht).agrees.positionsCover_iff]
    constructor
    · intro owned name hname
      cases hgap : t.isDeclared name with
      | true => rfl
      | false =>
        obtain ⟨p, f, hf, disowns⟩ := (h t ht).disowned_of_gap hname hgap
        exact absurd disowns (owned p f hf)
    · rintro declared p f hf ⟨message, names, rfl, name, hname, param, hparam, same⟩
      have undeclared := (traced_validateNamed hf).unexpected _ _ _ rfl name hname
      rw [isDeclared, Table.contains, Table.get?_congr same] at undeclared
      exact absurd (declared param hparam) (Bool.eq_false_iff.1 undeclared)
  · constructor
    · intro typed t ht name hname
      cases hgap : t.types.get? name with
      | some e => rfl
      | none =>
        obtain ⟨p, shown, hf⟩ := (h t ht).untyped_of_gap hname hgap
        exact absurd hf (typed t ht .named p shown)
    · intro covers t ht c p name hf
      have gapless {u : Schema} (hu : u.Within s) (traced : (Failure.untypedParameter name).TracedTo u) :
          False := by
        obtain ⟨param, hparam, hgap⟩ := traced.untyped name rfl
        have covered := covers u hu param hparam
        rw [hgap] at covered
        cases covered
      rcases traced_validate hf with traced | ⟨e, he, traced⟩
      · exact gapless ht traced
      · exact gapless (ht.of_hybrid he) traced

theorem admitted_usable_of_one : ∃ s : Schema, s.Admitted ∧ s.arity = 1 ∧
    (∀ p f, s.validate .named p = .error f → ¬ s.DisownsParameter f) ∧
    ∀ c p name, s.validate c p ≠ .error (.untypedParameter name) := by
  let s : Schema :=
    { name := .str "S"
      params := [.str "a"]
      required := [.str "a"]
      types := ⟨[(.str "a", .wildcard)]⟩
      positions := ⟨[(.str "a", 0)]⟩
      hybrids := .empty }
  have admitted : s.Admitted :=
    ⟨rfl, List.forall_mem_singleton.2 rfl, List.forall_mem_singleton.2 rfl,
      List.forall_mem_singleton.2 nofun, rfl⟩
  have alone {P : Schema → Prop} (h : P s) : ∀ t, Within t s → P t :=
    Within.forall_iff.2 ⟨h, nofun⟩
  obtain ⟨-, owned, typed⟩ := admitted_usable_iff (alone admitted)
  have positions : s.PositionsCover := by
    rintro (_ | i) name hi
    · cases hi
      rfl
    · cases hi
  have types : s.TypesCover := List.forall_mem_singleton.2 rfl
  exact ⟨s, admitted, rfl, (owned s (.self s)).2 positions, typed.2 (alone types) s (.self s)⟩

/-- A schema is admitted although one parameter has no type, another one no position, and the type at
a destructured position is no mapping. -/
theorem admitted_with_gaps : ∃ s : Schema, (∀ t : Schema, t.Within s → t.Admitted) ∧
    (∃ shown, s.validate .named (.record [("a", .int 1)]) = .error (.untypedParameter shown)) ∧
    (∃ f, s.validate .named (.record [("b", .null)]) = .error f ∧ s.DisownsParameter f) ∧
    ∃ e ∈ s.hybrids.entries, ∃ name, paramAt? s.params e.1 = some name ∧
      s.types.get? name = some .wildcard := by
  let nested : Schema :=
    { name := .str "T", params := [], required := [], types := .empty, positions := .empty,
      hybrids := .empty }
  let s : Schema :=
    { name := .str "S"
      params := [.str "a", .str "b"]
      required := []
      types := ⟨[(.str "b", .wildcard)]⟩
      positions := ⟨[(.str "a", 0)]⟩
      hybrids := ⟨[(1, nested)]⟩ }
  have inner : ∀ t, Within t nested → t.Admitted :=
    Within.forall_iff.2 ⟨⟨rfl, nofun, nofun, nofun, rfl⟩, nofun⟩
  have outer : s.Admitted :=
    ⟨rfl, List.forall_mem_cons.2 ⟨rfl, List.forall_mem_singleton.2 rfl⟩, nofun,
      List.forall_mem_singleton.2 nofun, rfl⟩
  have disowned : s.DisownsParameter (.violation s.name
      "Unknown parameter(s) passed to S: \"b\"" (.unexpected [.str "b"])) :=
    ⟨_, _, rfl, .str "b", List.mem_singleton.2 rfl, .str "b",
      List.mem_cons_of_mem _ (List.mem_singleton.2 rfl), rfl⟩
  exact ⟨s, Within.forall_iff.2 ⟨outer, List.forall_mem_singleton.2 inner⟩, ⟨_, rfl⟩,
    ⟨_, rfl, disowned⟩, (1, nested), List.mem_singleton.2 rfl, .str "b", rfl, rfl⟩

end Schema

end CallContract
