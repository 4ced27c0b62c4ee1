import CallContract.Proofs.Finding

/-!
# What the checks of a payload find

One finding for each check: the required names that are missing, the first value in declaration
order that does not have its declared type, the names that are not declared, the surplus of
positional values. Each finding is reported by the check of its name, for every schema and payload.
-/

namespace CallContract

namespace Value

def IsThere (v : Value) : Prop := v ≠ .null ∧ v ≠ .undefined

theorem null_or_undefined_or_there (v : Value) : v = .null ∨ v = .undefined ∨ v.IsThere := by
  cases v with
  | null => exact .inl rfl
  | undefined => exact .inr (.inl rfl)
  | _ => exact .inr (.inr ⟨nofun, nofun⟩)

end Value

namespace Schema

variable (s : Schema) (supplied : Payload)

def findMissing : Option Finding :=
  match s.required.filter fun name => !supplied.contains name with
  | [] => none
  | missing => some (.violation s.name (.missing missing) (s.name :: missing))

/-- A value that is there and not null, against the type that its parameter expects. An array in
place of another value and an instance of another class are reported without being shown. -/
def findInValue (name value : Value) (checkBags : Bool) : Expected → Option Finding
  | .wildcard => none
  | .bag _ =>
    if checkBags && !value.isMapping then
      some (.violation s.name (.mismatch name (.str "mapping") value) [s.name, name, value])
    else none
  | .instanceOf c =>
    if c = .any then some ⟨.untestable, []⟩
    else if value.isInstance c then none
    else some (.violation s.name (.mismatch name (.str ("instance of " ++ c.name)) value)
      [s.name, name])
  | .primitive tag =>
    if value.hasTag tag then none
    else some (.violation s.name (.mismatch name (.str tag) value)
      (s.name :: name :: if tag = Tag.array.name then [] else [value]))
  | .other e => some (.malformed [e, name, s.name])

def findInParam (checkUndefined checkBags : Bool) (name : Value) : Option Finding :=
  match supplied.get? name with
  | none | some .null => none
  | some .undefined =>
    if checkUndefined then some (.violation s.name (.undefinedValue name) [s.name, name]) else none
  | some value =>
    match s.types.get? name with
    | some e => s.findInValue name value checkBags e
    | none => some ⟨.untyped, [name]⟩

def findInTypes (checkUndefined checkBags : Bool) : Option Finding :=
  s.params.findSome? (s.findInParam supplied checkUndefined checkBags)

def findExtra : Option Finding :=
  match supplied.keys.filter fun key => !s.isDeclared key with
  | [] => none
  | extras => some (.violation s.name (.unexpected extras) (s.name :: extras))

def findSurplus (received : Int) : Option Finding :=
  if s.arity < received then
    some (.violation s.name (.tooMany (.int received) (.int s.arity)) [s.name])
  else none

theorem reports_checkRequired :
    Reports (s.findMissing supplied) (s.checkRequired supplied) := by
  simp only [findMissing, checkRequired]
  cases s.required.filter fun name => !supplied.contains name with
  | nil => exact .passes _
  | cons name names =>
    refine Reports.showing (.display s.name) fun label => ?_
    exact Reports.throwing (.quotedNames _) fun shown => ⟨_, rfl⟩

theorem findMissing_eq_none_iff :
    s.findMissing supplied = none ↔ ∀ name ∈ s.required, supplied.contains name = true := by
  rw [findMissing]
  cases h : s.required.filter fun name => !supplied.contains name with
  | nil => simpa [List.filter_eq_nil_iff] using h
  | cons name names =>
    obtain ⟨hmem, hnot⟩ := List.mem_filter.1 (h ▸ List.mem_cons_self : name ∈ s.required.filter _)
    refine ⟨nofun, fun hall => ?_⟩
    rw [hall name hmem] at hnot
    cases hnot

theorem checkRequired_eq_ok_iff :
    s.checkRequired supplied = .ok () ↔ ∀ name ∈ s.required, supplied.contains name = true := by
  rw [← s.findMissing_eq_none_iff, ← (s.reports_checkRequired supplied).isOk_iff]
  exact ⟨fun h => ⟨(), h⟩, fun ⟨_, h⟩ => h⟩

theorem reports_mismatch {α : Type} {name value : Value} {expected : String}
    {text : Except Failure String} {vs : List Value} (h : Shows vs text) :
    Reports (some (.violation s.name (.mismatch name (.str expected) value) (s.name :: name :: vs)))
      (s.mismatch name text expected value : Except Failure α) := by
  refine Reports.showing (.display s.name) fun label => ?_
  refine Reports.showing (.display name) fun shownName => ?_
  exact Reports.throwing h fun text => ⟨_, rfl⟩

theorem shows_mismatchText (value : Value) (tag : String) :
    Shows (if tag = Tag.array.name then [] else [value]) (value.mismatchText tag) := by
  rw [Value.mismatchText]
  split
  · exact .pure _
  · exact (Shows.literal value).map _

theorem reports_checkValue (name value : Value) (expected : Expected) (checkBags : Bool) :
    Reports (s.findInValue name value checkBags expected)
      (s.checkValue name expected value checkBags) := by
  cases expected with
  | wildcard => exact .passes _
  | bag nested =>
    simp only [findInValue, checkValue]
    split
    · exact s.reports_mismatch ((Shows.literal value).map _)
    · exact .passes _
  | instanceOf c =>
    simp only [findInValue, checkValue, Value.testInstance]
    split
    · exact .throw rfl
    · cases value.isInstance c with
      | true => exact .passes _
      | false =>
        refine Reports.showing (.display s.name) fun label => ?_
        exact Reports.throwing (.display name) fun shownName => ⟨_, rfl⟩
  | primitive tag =>
    simp only [findInValue, checkValue]
    split
    · exact .passes _
    · exact s.reports_mismatch (shows_mismatchText value tag)
  | other e =>
    refine Reports.showing (.literal e) fun shown => ?_
    refine Reports.showing (.display name) fun shownName => ?_
    exact Reports.throwing (.display s.name) fun label => ⟨_, _, _, rfl⟩

section
variable {s supplied} {name v : Value} (checkUndefined checkBags : Bool)

theorem findInParam_of_value (h : supplied.get? name = some v) (hv : v.IsThere) :
    s.findInParam supplied checkUndefined checkBags name =
      match s.types.get? name with
      | some e => s.findInValue name v checkBags e
      | none => some ⟨.untyped, [name]⟩ := by
  rw [findInParam, h]
  split
  next h' => cases h'
  next h' => exact absurd (Option.some.inj h') hv.1
  next h' => exact absurd (Option.some.inj h') hv.2
  next h' => cases h'; rfl

theorem checkParam_of_value (h : supplied.get? name = some v) (hv : v.IsThere) :
    s.checkParam supplied checkUndefined checkBags name =
      s.expected name >>= fun e => s.checkValue name e v checkBags := by
  rw [checkParam, h]
  split
  next h' => cases h'
  next h' => exact absurd (Option.some.inj h') hv.1
  next h' => exact absurd (Option.some.inj h') hv.2
  next h' => cases h'; rfl

end

theorem reports_checkParam (checkUndefined checkBags : Bool) (name : Value) :
    Reports (s.findInParam supplied checkUndefined checkBags name)
      (s.checkParam supplied checkUndefined checkBags name) := by
  cases h : supplied.get? name with
  | none =>
    simp only [findInParam, checkParam, h]
    exact .passes _
  | some v =>
    rcases v.null_or_undefined_or_there with rfl | rfl | hv
    · simp only [findInParam, checkParam, h]
      exact .passes _
    · simp only [findInParam, checkParam, h]
      split
      · refine Reports.showing (.display s.name) fun label => ?_
        exact Reports.throwing (.display name) fun shownName => ⟨_, rfl⟩
      · exact .passes _
    · rw [findInParam_of_value _ _ h hv, checkParam_of_value _ _ h hv, expected]
      cases s.types.get? name with
      | some e => exact s.reports_checkValue name v e checkBags
      | none =>
        have untyped (shown : String) : Offence.untyped.EndsIn (.untypedParameter shown) :=
          ⟨shown, rfl⟩
        exact (Reports.throwing (.literal name) untyped).stop

theorem reports_checkTypes (checkUndefined checkBags : Bool) :
    Reports (s.findInTypes supplied checkUndefined checkBags)
      (s.checkTypes supplied checkUndefined checkBags) :=
  Reports.forM fun name _ => s.reports_checkParam supplied checkUndefined checkBags name

theorem reports_checkExtra : Reports (s.findExtra supplied) (s.checkExtra supplied) := by
  simp only [findExtra, checkExtra]
  cases supplied.keys.filter fun key => !s.isDeclared key with
  | nil => exact .passes _
  | cons key keys =>
    refine Reports.showing (.display s.name) fun label => ?_
    exact Reports.throwing (.quotedNames _) fun shown => ⟨_, rfl⟩

theorem reports_checkArity (received : Int) :
    Reports (s.findSurplus received) (s.checkArity received) := by
  unfold findSurplus checkArity
  split
  · exact Reports.throwing (.display s.name) fun label => ⟨_, rfl⟩
  · exact .passes _

theorem checkRequired_congr {s : Schema} {supplied supplied' : Payload}
    (h : ∀ name ∈ s.required, supplied.contains name = supplied'.contains name) :
    s.checkRequired supplied = s.checkRequired supplied' := by
  have missing : s.required.filter (fun name => !supplied.contains name) =
      s.required.filter fun name => !supplied'.contains name :=
    List.filter_congr fun name hname => by rw [h name hname]
  rw [checkRequired, checkRequired, missing]

end Schema

end CallContract
