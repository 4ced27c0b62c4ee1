import CallContract.Proofs.Payload

/-!
# What a validation finds

The finding of each convention, put together from those of its checks in the order in which they
run. `reports_validate` ties it to the validation of every schema and payload.
-/

namespace CallContract

namespace Schema

variable (s : Schema)

def findInFragment (v : Value) : Option Finding :=
  if v.fragment?.isSome then none
  else some (.violation s.name (.mismatch .null (.str "mapping") v) [s.name])

def findInNames (supplied : Payload) : Option Finding :=
  (s.findMissing supplied).or ((s.findInTypes supplied true true).or (s.findExtra supplied))

def findInValues (vs : List Value) (checkBags : Bool) : Option Finding :=
  (s.findMissing (Arguments.pair s vs)).or
    ((s.findInTypes (Arguments.pair s vs) false checkBags).or (s.findSurplus vs.length))

def findNamed (p : Value) : Option Finding :=
  match p.fragments? with
  | none => some (.malformed [s.name])
  | some fs => (fs.findSome? s.findInFragment).or (s.findInNames (Arguments.merged fs))

/-- What the positional convention finds, with or without a look at the mappings among the values. -/
def findPositional (p : Value) (checkBags : Bool) : Option Finding :=
  match p.sequence? with
  | none => some (.malformed [s.name])
  | some vs => s.findInValues vs checkBags

/-- A destructured argument is found wrong as the named arguments of its nested schema are, or for
not being a mapping. -/
def findInBag (vs : List Value) (entry : Int × Schema) : Option Finding :=
  match vs[entry.1.toNat]?.getD .undefined with
  | .null | .undefined => entry.2.findNamed (.list [.record []])
  | bag =>
    if bag.isMapping then entry.2.findNamed (.list [bag])
    else
      let name := (paramAt? s.params entry.1).getD .null
      some (.violation entry.2.name (.mismatch name (.str "mapping") bag) [entry.2.name, name, bag])

def findHybrid (p : Value) : Option Finding :=
  (s.findPositional p false).or
    ((ascending s.hybrids).findSome? (s.findInBag (p.sequence?.getD [])))

/-- What validating `p` along the convention finds to be wrong. -/
def finding (c : Convention) (p : Value) : Option Finding :=
  match c with
  | .named => s.findNamed p
  | .positional => s.findPositional p true
  | .hybrid => s.findHybrid p

variable {s} {p : Value}

theorem reports_mergeFragment (t : Payload) (v : Value) :
    Reports (s.findInFragment v) (Arguments.mergeFragment s t v) := by
  cases v with
  | null | undefined | mapping => exact .passes _
  | _ => exact Reports.throwing (.display s.name) fun label => ⟨_, rfl⟩

theorem fragments_of_findInFragment {fs : List Value} (h : fs.findSome? s.findInFragment = none) :
    ∀ v ∈ fs, v.fragment?.isSome := by
  intro v hv
  have hf := List.findSome?_eq_none_iff.1 h v hv
  rw [findInFragment] at hf
  split at hf
  · assumption
  · cases hf

theorem reports_mergeFragments (fs : List Value) :
    Reports (fs.findSome? s.findInFragment) (Arguments.mergeFragments s fs) :=
  .foldlM fun t v _ => reports_mergeFragment t v

theorem mergeFragments_eq_ok {fs : List Value} {t : Payload}
    (h : Arguments.mergeFragments s fs = .ok t) : t = Arguments.merged fs := by
  have hn := (reports_mergeFragments fs).isOk_iff.1 ⟨t, h⟩
  rw [Arguments.mergeFragments_of_fragments (fragments_of_findInFragment hn)] at h
  exact (Except.ok.inj h).symm

theorem reports_checkNames (supplied : Payload) :
    Reports (s.findInNames supplied)
      (s.checkRequired supplied >>= fun _ => s.typecheck supplied true true true) :=
  (s.reports_checkRequired supplied).bind fun _ _ =>
    (s.reports_checkTypes supplied true true).bind fun _ _ => s.reports_checkExtra supplied

theorem reports_checkedValues (vs : List Value) (checkBags : Bool) :
    Reports (s.findInValues vs checkBags)
      (s.checkRequired (Arguments.pair s vs) >>= fun _ =>
        s.typecheck (Arguments.pair s vs) false false checkBags >>= fun _ =>
          s.checkArity vs.length >>= fun _ => .ok vs) := by
  refine (s.reports_checkRequired _).bind fun _ _ => ?_
  have types := (s.reports_checkTypes (Arguments.pair s vs) false checkBags).map id
  exact types.bind fun _ _ => (s.reports_checkArity _).map fun _ => vs

theorem reports_validateNamed (hp : p.interruption? = none) :
    Reports (s.findNamed p) (s.validateNamed p) := by
  rw [findNamed]
  cases h : p.fragments? with
  | none =>
    rw [validateNamed, Arguments.named_of_no_fragments h]
    have malformed (label : String) : Offence.malformed.EndsIn (.configuration
        ("Named arguments for " ++ label ++ " must be a mapping or a sequence of mappings, got " ++
          p.typeName) []) := ⟨_, _, _, rfl⟩
    exact (Reports.throwing (.display s.name) malformed).stop
  | some fs =>
    rw [validateNamed, Arguments.named_of_fragments hp h]
    refine (reports_mergeFragments fs).bind fun supplied hs => ?_
    rw [mergeFragments_eq_ok hs]
    exact reports_checkNames _

theorem reports_positionalValues_of_no_sequence (h : p.sequence? = none) :
    Reports (some (.malformed [s.name])) (Arguments.positionalValues s p) := by
  have notValues : Reports (some (.malformed [s.name])) (Arguments.notValues s p) :=
    Reports.throwing (.display s.name) fun label => ⟨_, _, _, rfl⟩
  cases p with
  | null => exact Reports.throwing (.display s.name) fun label => ⟨_, _, _, rfl⟩
  | str | text | bytes | mapping => exact notValues
  | _ =>
    simp only [Value.sequence?] at h
    simp only [Arguments.positionalValues, Value.stream?, h, Option.map_none]
    exact notValues

theorem reports_validateValues (hp : p.interruption? = none) (checkBags : Bool) :
    Reports (s.findPositional p checkBags) (s.validateValues p checkBags) := by
  rw [findPositional]
  cases h : p.sequence? with
  | none => exact (reports_positionalValues_of_no_sequence h).stop
  | some vs =>
    rw [validateValues, Arguments.positionalValues_of_sequence hp h]
    exact reports_checkedValues vs checkBags

theorem validateValues_eq_ok {vs : List Value} {checkBags : Bool} (hp : p.interruption? = none)
    (h : s.validateValues p checkBags = .ok vs) : p.sequence? = some vs := by
  obtain ⟨vs', hvs, hrest⟩ := bind_eq_ok.1 h
  obtain ⟨_, -, hrest⟩ := bind_eq_ok.1 hrest
  obtain ⟨_, -, hrest⟩ := bind_eq_ok.1 hrest
  obtain ⟨_, -, hrest⟩ := bind_eq_ok.1 hrest
  cases hrest
  cases hs : p.sequence? with
  | none =>
    obtain ⟨f, hf, -⟩ := (reports_positionalValues_of_no_sequence (s := s) hs).of_some
    rw [hf] at hvs
    cases hvs
  | some ws =>
    rw [Arguments.positionalValues_of_sequence hp hs] at hvs
    exact congrArg some (Except.ok.inj hvs)

theorem reports_validateBag (vs : List Value) (entry : Int × Schema) :
    Reports (s.findInBag vs entry) (s.validateBag vs entry) := by
  obtain ⟨index, nested⟩ := entry
  simp only [findInBag, validateBag]
  generalize vs[index.toNat]?.getD .undefined = bag
  cases bag with
  | null | undefined => exact reports_validateNamed rfl
  | _ =>
    dsimp only
    split
    · exact reports_validateNamed rfl
    · exact nested.reports_mismatch ((Shows.literal _).map _)

theorem reports_validateHybrid (hp : p.interruption? = none) :
    Reports (s.findHybrid p) (s.validateHybrid p) := by
  refine (reports_validateValues hp false).bind fun vs hvs => ?_
  rw [validateValues_eq_ok hp hvs]
  exact .forM fun entry _ => reports_validateBag vs entry

theorem reports_validate (c : Convention) (hp : p.interruption? = none) :
    Reports (s.finding c p) (s.validate c p) := by
  cases c with
  | named => exact reports_validateNamed hp
  | positional => exact (reports_validateValues hp true).map fun _ => ()
  | hybrid => exact reports_validateHybrid hp

end Schema

end CallContract
