import CallContract.Proofs.ErrorFamily
import CallContract.Proofs.Pairing

/-!
# Coherence of compiled schemas

The tables of a compiled schema are those of the entries of its specification, place by place
(`Schema.Coherent`): what each entry declares is said by `Specification.Declares` and
`Specification.Marks`, without a look at how declarations are read. A schema is coherent at both
levels, and the second one has no destructured arguments (`Compiler.compile_coherent`).

So nothing that a validation looks up in these tables is ever missing there, whatever the arguments
are, and a validation ends in a configuration error for the shape of its arguments alone.
-/

namespace CallContract

namespace Specification

/-- What a declaration makes its parameter expect; `bagged` says what a mapping does. -/
inductive Declares (bagged : List (Value × Value) → Expected → Prop) : Value → Expected → Prop
  | wildcard {declared : Value} {s : String} {required : Bool} (hs : declared.text? = some s)
    (h : Spells s .any required) : Declares bagged declared .wildcard
  | primitive {declared : Value} {s : String} {t : Tag} {required : Bool}
    (hs : declared.text? = some s) (h : Spells s t required) (ht : t ≠ .any) :
    Declares bagged declared (.primitive t.name)
  | instanceOf (c : ClassName) : Declares bagged (.cls c) (.instanceOf c)
  | mapping {declared : Value} {entries : List (Value × Value)} {e : Expected}
    (h : declared.entries? = some entries) (he : bagged entries e) : Declares bagged declared e

/-- The declaration marks its parameter required. -/
def Marks (declared : Value) : Prop := ∃ s t, declared.text? = some s ∧ Spells s t true

end Specification

namespace Schema

open Specification

/-- The tables of a schema are those of the entries, place by place. -/
structure Coherent (bagged : Nat → List (Value × Value) → Expected → Prop) (label : Value)
    (entries : List (Value × Value)) (s : Schema) : Prop where
  name : s.name = label
  params : s.params = entries.map Prod.fst
  texts : ∀ name ∈ s.params, name.text?.isSome
  apart : Table.Apart s.params
  positions : s.positions.entries = s.params.zipIdx.map fun (name, i) => (name, (i : Int))
  typed : s.types.keys = s.params
  types : ∀ (i : Nat) (e : Value × Value), entries[i]? = some e →
    ∃ x, s.types.get? e.1 = some x ∧ Declares (bagged i) e.2 x
  /-- The required names keep the order of the parameters. -/
  required_sublist : s.required.Sublist s.params
  required : ∀ e ∈ entries, e.1 ∈ s.required ↔ Marks e.2
  hybrids : ∀ i nested, (i, nested) ∈ s.hybrids.entries ↔
    ∃ name, paramAt? s.params i = some name ∧ s.types.get? name = some (.bag nested)
  hybrids_ascend : s.hybrids.keys.Pairwise (· < ·)

/-- A mapping inside a destructured argument declares an object, so nothing is destructured there. -/
structure CoherentFlat (label : Value) (entries : List (Value × Value)) (s : Schema) : Prop
    extends Coherent (fun _ _ e => e = .primitive Tag.object.name) label entries s where
  no_bags : ∀ name nested, s.types.get? name ≠ some (.bag nested)
  no_hybrids : s.hybrids.entries = []

/-- A mapping declares a destructured argument, whose schema is coherent with it under the label of
its position. -/
def CoherentDeep (label : Value) (entries : List (Value × Value)) (s : Schema) : Prop :=
  Coherent
    (fun i nested e => ∃ t, e = .bag t ∧ CoherentFlat (bagLabel label.shownText i) nested t)
    label entries s

end Schema

namespace Specification

variable {label : Value} {nested : Nat → List (Value × Value) → Except Failure Expected}
  {bagged : Nat → List (Value × Value) → Expected → Prop}

theorem declares_of_spells {bagged : List (Value × Value) → Expected → Prop} {declared : Value}
    {s : String} {t : Tag} {required : Bool} (hs : declared.text? = some s)
    (h : Spells s t required) : Declares bagged declared (expectedOfTag t) := by
  rw [expectedOfTag]
  split
  next ht => exact .wildcard hs (ht ▸ h)
  next ht => exact .primitive hs h ht

theorem marks_iff_of_spells {declared : Value} {s : String} {t : Tag} {required : Bool}
    (hs : declared.text? = some s) (h : Spells s t required) : Marks declared ↔ required = true := by
  constructor
  · rintro ⟨s', t', hs', h'⟩
    obtain rfl := Option.some.inj (hs.symm.trans hs')
    have same := (readTag?_eq_some_iff.2 h).symm.trans (readTag?_eq_some_iff.2 h')
    exact congrArg Prod.snd (Option.some.inj same)
  · rintro rfl
    exact ⟨s, t, hs, h⟩

theorem not_marks_of_no_text {declared : Value} (h : declared.text? = none) : ¬ Marks declared := by
  rintro ⟨s, t, hs, -⟩
  rw [h] at hs
  cases hs

theorem readDeclaration_declares {nested : List (Value × Value) → Except Failure Expected}
    {bagged : List (Value × Value) → Expected → Prop}
    (hn : ∀ entries e, nested entries = .ok e → bagged entries e) {name declared : Value}
    {x : Expected × Bool} (h : readDeclaration label name declared nested = .ok x) :
    Declares bagged declared x.1 ∧ (x.2 = true ↔ Marks declared) := by
  have text {s : String} (hs : declared.text? = some s) :
      Declares bagged declared x.1 ∧ (x.2 = true ↔ Marks declared) := by
    cases ht : readTag? s with
    | some tag =>
      rw [readDeclaration_tag hs ht] at h
      obtain rfl := Except.ok.inj h
      have spells := readTag?_eq_some_iff.1 ht
      exact ⟨declares_of_spells hs spells, (marks_iff_of_spells hs spells).symm⟩
    | none =>
      obtain ⟨f, hf, -⟩ := (reports_unknownTag (α := Expected × Bool) label name s).of_some
      rw [readDeclaration_no_tag hs ht, hf] at h
      cases h
  cases declared with
  | str | text => exact text rfl
  | mapping kind entries =>
    obtain ⟨e, he, h⟩ := bind_eq_ok.1 h
    cases h
    have unmarked : ¬ Marks (.mapping kind entries) := not_marks_of_no_text rfl
    exact ⟨.mapping rfl (hn entries e he), nofun, fun hm => absurd hm unmarked⟩
  | cls c =>
    cases h
    exact ⟨.instanceOf c, nofun, fun hm => absurd hm (not_marks_of_no_text rfl)⟩
  | _ =>
    obtain ⟨f, hf, -⟩ := (reports_unknownDeclaration (α := Expected × Bool) label name _).of_some
    exact absurd (h.symm.trans hf) nofun

section
variable {entries : List (Value × Value)} {ps : List Parameter}
  (h : entries.zipIdx.mapM (readParameter label nested) = .ok ps)
include h

theorem read_of_entry {i : Nat} {e : Value × Value} (hi : entries[i]? = some e) :
    ∃ p, ps[i]? = some p ∧ readParameter label nested (e, i) = .ok p := by
  obtain ⟨hlen, -⟩ := mapM_eq_ok h
  have hlt : i < ps.length := by
    rw [hlen, List.length_zipIdx]
    exact (List.getElem?_eq_some_iff.1 hi).1
  have hp := List.getElem?_eq_getElem hlt
  obtain ⟨e', he', hread⟩ := read_entry h hp
  obtain rfl := Option.some.inj (hi.symm.trans he')
  exact ⟨ps[i], hp, hread⟩

theorem required_iff_marks (listed : Listed ps)
    (hn : ∀ i entries e, nested i entries = .ok e → bagged i entries e) {e : Value × Value}
    (he : e ∈ entries) :
    e.1 ∈ (ps.filter (·.required)).map (·.name) ↔ Marks e.2 := by
  obtain ⟨i, hi⟩ := List.mem_iff_getElem?.1 he
  obtain ⟨p, hp, hread⟩ := read_of_entry h hi
  obtain ⟨hname, htext, -, hdecl⟩ := readParameter_eq_ok hread
  rw [← (readDeclaration_declares (hn i) hdecl).2]
  constructor
  · intro hmem
    obtain ⟨q, hq, hqe⟩ := List.mem_map.1 hmem
    obtain ⟨hq, hrequired⟩ := List.mem_filter.1 hq
    obtain ⟨j, hj⟩ := List.mem_iff_getElem?.1 hq
    -- of the same name there is only one parameter
    have hpi : (ps.map (·.name))[i]? = some p.name := by rw [List.getElem?_map, hp]; rfl
    have hqj : (ps.map (·.name))[j]? = some q.name := by rw [List.getElem?_map, hj]; rfl
    have same : (p.name == q.name) = true := by
      rw [hqe, hname]
      exact Value.beq_self_of_text htext
    obtain rfl := Table.Apart.index_unique listed.apart hpi hqj same
    obtain rfl := Option.some.inj (hp.symm.trans hj)
    exact hrequired
  · intro hrequired
    rw [← hname]
    exact List.mem_map_of_mem (List.mem_filter.2 ⟨List.mem_of_getElem? hp, hrequired⟩)

end

theorem paramAt?_eq_some_iff {names : List Value} {i : Int} {name : Value} :
    Schema.paramAt? names i = some name ↔ ∃ n : Nat, i = n ∧ names[n]? = some name := by
  rw [Schema.paramAt?]
  split
  next hneg =>
    constructor
    · intro h
      cases h
    · rintro ⟨n, hn, -⟩
      omega
  next hpos =>
    constructor
    · intro h
      exact ⟨i.toNat, by omega, h⟩
    · rintro ⟨n, rfl, h⟩
      rwa [Int.toNat_natCast]

theorem compileEntries_coherent {entries : List (Value × Value)} {s : Schema}
    (hn : ∀ i entries e, nested i entries = .ok e → bagged i entries e)
    (h : compileEntries label nested entries = .ok s) : s.Coherent bagged label entries := by
  obtain ⟨ps, hps, listed, rfl⟩ := compileEntries_eq_ok h
  exact
    { name := rfl
      params := names_of_read hps
      texts := List.forall_mem_map.2 listed.texts
      apart := listed.apart
      positions := by
        refine List.ext_getElem? fun i => ?_
        simp only [Schema.listing, List.getElem?_map, List.getElem?_zipIdx]
        cases hi : ps[i]? with
        | none => rfl
        | some p => simp [listed.numbered i p hi]
      typed := by simp [Schema.listing, Table.keys]
      types := fun i e hi => by
        obtain ⟨p, hp, hread⟩ := read_of_entry hps hi
        obtain ⟨hname, -, -, hdecl⟩ := readParameter_eq_ok hread
        have hmem := List.mem_of_getElem? hp
        refine ⟨p.expected, ?_, (readDeclaration_declares (hn i) hdecl).1⟩
        rw [← hname]
        exact listed.types_get? hmem (listed.beq_self hmem)
      required_sublist := List.Sublist.map _ List.filter_sublist
      required := fun e he => required_iff_marks hps listed hn he
      hybrids := fun i nested => by
        rw [Schema.mem_hybrids]
        constructor
        · rintro ⟨p, hp, hbag, rfl⟩
          refine ⟨p.name, listed.paramAt? hp, ?_⟩
          rw [listed.types_get? hp (listed.beq_self hp), hbag]
        · rintro ⟨name, hat, htype⟩
          obtain ⟨n, rfl, hn⟩ := paramAt?_eq_some_iff.1 hat
          rw [Schema.listing, List.getElem?_map] at hn
          obtain ⟨p, hp, rfl⟩ := Option.map_eq_some_iff.1 hn
          have hmem := List.mem_of_getElem? hp
          rw [listed.types_get? hmem (listed.beq_self hmem)] at htype
          exact ⟨p, hmem, Option.some.inj htype, listed.numbered n p hp⟩
      hybrids_ascend := listed.hybrids_ascend label }

theorem compileFlat_coherent {entries : List (Value × Value)} {s : Schema}
    (h : compileFlat label entries = .ok s) : s.CoherentFlat label entries := by
  have coherent : s.Coherent (fun _ _ e => e = .primitive Tag.object.name) label entries :=
    compileEntries_coherent (fun _ _ _ he => (Except.ok.inj he).symm) h
  obtain ⟨ps, rfl, listed, flat⟩ := compileFlat_eq_ok h
  have no_bags (name : Value) (nested : Schema) :
      (Schema.listing label ps).types.get? name ≠ some (.bag nested) := by
    intro hget
    obtain ⟨e, he, -, hbag⟩ := Table.mem_of_get? hget
    obtain ⟨p, hp, rfl⟩ := List.mem_map.1 he
    have hflat := flat p hp
    rw [show p.expected = .bag nested from hbag] at hflat
    cases hflat
  refine ⟨coherent, no_bags, List.eq_nil_iff_forall_not_mem.2 fun e he => ?_⟩
  obtain ⟨name, -, htype⟩ := (coherent.hybrids e.1 e.2).1 he
  exact no_bags name e.2 htype

theorem compileDeep_coherent (hl : label.display = .ok label.shownText)
    {entries : List (Value × Value)} {s : Schema} (h : compileDeep label entries = .ok s) :
    s.CoherentDeep label entries := by
  refine compileEntries_coherent (fun i es e he => ?_) h
  obtain ⟨text, htext, hrest⟩ := bind_eq_ok.1 he
  obtain ⟨nested, hnested, hbag⟩ := bind_eq_ok.1 hrest
  rw [nestedLabel_eq hl] at htext
  obtain rfl := Except.ok.inj htext
  exact ⟨nested, (Except.ok.inj hbag).symm, compileFlat_coherent hnested⟩

end Specification

/-- The failure has not come from the tables of a schema: it is none of a missing expected type, and
a configuration error only for misshapen arguments. -/
structure Failure.FromArguments (misshapen : Prop) (f : Failure) : Prop where
  typed : ∀ name, f ≠ .untypedParameter name
  shape : ∀ message details cause, f = .contract (.configuration message details cause) → misshapen

namespace Failure.FromArguments

variable {α : Type} {misshapen given : Prop} {f : Failure} {x : Finding} {o : Option Finding}
  {s : Schema}

theorem iteration (why : Interruption) : (Failure.iteration why).FromArguments misshapen :=
  ⟨nofun, nofun⟩

theorem of_finding (h : x.EndsIn f) (typed : x.offence ≠ .untyped)
    (shape : x.offence = .malformed → misshapen) : f.FromArguments misshapen := by
  obtain ⟨offence, shown⟩ := x
  rcases h with ⟨-, ho⟩ | ⟨-, text, rfl⟩
  · cases offence with
    | untestable =>
      obtain rfl : f = .untestableClass := ho
      exact ⟨nofun, nofun⟩
    | untyped => exact absurd rfl typed
    | malformed =>
      obtain ⟨message, details, cause, rfl⟩ := ho
      exact ⟨nofun, fun _ _ _ _ => shape rfl⟩
    | violation contract what =>
      obtain ⟨message, rfl⟩ := ho
      exact ⟨nofun, nofun⟩
  · exact ⟨nofun, nofun⟩

theorem of_ordinary (h : x.EndsIn f) (ordinary : x.IsOrdinary s given) :
    f.FromArguments misshapen := by
  rcases ordinary.offence with ⟨what, hwhat, -⟩ | ⟨hany, -⟩
  · exact of_finding h (by rw [hwhat]; nofun) (by rw [hwhat]; nofun)
  · exact of_finding h (by rw [hany]; nofun) (by rw [hany]; nofun)

theorem of_reports {outcome : Except Failure α} (h : Reports o outcome)
    (ordinary : Finding.Always (Finding.IsOrdinary s given) o) (hf : outcome = .error f) :
    f.FromArguments misshapen := by
  obtain ⟨y, hy, hends⟩ := h.error hf
  exact of_ordinary hends (ordinary y hy)

end Failure.FromArguments

namespace Schema

variable {s : Schema}

theorem finish_eq_error {st : Stream} {f : Failure} (hf : st.finish = .error f) :
    ∃ why, f = .iteration why := by
  rw [Stream.finish] at hf
  split at hf
  next why _ => exact ⟨why, (Except.error.inj hf).symm⟩
  next => cases hf

/-- Positional values are refused for their shape, or because their iteration breaks off. -/
theorem positionalValues_eq_error {p : Value} {f : Failure}
    (hf : Arguments.positionalValues s p = .error f) : (∃ why, f = .iteration why) ∨
      ∃ x : Finding, x.EndsIn f ∧ x.offence = .malformed ∧ p.sequence? = none := by
  cases hvs : p.sequence? with
  | none =>
    obtain ⟨x, hx, ends⟩ := (reports_positionalValues_of_no_sequence hvs).error hf
    cases hx
    exact .inr ⟨_, ends, rfl, rfl⟩
  | some vs =>
    by_cases hp : p.interruption? = none
    · rw [Arguments.positionalValues_of_sequence hp hvs] at hf
      cases hf
    · cases p with
      | generator | range =>
        rcases bind_eq_error.1 hf with hf | ⟨_, -, hf⟩
        · exact .inl (finish_eq_error hf)
        · cases hf
      | _ => exact absurd rfl hp

theorem positionalValues_fails {p : Value} {f : Failure}
    (hf : Arguments.positionalValues s p = .error f) :
    f.FromArguments (p.sequence? = none) := by
  rcases positionalValues_eq_error hf with ⟨why, rfl⟩ | ⟨x, ends, hx, hvs⟩
  · exact .iteration why
  · exact .of_finding ends (by rw [hx]; nofun) fun _ => hvs

/-- Named arguments are refused for their shape, for a fragment that is no mapping, or because their
iteration breaks off. -/
theorem named_eq_error {p : Value} {f : Failure} (hf : Arguments.named s p = .error f) :
    (∃ why, f = .iteration why) ∨ ∃ x : Finding, x.EndsIn f ∧
      (x.offence = .malformed ∧ p.fragments? = none ∨
        ∃ v, x.offence = .violation s.name (.mismatch .null (.str "mapping") v)) := by
  have merging {fs : List Value} (hf : Arguments.mergeFragments s fs = .error f) :
      ∃ x : Finding, x.EndsIn f ∧ (x.offence = .malformed ∧ p.fragments? = none ∨
        ∃ v, x.offence = .violation s.name (.mismatch .null (.str "mapping") v)) := by
    obtain ⟨x, hx, ends⟩ := (reports_mergeFragments fs).error hf
    obtain ⟨v, -, hv⟩ := List.exists_of_findSome?_eq_some hx
    rw [findInFragment] at hv
    split at hv
    · cases hv
    · cases hv
      exact ⟨_, ends, .inr ⟨v, rfl⟩⟩
  cases hfs : p.fragments? with
  | none =>
    rw [Arguments.named_of_no_fragments hfs] at hf
    have refused : Reports (some (.malformed [s.name])) (Arguments.notFragments s p) :=
      Reports.throwing (.display s.name) fun label => ⟨_, _, _, rfl⟩
    obtain ⟨x, hx, ends⟩ := refused.error hf
    cases hx
    exact .inr ⟨_, ends, .inl ⟨rfl, rfl⟩⟩
  | some fs =>
    rw [hfs] at merging
    by_cases hp : p.interruption? = none
    · rw [Arguments.named_of_fragments hp hfs] at hf
      exact .inr (merging hf)
    · cases p with
      | generator ref items failure =>
        -- it breaks off after fragments that have been merged
        rcases bind_eq_error.1 hf with hf | ⟨supplied, -, hf⟩
        · exact .inr (merging hf)
        · rcases bind_eq_error.1 hf with hf | ⟨_, -, hf⟩
          · exact .inl (finish_eq_error hf)
          · cases hf
      | range => exact .inr (merging hf)
      | _ => exact absurd rfl hp

theorem named_fails {p : Value} {f : Failure} (hf : Arguments.named s p = .error f) :
    f.FromArguments (p.fragments? = none) := by
  rcases named_eq_error hf with ⟨why, rfl⟩ | ⟨x, ends, ⟨hx, hfs⟩ | ⟨v, hx⟩⟩
  · exact .iteration why
  · exact .of_finding ends (by rw [hx]; nofun) fun _ => hfs
  · exact .of_finding ends (by rw [hx]; nofun) (by rw [hx]; nofun)

end Schema

namespace Schema.Typed

variable {s : Schema} (h : s.Typed) {p : Value} {f : Failure}
include h

theorem validateNamed_fails (hf : s.validateNamed p = .error f) :
    f.FromArguments (p.fragments? = none) := by
  rcases bind_eq_error.1 hf with hf | ⟨supplied, -, hf⟩
  · exact named_fails hf
  · exact .of_reports (reports_checkNames supplied) (h.ordinary_findInNames supplied) hf

theorem validateValues_fails {checkBags : Bool} (hf : s.validateValues p checkBags = .error f) :
    f.FromArguments (p.sequence? = none) := by
  rcases bind_eq_error.1 hf with hf | ⟨vs, -, hf⟩
  · exact positionalValues_fails hf
  · exact .of_reports (reports_checkedValues vs checkBags) (h.ordinary_findInValues vs checkBags) hf

end Schema.Typed

namespace Schema.Compiled

variable {s : Schema} {label : Value} {labelText : String} (h : s.Compiled label labelText)
  (hlabel : label.Shown)
include h hlabel

theorem typed_of_part {t : Schema} (ht : t ∈ s.parts) : t.Typed := by
  rcases List.mem_cons.1 ht with rfl | ht
  · exact h.typed hlabel
  · obtain ⟨entry, hentry, rfl⟩ := List.mem_map.1 ht
    exact h.nested_typed hentry

theorem validate_fails {c : Convention} {p : Value} {f : Failure} (hf : s.validate c p = .error f) :
    f.FromArguments (Misshapen p c) := by
  have typed := h.typed hlabel
  cases c with
  | named => exact typed.validateNamed_fails hf
  | positional =>
    rcases bind_eq_error.1 hf with hf | ⟨_, -, hf⟩
    · exact typed.validateValues_fails hf
    · cases hf
  | hybrid =>
    rcases bind_eq_error.1 hf with hf | ⟨vs, -, hf⟩
    · exact typed.validateValues_fails hf
    · rw [h.ascending_hybrids] at hf
      obtain ⟨before, entry, after, hentries, -, hbag⟩ := forM_eq_error hf
      have hentry : entry ∈ s.hybrids.entries := by simp [hentries]
      exact .of_reports (reports_validateBag vs entry)
        ((h.nested_typed hentry).ordinary_findInBag typed) hbag

end Schema.Compiled

namespace Compiler

/-- A compiled schema is coherent with its specification at both levels. Every parameter of every
part has an expected type, every destructured position a parameter, and no validation fails for want
of either or for an expected type that is none, whatever its convention and its arguments. -/
theorem compile_coherent {spec label : Value} {s : Schema} (h : compile spec label = .ok s) :
    (∃ entries, spec.entries? = some entries ∧ s.CoherentDeep label entries) ∧
    (∀ t ∈ s.parts, ∀ name ∈ t.params, ∃ e, t.expected name = .ok e ∧ ∀ v, e ≠ .other v) ∧
    (∀ e ∈ s.hybrids.entries, (Schema.paramAt? s.params e.1).isSome) ∧
    ∀ c p f, s.validate c p = .error f → f.FromArguments (Schema.Misshapen p c) := by
  obtain ⟨hlabel, entries, hentries, hdeep⟩ := compileDeep_of_compile h
  obtain ⟨-, compiled⟩ := compiled_of_compile h
  have coherent := Specification.compileDeep_coherent hlabel.display hdeep
  refine ⟨⟨entries, hentries, coherent⟩, fun t ht name hname => ?_, fun e he => ?_, fun c p f => ?_⟩
  · obtain ⟨x, hx, hother⟩ := (compiled.typed_of_part hlabel.shown ht).types name hname
    exact ⟨x, by rw [Schema.expected, hx], hother⟩
  · obtain ⟨name, hat, -⟩ := (coherent.hybrids e.1 e.2).1 he
    rw [hat]
    rfl
  · exact compiled.validate_fails hlabel.shown

/-- A required parameter, a wildcard in capital letters and a destructured argument with a mapping
inside. -/
theorem compile_coherent_of_three :
    let spec := Value.record [("a", .str "!string"), ("b", .str "ANY"),
      ("c", .record [("x", .record []), ("y", .cls .date)])]
    ∃ s, compile spec (.str "F") = .ok s ∧
      (∃ entries, spec.entries? = some entries ∧ s.CoherentDeep (.str "F") entries) ∧
      s.required = [.str "a"] ∧ s.hybrids.keys = [2] := by
  refine ⟨_, rfl, (compile_coherent rfl).1, rfl, rfl⟩

end Compiler

end CallContract
