import CallContract.Proofs.Coherence

/-!
# What a specification accepts

Acceptance said of the entries of a specification, without a schema: what each declaration lets pass
in its place (`Specification.Takes`), and from that what the entries accept along a convention
(`Specification.Accepts`). No label occurs in it, and no order of checks.

A compiled schema accepts exactly what its specification does (`Compiler.validate_eq_ok_iff`), so
that two contracts can be compared by their specifications alone.
-/

namespace CallContract

namespace Specification

/-- A value that is there has the declared type; `mappingFits` says which ones a mapping lets pass. -/
def Fits (mappingFits : Value → Prop) (declared v : Value) : Prop :=
  match declared with
  | .mapping _ _ => mappingFits v
  | .cls c => c ≠ .any ∧ v.isInstance c = true
  | .str s | .text s => ∃ t, (∃ required, Spells s t required) ∧ (t = .any ∨ v.hasTag t.name = true)
  | _ => False

/-- What a declaration lets pass in its place, where a value may be missing. -/
def Takes (mappingFits : Value → Prop) (undefinedPasses : Bool) (declared : Value) :
    Option Value → Prop
  | none => ¬ Marks declared
  | some .null => True
  | some .undefined => undefinedPasses = true
  | some v => Fits mappingFits declared v

/-- A destructured argument, which is looked into or not. -/
def FitsBag (lookedInto : Bool) (v : Value) : Prop := lookedInto = true → v.isMapping = true

/-- A mapping inside a destructured argument. -/
def FitsObject (v : Value) : Prop := v.hasTag Tag.object.name = true

structure AcceptsNames (mappingFits : Value → Prop) (entries : List (Value × Value))
    (supplied : Payload) : Prop where
  takes : ∀ e ∈ entries, Takes mappingFits false e.2 (supplied.get? e.1)
  declared : ∀ k ∈ supplied.keys, ∃ e ∈ entries, (k == e.1) = true

structure AcceptsValues (mappingFits : Value → Prop) (entries : List (Value × Value))
    (vs : List Value) : Prop where
  takes : ∀ (i : Nat) (e : Value × Value), entries[i]? = some e → Takes mappingFits true e.2 vs[i]?
  length_le : vs.length ≤ entries.length

/-- The entries of a destructured mapping accept a value in its place. -/
def AcceptsBag (entries : List (Value × Value)) (v : Value) : Prop :=
  ∃ fields, v.fragment? = some fields ∧ AcceptsNames FitsObject entries (.ofList fields)

/-- The value in the place of every mapping, or `undefined` in place of none, is accepted by it. -/
def AcceptsBags (entries : List (Value × Value)) (vs : List Value) : Prop :=
  ∀ (i : Nat) (e : Value × Value), entries[i]? = some e → ∀ fields, e.2.entries? = some fields →
    AcceptsBag fields (vs[i]?.getD .undefined)

def Accepts (entries : List (Value × Value)) (c : Convention) (p : Value) : Prop :=
  match c with
  | .named => ∃ fs, p.fragments? = some fs ∧ (∀ v ∈ fs, v.fragment?.isSome) ∧
      AcceptsNames (FitsBag true) entries (Arguments.merged fs)
  | .positional => ∃ vs, p.sequence? = some vs ∧ AcceptsValues (FitsBag true) entries vs
  | .hybrid => ∃ vs, p.sequence? = some vs ∧ AcceptsValues (FitsBag false) entries vs ∧
      AcceptsBags entries vs

section
variable {entries : List (Value × Value)} {p : Value}

theorem accepts_named_iff {fs : List Value} (h : p.fragments? = some fs) :
    Accepts entries .named p ↔ (∀ v ∈ fs, v.fragment?.isSome) ∧
      AcceptsNames (FitsBag true) entries (Arguments.merged fs) := by
  simp [Accepts, h]

theorem accepts_positional_iff {vs : List Value} (h : p.sequence? = some vs) :
    Accepts entries .positional p ↔ AcceptsValues (FitsBag true) entries vs := by
  simp [Accepts, h]

theorem accepts_hybrid_iff {vs : List Value} (h : p.sequence? = some vs) :
    Accepts entries .hybrid p ↔
      AcceptsValues (FitsBag false) entries vs ∧ AcceptsBags entries vs := by
  simp [Accepts, h]

end

section
variable {mappingFits : Value → Prop} {undefinedPasses : Bool} {declared v : Value}

theorem spells_unique {s : String} {t u : Tag} {required required' : Bool}
    (h : Spells s t required) (h' : Spells s u required') : t = u ∧ required = required' := by
  have same := (readTag?_eq_some_iff.2 h).symm.trans (readTag?_eq_some_iff.2 h')
  exact Prod.mk.inj (Option.some.inj same)

theorem fits_text {s : String} (hs : declared.text? = some s) : Fits mappingFits declared v ↔
    ∃ t, (∃ required, Spells s t required) ∧ (t = .any ∨ v.hasTag t.name = true) := by
  cases declared with
  | str | text => cases hs; rfl
  | _ => cases hs

theorem fits_of_spells {s : String} {t : Tag} {required : Bool} (hs : declared.text? = some s)
    (h : Spells s t required) :
    Fits mappingFits declared v ↔ t = .any ∨ v.hasTag t.name = true := by
  rw [fits_text hs]
  constructor
  · rintro ⟨u, ⟨required', hu⟩, hv⟩
    obtain ⟨rfl, -⟩ := spells_unique h hu
    exact hv
  · exact fun hv => ⟨t, ⟨required, h⟩, hv⟩

theorem fits_mapping {entries : List (Value × Value)} (h : declared.entries? = some entries) :
    Fits mappingFits declared v ↔ mappingFits v := by
  cases declared with
  | mapping => rfl
  | _ => cases h

theorem takes_of_there (hv : v.IsThere) :
    Takes mappingFits undefinedPasses declared (some v) ↔ Fits mappingFits declared v := by
  cases v with
  | null => exact absurd rfl hv.1
  | undefined => exact absurd rfl hv.2
  | _ => rfl

theorem entries?_of_text {s : String} (hs : declared.text? = some s) :
    declared.entries? = none := by
  cases declared with
  | str | text => rfl
  | _ => cases hs

theorem IsPlain.entries? (h : IsPlain declared) : declared.entries? = none := by
  rcases h with ⟨c, rfl⟩ | ⟨s, t, required, hs, -⟩
  · rfl
  · exact entries?_of_text hs

theorem not_marks_of_entries {fields : List (Value × Value)} (h : declared.entries? = some fields) :
    ¬ Marks declared := by
  rintro ⟨s, t, hs, -⟩
  rw [entries?_of_text hs] at h
  cases h

theorem takes_mapping_iff {declared' : Value} {fields fields' : List (Value × Value)}
    (h : declared.entries? = some fields) (h' : declared'.entries? = some fields')
    (v? : Option Value) : Takes mappingFits undefinedPasses declared' v? ↔
      Takes mappingFits undefinedPasses declared v? := by
  cases v? with
  | none => exact iff_of_true (not_marks_of_entries h') (not_marks_of_entries h)
  | some v =>
    rcases v.null_or_undefined_or_there with rfl | rfl | hthere
    · exact Iff.rfl
    · exact Iff.rfl
    · rw [takes_of_there hthere, takes_of_there hthere, fits_mapping h, fits_mapping h']

section
variable {bagged : List (Value × Value) → Expected → Prop} {x : Expected}

theorem Declares.of_entries (h : Declares bagged declared x) {fields : List (Value × Value)}
    (hfields : declared.entries? = some fields) : bagged fields x := by
  cases h with
  | mapping hfields' hx =>
    obtain rfl := Option.some.inj (hfields.symm.trans hfields')
    exact hx
  | wildcard hs | primitive hs => rw [entries?_of_text hs] at hfields; cases hfields
  | instanceOf => cases hfields

theorem Declares.of_bag {t : Schema} (h : Declares bagged declared (.bag t)) :
    ∃ fields, declared.entries? = some fields ∧ bagged fields (.bag t) := by
  cases h with
  | mapping hfields hx => exact ⟨_, hfields, hx⟩

end

end

end Specification

namespace Schema

open Specification

theorem findInValue_eq_none_iff_fits {s : Schema} {name v declared : Value} {checkBags : Bool}
    {bagged : List (Value × Value) → Expected → Prop} {mappingFits : Value → Prop} {x : Expected}
    (hbagged : ∀ entries x, bagged entries x →
      (s.findInValue name v checkBags x = none ↔ mappingFits v))
    (h : Declares bagged declared x) :
    s.findInValue name v checkBags x = none ↔ Fits mappingFits declared v := by
  cases h with
  | wildcard hs h =>
    rw [fits_of_spells hs h]
    exact ⟨fun _ => .inl rfl, fun _ => rfl⟩
  | @primitive _ text t required hs h ht =>
    rw [fits_of_spells hs h]
    simp [findInValue, ht]
  | instanceOf c =>
    simp only [findInValue, Fits]
    split
    next hc => simp [hc]
    next hc =>
      split
      next hv => simp [hc, hv]
      next hv => simp [hv]
  | mapping hentries hx =>
    rw [fits_mapping hentries]
    exact hbagged _ _ hx

namespace Coherent

variable {s : Schema} {bagged : Nat → List (Value × Value) → Expected → Prop} {label : Value}
  {entries : List (Value × Value)} (h : s.Coherent bagged label entries) (supplied : Payload)
include h

theorem mem_params {name : Value} : name ∈ s.params ↔ ∃ e ∈ entries, e.1 = name := by
  rw [h.params, List.mem_map]

theorem findMissing_eq_none_iff :
    s.findMissing supplied = none ↔ ∀ e ∈ entries, Marks e.2 → supplied.contains e.1 = true := by
  rw [s.findMissing_eq_none_iff]
  constructor
  · exact fun hall e he hmarks => hall e.1 ((h.required e he).2 hmarks)
  · intro hall name hname
    obtain ⟨e, he, rfl⟩ := h.mem_params.1 (h.required_sublist.subset hname)
    exact hall e he ((h.required e he).1 hname)

theorem isDeclared_iff {k : Value} : s.isDeclared k = true ↔ ∃ e ∈ entries, (k == e.1) = true := by
  have keys : s.positions.keys = s.params := by
    rw [Table.keys, h.positions, List.map_map]
    exact List.zipIdx_map_fst 0 s.params
  rw [isDeclared, Table.contains_iff, keys]
  constructor
  · rintro ⟨k', hk', hk⟩
    obtain ⟨e, he, rfl⟩ := h.mem_params.1 hk'
    exact ⟨e, he, hk⟩
  · rintro ⟨e, he, hk⟩
    exact ⟨e.1, h.mem_params.2 ⟨e, he, rfl⟩, hk⟩

theorem findExtra_eq_none_iff :
    s.findExtra supplied = none ↔ ∀ k ∈ supplied.keys, ∃ e ∈ entries, (k == e.1) = true := by
  simp only [← h.isDeclared_iff]
  rw [findExtra]
  cases hextras : supplied.keys.filter fun key => !s.isDeclared key with
  | nil => simpa [List.filter_eq_nil_iff] using hextras
  | cons k ks =>
    obtain ⟨hmem, hnot⟩ := List.mem_filter.1 (hextras ▸ List.mem_cons_self : k ∈ supplied.keys.filter _)
    refine iff_of_false (Option.some_ne_none _) fun hall => ?_
    rw [hall k hmem] at hnot
    cases hnot

section
variable {checkUndefined checkBags : Bool} {mappingFits : Value → Prop}
  (hbagged : ∀ i es x, bagged i es x → ∀ name v,
    (s.findInValue name v checkBags x = none ↔ mappingFits v))
include hbagged

theorem findInParam_eq_none_iff {e : Value × Value} (he : e ∈ entries)
    (marked : Marks e.2 → supplied.contains e.1 = true) :
    s.findInParam supplied checkUndefined checkBags e.1 = none ↔
      Takes mappingFits (!checkUndefined) e.2 (supplied.get? e.1) := by
  obtain ⟨i, hi⟩ := List.mem_iff_getElem?.1 he
  obtain ⟨x, hx, declares⟩ := h.types i e hi
  cases hget : supplied.get? e.1 with
  | none =>
    rw [Table.contains, hget] at marked
    simp only [findInParam, hget, Takes, true_iff]
    simpa using marked
  | some v =>
    rcases v.null_or_undefined_or_there with rfl | rfl | hthere
    · simp [findInParam, hget, Takes]
    · cases checkUndefined <;> simp [findInParam, hget, Takes]
    · rw [findInParam_of_value _ _ hget hthere, hx, takes_of_there hthere]
      exact findInValue_eq_none_iff_fits (fun es x hx => hbagged i es x hx e.1 v) declares

theorem findTaken_eq_none_iff :
    (s.findMissing supplied = none ∧ s.findInTypes supplied checkUndefined checkBags = none) ↔
      ∀ e ∈ entries, Takes mappingFits (!checkUndefined) e.2 (supplied.get? e.1) := by
  rw [h.findMissing_eq_none_iff, findInTypes, List.findSome?_eq_none_iff, h.params,
    List.forall_mem_map]
  constructor
  · rintro ⟨marked, types⟩ e he
    exact (h.findInParam_eq_none_iff supplied hbagged he (marked e he)).1 (types e he)
  · intro takes
    have marked : ∀ e ∈ entries, Marks e.2 → supplied.contains e.1 = true := by
      intro e he hm
      have := takes e he
      rw [Table.contains]
      cases hget : supplied.get? e.1 with
      | none =>
        rw [hget] at this
        exact absurd hm this
      | some v => rfl
    exact ⟨marked, fun e he =>
      (h.findInParam_eq_none_iff supplied hbagged he (marked e he)).2 (takes e he)⟩

end

theorem findInNames_eq_none_iff {mappingFits : Value → Prop}
    (hbagged : ∀ i es x, bagged i es x → ∀ name v,
      (s.findInValue name v true x = none ↔ mappingFits v)) :
    s.findInNames supplied = none ↔ AcceptsNames mappingFits entries supplied := by
  rw [findInNames, Option.or_eq_none_iff, Option.or_eq_none_iff, ← and_assoc,
    h.findTaken_eq_none_iff supplied hbagged, h.findExtra_eq_none_iff]
  exact ⟨fun ⟨takes, declared⟩ => ⟨takes, declared⟩, fun ha => ⟨ha.takes, ha.declared⟩⟩

theorem findInValues_eq_none_iff {labelText : String} (compiled : s.Compiled label labelText)
    {vs : List Value} {checkBags : Bool} {mappingFits : Value → Prop}
    (hbagged : ∀ i es x, bagged i es x → ∀ name v,
      (s.findInValue name v checkBags x = none ↔ mappingFits v)) :
    s.findInValues vs checkBags = none ↔ AcceptsValues mappingFits entries vs := by
  have surplus : s.findSurplus vs.length = none ↔ vs.length ≤ entries.length := by
    rw [findSurplus, arity, h.params, List.length_map]
    split <;> simp <;> omega
  have placed {i : Nat} {e : Value × Value} (hi : entries[i]? = some e) :
      (Arguments.pair s vs).get? e.1 = vs[i]? := by
    refine compiled.get?_pair ?_ vs
    rw [h.params, List.getElem?_map, hi]
    rfl
  rw [findInValues, Option.or_eq_none_iff, Option.or_eq_none_iff, ← and_assoc,
    h.findTaken_eq_none_iff _ hbagged, surplus]
  constructor
  · rintro ⟨takes, length_le⟩
    refine ⟨fun i e hi => ?_, length_le⟩
    rw [← placed hi]
    exact takes e (List.mem_of_getElem? hi)
  · rintro ⟨takes, length_le⟩
    refine ⟨fun e he => ?_, length_le⟩
    obtain ⟨i, hi⟩ := List.mem_iff_getElem?.1 he
    rw [placed hi]
    exact takes i e hi

end Coherent

theorem findNamed_eq_none_iff {s : Schema} {p : Value} :
    s.findNamed p = none ↔ ∃ fs, p.fragments? = some fs ∧ (∀ v ∈ fs, v.fragment?.isSome) ∧
      s.findInNames (Arguments.merged fs) = none := by
  rw [findNamed]
  cases p.fragments? with
  | none => simp
  | some fs =>
    have fragments : fs.findSome? s.findInFragment = none ↔ ∀ v ∈ fs, v.fragment?.isSome := by
      rw [List.findSome?_eq_none_iff]
      refine forall₂_congr fun v _ => ?_
      rw [findInFragment]
      split <;> simp_all
    rw [Option.or_eq_none_iff, fragments]
    simp

theorem findPositional_eq_none_iff {s : Schema} {p : Value} {checkBags : Bool} :
    s.findPositional p checkBags = none ↔
      ∃ vs, p.sequence? = some vs ∧ s.findInValues vs checkBags = none := by
  rw [findPositional]
  cases p.sequence? with
  | none => simp
  | some vs => simp

namespace CoherentFlat

variable {t : Schema} {label : Value} {fields : List (Value × Value)}

theorem findNamed_eq_none_iff (h : t.CoherentFlat label fields) {v : Value} :
    t.findNamed (.list [v]) = none ↔ AcceptsBag fields v := by
  have hbagged (i : Nat) (es : List (Value × Value)) (x : Expected)
      (hx : x = .primitive Tag.object.name) (name v : Value) :
      t.findInValue name v true x = none ↔ FitsObject v := by
    subst hx
    simp [findInValue, FitsObject]
  rw [Schema.findNamed_eq_none_iff, AcceptsBag]
  constructor
  · rintro ⟨_, ⟨⟩, hfragment, accepts⟩
    obtain ⟨es, hes⟩ := Option.isSome_iff_exists.1 (hfragment v (by simp))
    refine ⟨es, hes, (h.findInNames_eq_none_iff _ hbagged).1 ?_⟩
    simpa [Arguments.merged, hes] using accepts
  · rintro ⟨es, hes, accepts⟩
    refine ⟨[v], rfl, by simp [hes], ?_⟩
    simpa [Arguments.merged, hes] using (h.findInNames_eq_none_iff _ hbagged).2 accepts

/-- Nothing, null and `undefined` are empty bags. -/
theorem findInBag_eq_none_iff (h : t.CoherentFlat label fields) {s : Schema} {vs : List Value}
    {i : Nat} : s.findInBag vs (i, t) = none ↔ AcceptsBag fields (vs[i]?.getD .undefined) := by
  have empty : t.findNamed (.list [.record []]) = none ↔ AcceptsBag fields .null :=
    h.findNamed_eq_none_iff.trans Iff.rfl
  simp only [findInBag, Int.toNat_natCast, Value.isMapping_eq]
  generalize vs[i]?.getD .undefined = bag
  have no_bag {v : Value} (hv : v.fragment? = none) : ¬ AcceptsBag fields v := by
    rintro ⟨es, hes, -⟩
    rw [hv] at hes
    cases hes
  cases bag with
  | null | undefined => exact empty
  | mapping kind es => exact h.findNamed_eq_none_iff (v := .mapping kind es)
  | _ => exact iff_of_false (Option.some_ne_none _) (no_bag rfl)

end CoherentFlat

namespace CoherentDeep

variable {s : Schema} {label : Value} {entries : List (Value × Value)}
  (h : s.CoherentDeep label entries)

theorem findInValue_bag {labelText : String} (checkBags : Bool) (i : Nat) (es : List (Value × Value))
    (x : Expected) (hx : ∃ t, x = .bag t ∧ t.CoherentFlat (bagLabel labelText i) es)
    (name v : Value) : s.findInValue name v checkBags x = none ↔ FitsBag checkBags v := by
  obtain ⟨t, rfl, -⟩ := hx
  cases checkBags <;> simp [findInValue, FitsBag]

include h

theorem mem_hybrids_iff {j : Int} {t : Schema} : (j, t) ∈ s.hybrids.entries ↔
    ∃ (i : Nat) (e : Value × Value), j = i ∧ entries[i]? = some e ∧
      s.types.get? e.1 = some (.bag t) := by
  rw [h.hybrids]
  constructor
  · rintro ⟨name, hat, htype⟩
    obtain ⟨i, rfl, hi⟩ := paramAt?_eq_some_iff.1 hat
    rw [h.params, List.getElem?_map] at hi
    obtain ⟨e, he, rfl⟩ := Option.map_eq_some_iff.1 hi
    exact ⟨i, e, rfl, he, htype⟩
  · rintro ⟨i, e, rfl, hi, htype⟩
    refine ⟨e.1, paramAt?_eq_some_iff.2 ⟨i, rfl, ?_⟩, htype⟩
    rw [h.params, List.getElem?_map, hi]
    rfl

theorem nested_of_hybrid {j : Int} {t : Schema} (ht : (j, t) ∈ s.hybrids.entries) :
    ∃ (i : Nat) (e : Value × Value) (fields : List (Value × Value)), j = i ∧
      entries[i]? = some e ∧ e.2.entries? = some fields ∧
      t.CoherentFlat (bagLabel label.shownText i) fields := by
  obtain ⟨i, e, rfl, hi, htype⟩ := h.mem_hybrids_iff.1 ht
  obtain ⟨x, hx, declares⟩ := h.types i e hi
  obtain rfl := Option.some.inj (htype.symm.trans hx)
  obtain ⟨fields, hfields, _, ⟨⟩, flat⟩ := declares.of_bag
  exact ⟨i, e, fields, rfl, hi, hfields, flat⟩

theorem hybrid_of_fields {i : Nat} {e : Value × Value} {fields : List (Value × Value)}
    (hi : entries[i]? = some e) (hfields : e.2.entries? = some fields) :
    ∃ t, ((i : Int), t) ∈ s.hybrids.entries ∧
      t.CoherentFlat (bagLabel label.shownText i) fields := by
  obtain ⟨x, hx, declares⟩ := h.types i e hi
  obtain ⟨t, rfl, flat⟩ := declares.of_entries hfields
  exact ⟨t, h.mem_hybrids_iff.2 ⟨i, e, rfl, hi, hx⟩, flat⟩

theorem findBags_eq_none_iff {labelText : String} (compiled : s.Compiled label labelText)
    {vs : List Value} :
    (ascending s.hybrids).findSome? (s.findInBag vs) = none ↔ AcceptsBags entries vs := by
  rw [compiled.ascending_hybrids, List.findSome?_eq_none_iff]
  constructor
  · intro hall i e hi fields hfields
    obtain ⟨t, ht, flat⟩ := h.hybrid_of_fields hi hfields
    exact flat.findInBag_eq_none_iff.1 (hall _ ht)
  · rintro hall ⟨j, t⟩ ht
    obtain ⟨i, e, fields, rfl, hi, hfields, flat⟩ := h.nested_of_hybrid ht
    exact flat.findInBag_eq_none_iff.2 (hall i e hi fields hfields)

theorem finding_eq_none_iff {labelText : String} (compiled : s.Compiled label labelText)
    {c : Convention} {p : Value} : s.finding c p = none ↔ Accepts entries c p := by
  have values (checkBags : Bool) (vs : List Value) : s.findInValues vs checkBags = none ↔
      AcceptsValues (FitsBag checkBags) entries vs :=
    h.findInValues_eq_none_iff compiled (findInValue_bag checkBags)
  cases c with
  | named =>
    simp only [finding, Accepts, Schema.findNamed_eq_none_iff,
      h.findInNames_eq_none_iff _ (findInValue_bag true)]
  | positional =>
    simp only [finding, Accepts, findPositional_eq_none_iff, values]
  | hybrid =>
    rw [finding, findHybrid, Option.or_eq_none_iff, findPositional_eq_none_iff,
      h.findBags_eq_none_iff compiled]
    constructor
    · rintro ⟨⟨vs, hvs, accepts⟩, bags⟩
      rw [hvs] at bags
      exact ⟨vs, hvs, (values false vs).1 accepts, bags⟩
    · rintro ⟨vs, hvs, accepts, bags⟩
      rw [hvs]
      exact ⟨⟨vs, rfl, (values false vs).2 accepts⟩, bags⟩

end CoherentDeep

theorem finish_eq_ok {st : Stream} (h : st.finish = .ok ()) : st.failure = none := by
  rw [Stream.finish] at h
  split at h
  · cases h
  · assumption

theorem mergeFragments_first_ne_ok {s : Schema} {start stop step : Int} {t : Payload}
    (hlong : progressionLength start stop step ≠ 0) :
    Arguments.mergeFragments s (Arguments.firstTerm start stop step) ≠ .ok t := by
  intro h
  have fragments := fragments_of_findInFragment ((reports_mergeFragments _).isOk_iff.1 ⟨t, h⟩)
  rw [Arguments.firstTerm, if_neg hlong] at fragments
  have fragment := fragments _ (List.mem_singleton.2 rfl)
  cases fragment

theorem uninterrupted_of_named {s : Schema} {p : Value} {t : Payload}
    (h : Arguments.named s p = .ok t) : p.interruption? = none := by
  cases p with
  | generator ref items failure =>
    obtain ⟨_, -, h⟩ := bind_eq_ok.1 h
    obtain ⟨_, hfinish, -⟩ := bind_eq_ok.1 h
    exact finish_eq_ok hfinish
  | range start stop step =>
    by_cases hzero : progressionLength start stop step = 0
    · simp [Value.interruption?, hzero, interruptionOf?]
    · exact absurd h (mergeFragments_first_ne_ok hzero)
  | _ => rfl

theorem uninterrupted_of_positionalValues {s : Schema} {p : Value} {vs : List Value}
    (h : Arguments.positionalValues s p = .ok vs) : p.interruption? = none := by
  cases p with
  | generator | range =>
    obtain ⟨_, hfinish, -⟩ := bind_eq_ok.1 h
    exact finish_eq_ok hfinish
  | _ => rfl

theorem sequence?_of_positionalValues {s : Schema} {p : Value} {vs : List Value}
    (h : Arguments.positionalValues s p = .ok vs) : p.sequence? = some vs := by
  have hp := uninterrupted_of_positionalValues h
  cases hs : p.sequence? with
  | none =>
    obtain ⟨f, hf, -⟩ := (reports_positionalValues_of_no_sequence (s := s) hs).of_some
    rw [hf] at h
    cases h
  | some ws =>
    rw [Arguments.positionalValues_of_sequence hp hs] at h
    exact congrArg some (Except.ok.inj h)

theorem fragments?_of_named {s : Schema} {p : Value} {t : Payload}
    (h : Arguments.named s p = .ok t) : ∃ fs, p.fragments? = some fs ∧ t = Arguments.merged fs := by
  have hp := uninterrupted_of_named h
  cases hfs : p.fragments? with
  | none =>
    have refused : Reports (some (.malformed [s.name])) (Arguments.notFragments s p) :=
      Reports.throwing (.display s.name) fun label => ⟨_, _, _, rfl⟩
    obtain ⟨f, hf, -⟩ := refused.of_some
    rw [Arguments.named_of_no_fragments hfs, hf] at h
    cases h
  | some fs =>
    rw [Arguments.named_of_fragments hp hfs] at h
    exact ⟨fs, rfl, mergeFragments_eq_ok h⟩

theorem uninterrupted_of_validate {s : Schema} {c : Convention} {p : Value}
    (h : s.validate c p = .ok ()) : p.interruption? = none := by
  cases c with
  | named =>
    obtain ⟨_, hnamed, -⟩ := bind_eq_ok.1 h
    exact uninterrupted_of_named hnamed
  | positional =>
    obtain ⟨_, hvs, -⟩ := bind_eq_ok.1 h
    obtain ⟨_, hvalues, -⟩ := bind_eq_ok.1 hvs
    exact uninterrupted_of_positionalValues hvalues
  | hybrid =>
    obtain ⟨_, hvs, -⟩ := bind_eq_ok.1 h
    obtain ⟨_, hvalues, -⟩ := bind_eq_ok.1 hvs
    exact uninterrupted_of_positionalValues hvalues

end Schema

namespace Compiler

variable {spec label : Value} {s : Schema} {entries : List (Value × Value)}

theorem compile_isOk_iff :
    (∃ s, compile spec label = .ok s) ↔ IsLabel label ∧ Specification.WellFormed spec := by
  rw [reports_compile.isOk_iff, finding_eq_none_iff]

/-- A compiled schema accepts what its specification accepts, under every label. -/
theorem validate_eq_ok_iff (h : compile spec label = .ok s) (hspec : spec.entries? = some entries)
    {c : Convention} {p : Value} :
    s.validate c p = .ok () ↔ p.interruption? = none ∧ Specification.Accepts entries c p := by
  obtain ⟨hlabel, es, hes, hdeep⟩ := compileDeep_of_compile h
  obtain rfl := Option.some.inj (hspec.symm.trans hes)
  obtain ⟨-, compiled⟩ := compiled_of_compile h
  have coherent := Specification.compileDeep_coherent hlabel.display hdeep
  rw [← coherent.finding_eq_none_iff compiled]
  constructor
  · intro hok
    have hp := Schema.uninterrupted_of_validate hok
    exact ⟨hp, (Schema.reports_validate c hp).isOk_iff.1 ⟨(), hok⟩⟩
  · rintro ⟨hp, hfinding⟩
    obtain ⟨_, hok⟩ := (Schema.reports_validate c hp).isOk_iff.2 hfinding
    exact hok

end Compiler

end CallContract
