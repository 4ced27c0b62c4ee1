import CallContract.Proofs.Acceptance

/-!
# The required marker

A marker in front of a tag does nothing but refuse the arguments that do not supply the entry: what
the marked specification accepts is what the unmarked one accepts and what supplies the entry
(`Compiler.accepts_marked_iff`). Arguments that do not supply it and come as far as the check of the
required names of its schema are refused there, with its name among the missing ones.
-/

namespace CallContract

namespace Value

/-- The value is a mapping with the key. -/
def HasKey (v k : Value) : Prop := ∃ es, v.entries? = some es ∧ ∃ e ∈ es, (k == e.1) = true

theorem hasKey_iff {v k : Value} : v.HasKey k ↔ ∃ e ∈ v.fragment?.getD [], (k == e.1) = true := by
  cases v with
  | mapping kind es => simp [HasKey, entries?, fragment?]
  | _ => simp [HasKey, entries?, fragment?]

end Value

theorem Arguments.contains_merged {fs : List Value} {k : Value} :
    (Arguments.merged fs).contains k = true ↔ ∃ f ∈ fs, f.HasKey k := by
  rw [merged, Table.contains_ofList]
  simp only [List.mem_flatMap, Value.hasKey_iff]
  constructor
  · rintro ⟨e, ⟨f, hf, he⟩, hk⟩
    exact ⟨f, hf, e, he, hk⟩
  · rintro ⟨f, hf, e, he, hk⟩
    exact ⟨e, ⟨f, hf, he⟩, hk⟩

namespace Specification

/-- The place of an entry: among the entries, or among the fields of the mapping in place `i`. -/
inductive Place where
  | entry (i : Nat) (name : Value)
  | field (i j : Nat) (name : Value)

namespace Place

def name : Place → Value
  | entry _ name | field _ _ name => name

/-- The label of the schema that has the entry. -/
def label (whole : Value) : Place → Value
  | entry _ _ => whole
  | field i _ _ => Schema.bagLabel whole.shownText i

end Place

/-- The marker in front of a tag that had none. -/
def Marking (declared declared' : Value) : Prop :=
  ∃ s t, declared.text? = some s ∧ Spells s t false ∧ declared'.text? = some ("!" ++ s)

/-- The entries differ in the declaration in one place, and in no other. -/
def Redeclares (Replaces : Value → Value → Prop) (i : Nat) (name : Value)
    (entries entries' : List (Value × Value)) : Prop :=
  ∃ d d', Replaces d d' ∧ entries[i]? = some (name, d) ∧ entries'[i]? = some (name, d') ∧
    ∀ k, k ≠ i → entries'[k]? = entries[k]?

/-- Two mappings that differ in the marker on one of their fields. -/
def MarksField (j : Nat) (name declared declared' : Value) : Prop :=
  ∃ fields fields', declared.entries? = some fields ∧ declared'.entries? = some fields' ∧
    Redeclares Marking j name fields fields'

/-- The specification with the marker in one place. -/
def MarkedAt (spec spec' : Value) : Place → Prop
  | .entry i name => ∃ entries entries', spec.entries? = some entries ∧
      spec'.entries? = some entries' ∧ Redeclares Marking i name entries entries'
  | .field i j name => ∃ entries entries' owner, spec.entries? = some entries ∧
      spec'.entries? = some entries' ∧ Redeclares (MarksField j name) i owner entries entries'

/-- The arguments supply the entry. Inside a destructured argument only the hybrid convention asks
for it. -/
def Supplies (c : Convention) (p : Value) : Place → Prop
  | .entry i name =>
    match c with
    | .named => ∃ fs, p.fragments? = some fs ∧ ∃ f ∈ fs, f.HasKey name
    | .positional | .hybrid => ∃ vs, p.sequence? = some vs ∧ i < vs.length
  | .field i _ name =>
    match c with
    | .named | .positional => True
    | .hybrid => ∃ vs v, p.sequence? = some vs ∧ vs[i]? = some v ∧ v.HasKey name

namespace Redeclares

variable {Replaces : Value → Value → Prop} {i : Nat} {name : Value}
  {entries entries' : List (Value × Value)} (h : Redeclares Replaces i name entries entries')
include h

theorem forall_iff {P : Nat → Value × Value → Prop} {extra : Prop}
    (hP : ∀ d d', Replaces d d' → (P i (name, d') ↔ P i (name, d) ∧ extra)) :
    (∀ k e, entries'[k]? = some e → P k e) ↔ (∀ k e, entries[k]? = some e → P k e) ∧ extra := by
  obtain ⟨d, d', replaces, hi, hi', off⟩ := h
  have here := hP d d' replaces
  constructor
  · intro hall
    have hboth := here.1 (hall i _ hi')
    refine ⟨fun k e hk => ?_, hboth.2⟩
    by_cases hki : k = i
    · subst hki
      obtain rfl := Option.some.inj (hi.symm.trans hk)
      exact hboth.1
    · exact hall k e ((off k hki).trans hk)
  · rintro ⟨hall, hextra⟩ k e hk
    by_cases hki : k = i
    · subst hki
      obtain rfl := Option.some.inj (hi'.symm.trans hk)
      exact here.2 ⟨hall k _ hi, hextra⟩
    · exact hall k e ((off k hki).symm.trans hk)

theorem names_eq : entries'.map Prod.fst = entries.map Prod.fst := by
  obtain ⟨d, d', -, hi, hi', off⟩ := h
  refine List.ext_getElem? fun k => ?_
  rw [List.getElem?_map, List.getElem?_map]
  by_cases hki : k = i
  · rw [hki, hi, hi']
    rfl
  · rw [off k hki]

theorem wellFormed {P : Value → Prop} (hP : ∀ d d', Replaces d d' → P d → P d')
    (wf : WellFormedEntries P entries) : WellFormedEntries P entries' := by
  obtain ⟨texts, declared, apart⟩ := wf
  have names := h.names_eq
  refine ⟨fun e he => ?_, fun e he => ?_, by rwa [names]⟩
  · have hname : e.1 ∈ entries.map Prod.fst := names ▸ List.mem_map_of_mem he
    obtain ⟨e', he', heq⟩ := List.mem_map.1 hname
    rw [← heq]
    exact texts e' he'
  · obtain ⟨k, hk⟩ := List.mem_iff_getElem?.1 he
    obtain ⟨d, d', replaces, hi, hi', off⟩ := h
    by_cases hki : k = i
    · subst hki
      obtain rfl := Option.some.inj (hi'.symm.trans hk)
      exact hP d d' replaces (declared _ (List.mem_of_getElem? hi))
    · exact declared e (List.mem_of_getElem? ((off k hki).symm.trans hk))

variable {mappingFits : Value → Prop} {extra : Prop}

theorem acceptsNames_iff {supplied : Payload}
    (takes : ∀ d d', Replaces d d' → (Takes mappingFits false d' (supplied.get? name) ↔
      Takes mappingFits false d (supplied.get? name) ∧ extra)) :
    AcceptsNames mappingFits entries' supplied ↔
      AcceptsNames mappingFits entries supplied ∧ extra := by
  have all (es : List (Value × Value)) :
      (∀ e ∈ es, Takes mappingFits false e.2 (supplied.get? e.1)) ↔
        ∀ (k : Nat) (e : Value × Value), es[k]? = some e →
          Takes mappingFits false e.2 (supplied.get? e.1) := by
    constructor
    · exact fun h k e hk => h e (List.mem_of_getElem? hk)
    · intro h e he
      obtain ⟨k, hk⟩ := List.mem_iff_getElem?.1 he
      exact h k e hk
  have declared (es : List (Value × Value)) (k : Value) :
      (∃ e ∈ es, (k == e.1) = true) ↔ ∃ n ∈ es.map Prod.fst, (k == n) = true := by simp
  have iff (es : List (Value × Value)) : AcceptsNames mappingFits es supplied ↔
      (∀ (k : Nat) (e : Value × Value), es[k]? = some e →
        Takes mappingFits false e.2 (supplied.get? e.1)) ∧
      ∀ k ∈ supplied.keys, ∃ n ∈ es.map Prod.fst, (k == n) = true := by
    simp only [← all, ← declared]
    exact ⟨fun a => ⟨a.takes, a.declared⟩, fun ⟨takes, declared⟩ => ⟨takes, declared⟩⟩
  rw [iff, iff, h.names_eq, h.forall_iff (P := fun _ e => Takes _ _ e.2 (supplied.get? e.1)) takes,
    and_right_comm]

theorem acceptsValues_iff {vs : List Value}
    (takes : ∀ d d', Replaces d d' → (Takes mappingFits true d' vs[i]? ↔
      Takes mappingFits true d vs[i]? ∧ extra)) :
    AcceptsValues mappingFits entries' vs ↔ AcceptsValues mappingFits entries vs ∧ extra := by
  have length : entries'.length = entries.length := by simpa using congrArg List.length h.names_eq
  have iff (es : List (Value × Value)) : AcceptsValues mappingFits es vs ↔
      (∀ (k : Nat) (e : Value × Value), es[k]? = some e → Takes mappingFits true e.2 vs[k]?) ∧
      vs.length ≤ es.length :=
    ⟨fun a => ⟨a.takes, a.length_le⟩, fun ⟨takes, length⟩ => ⟨takes, length⟩⟩
  rw [iff, iff, length, h.forall_iff (P := fun k e => Takes _ _ e.2 vs[k]?) takes, and_right_comm]

end Redeclares

section
variable {mappingFits : Value → Prop} {undefinedPasses : Bool} {d d' : Value}

theorem Marking.spells (h : Marking d d') : ∃ s t, d.text? = some s ∧ Spells s t false ∧
    ∃ s', d'.text? = some s' ∧ Spells s' t true := by
  obtain ⟨s, t, hs, ⟨cs, hcs, htag⟩, hs'⟩ := h
  refine ⟨s, t, hs, ⟨cs, hcs, htag⟩, _, hs', cs, ?_, htag⟩
  rw [String.toList_append, hcs]
  rfl

theorem Marking.takes_iff (h : Marking d d') (v? : Option Value) :
    Takes mappingFits undefinedPasses d' v? ↔
      Takes mappingFits undefinedPasses d v? ∧ v?.isSome = true := by
  obtain ⟨s, t, hs, spells, s', hs', spells'⟩ := h.spells
  cases v? with
  | none => simpa [Takes] using (marks_iff_of_spells hs' spells').2 rfl
  | some v =>
    rcases v.null_or_undefined_or_there with rfl | rfl | hthere
    · simp [Takes]
    · simp [Takes]
    · simp only [takes_of_there hthere, fits_of_spells hs spells, fits_of_spells hs' spells',
        Option.isSome_some, and_true]

theorem Redeclares.acceptsBag_iff {j : Nat} {name : Value} {fields fields' : List (Value × Value)}
    (h : Redeclares Marking j name fields fields') {v : Value} :
    AcceptsBag fields' v ↔ AcceptsBag fields v ∧ v.HasKey name := by
  rw [AcceptsBag, AcceptsBag]
  cases hes : v.fragment? with
  | none => simp
  | some es =>
    have supplied : v.HasKey name ↔ ((Table.ofList es).get? name).isSome = true := by
      rw [Value.hasKey_iff, hes]
      exact Table.contains_ofList.symm
    have accepts : AcceptsNames FitsObject fields' (.ofList es) ↔
        AcceptsNames FitsObject fields (.ofList es) ∧ ((Table.ofList es).get? name).isSome = true :=
      h.acceptsNames_iff fun d d' marking => marking.takes_iff _
    rw [supplied]
    simpa using accepts

section
variable {i j : Nat} {name owner : Value} {entries entries' : List (Value × Value)} {p : Value}

theorem accepts_entry_iff (h : Redeclares Marking i name entries entries') (c : Convention) :
    Accepts entries' c p ↔ Accepts entries c p ∧ Supplies c p (.entry i name) := by
  have values (checkBags : Bool) (vs : List Value) :
      AcceptsValues (FitsBag checkBags) entries' vs ↔
        AcceptsValues (FitsBag checkBags) entries vs ∧ i < vs.length := by
    rw [← isSome_getElem? vs i]
    exact h.acceptsValues_iff fun d d' marking => marking.takes_iff _
  cases c with
  | named =>
    have names (fs : List Value) : AcceptsNames (FitsBag true) entries' (Arguments.merged fs) ↔
        AcceptsNames (FitsBag true) entries (Arguments.merged fs) ∧ ∃ f ∈ fs, f.HasKey name := by
      rw [← Arguments.contains_merged]
      exact h.acceptsNames_iff fun d d' marking => marking.takes_iff _
    simp only [Accepts, Supplies, names]
    cases p.fragments? <;> simp [and_assoc]
  | positional =>
    simp only [Accepts, Supplies, values]
    cases p.sequence? <;> simp
  | hybrid =>
    have bags (vs : List Value) : AcceptsBags entries' vs ↔ AcceptsBags entries vs ∧ True := by
      refine h.forall_iff fun d d' marking => ?_
      -- a tag declares no mapping
      obtain ⟨s, t, hs, -, s', hs', -⟩ := marking.spells
      simp [entries?_of_text hs, entries?_of_text hs']
    simp only [Accepts, Supplies, values, bags, and_true]
    cases p.sequence? <;> simp [and_right_comm]

theorem accepts_field_iff (h : Redeclares (MarksField j name) i owner entries entries')
    (c : Convention) : Accepts entries' c p ↔ Accepts entries c p ∧ Supplies c p (.field i j name) := by
  have takes (mappingFits : Value → Prop) (undefinedPasses : Bool) (v? : Option Value) (d d' : Value)
      (marks : MarksField j name d d') : Takes mappingFits undefinedPasses d' v? ↔
        Takes mappingFits undefinedPasses d v? ∧ True := by
    obtain ⟨fields, fields', hfields, hfields', -⟩ := marks
    rw [and_true]
    exact takes_mapping_iff hfields hfields' v?
  have values (checkBags : Bool) (vs : List Value) :
      AcceptsValues (FitsBag checkBags) entries' vs ↔
        AcceptsValues (FitsBag checkBags) entries vs := by
    simpa using h.acceptsValues_iff (takes (FitsBag checkBags) true vs[i]?)
  cases c with
  | named =>
    have names (supplied : Payload) : AcceptsNames (FitsBag true) entries' supplied ↔
        AcceptsNames (FitsBag true) entries supplied := by
      simpa using h.acceptsNames_iff (takes (FitsBag true) false (supplied.get? owner))
    simp only [Accepts, Supplies, names, and_true]
  | positional => simp only [Accepts, Supplies, values, and_true]
  | hybrid =>
    have bags (vs : List Value) : AcceptsBags entries' vs ↔
        AcceptsBags entries vs ∧ (vs[i]?.getD .undefined).HasKey name := by
      refine h.forall_iff fun d d' marks => ?_
      obtain ⟨fields, fields', hfields, hfields', redeclares⟩ := marks
      simp [hfields, hfields', redeclares.acceptsBag_iff]
    have none_has : ¬ Value.undefined.HasKey name := by simp [Value.HasKey, Value.entries?]
    have there (vs : List Value) : (∃ v, vs[i]? = some v ∧ v.HasKey name) ↔
        (vs[i]?.getD .undefined).HasKey name := by
      cases vs[i]? <;> simp [none_has]
    simp only [Accepts, Supplies, values, bags, exists_and_left, there]
    cases p.sequence? <;> simp [and_assoc]

end

end

theorem MarkedAt.wellFormed {spec spec' : Value} {place : Place} (h : MarkedAt spec spec' place)
    (wf : WellFormed spec) : WellFormed spec' := by
  have plain (d d' : Value) (marking : Marking d d') : IsPlain d' := by
    obtain ⟨-, t, -, -, s', hs', spells'⟩ := marking.spells
    exact .inr ⟨s', t, true, hs', spells'⟩
  obtain ⟨es, hes, wf⟩ := wf
  cases place with
  | entry i name =>
    obtain ⟨entries, entries', hentries, hentries', redeclares⟩ := h
    obtain rfl := Option.some.inj (hentries.symm.trans hes)
    exact ⟨entries', hentries', redeclares.wellFormed (fun d d' m _ => .inl (plain d d' m)) wf⟩
  | field i j name =>
    obtain ⟨entries, entries', owner, hentries, hentries', redeclares⟩ := h
    obtain rfl := Option.some.inj (hentries.symm.trans hes)
    refine ⟨entries', hentries', redeclares.wellFormed (fun d d' marks hd => ?_) wf⟩
    obtain ⟨fields, fields', hfields, hfields', redeclares⟩ := marks
    rcases hd with hplain | ⟨fs, hfs, wf⟩
    · rw [hplain.entries?] at hfields
      cases hfields
    · obtain rfl := Option.some.inj (hfields.symm.trans hfs)
      exact .inr ⟨fields', hfields', redeclares.wellFormed (fun d d' m _ => .inl (plain d d' m)) wf⟩

end Specification

namespace Schema

open Specification

/-- The arguments come as far as the check of the required names of the schema that has the entry:
they are brought into a payload, and a destructured argument is one after everything before it has
been accepted. -/
def ReachesRequired (s : Schema) (c : Convention) (p : Value) : Place → Prop
  | .entry _ _ =>
    match c with
    | .named => ∃ supplied, Arguments.named s p = .ok supplied
    | .positional | .hybrid => ∃ vs, Arguments.positionalValues s p = .ok vs
  | .field i _ _ =>
    match c with
    | .named | .positional => False
    | .hybrid => ∃ vs, s.validateValues p false = .ok vs ∧
        (∀ e ∈ s.hybrids.entries, e.1 < i → s.validateBag vs e = .ok ()) ∧
        (vs[i]?.getD .undefined).fragment?.isSome

/-- Whatever else is to be checked, a missing name is refused first. -/
theorem Typed.refused_of_absent {s : Schema} (h : s.Typed) {supplied : Payload} {name : Value}
    (hname : name ∈ s.required) (absent : supplied.contains name = false) :
    ∃ message names, name ∈ names ∧ ∀ {α : Type} (rest : Unit → Except Failure α),
      s.checkRequired supplied >>= rest = .error (.violation s.name message (.missing names)) := by
  have hmem : name ∈ s.required.filter fun name => !supplied.contains name :=
    List.mem_filter.2 ⟨hname, by rw [absent]; rfl⟩
  have ordinary := h.ordinary_findMissing supplied
  have reports := s.reports_checkRequired supplied
  cases hmissing : s.required.filter fun name => !supplied.contains name with
  | nil =>
    rw [hmissing] at hmem
    cases hmem
  | cons first rest =>
    rw [hmissing] at hmem
    simp only [findMissing, hmissing] at ordinary reports
    obtain ⟨message, hends⟩ := reports.violates ((ordinary _ rfl).shown trivial)
    refine ⟨message, first :: rest, hmem, fun rest => ?_⟩
    rw [hends]
    rfl

theorem validateBag_of_fragment {s nested : Schema} {vs : List Value} {i : Nat}
    {es : List (Value × Value)} (h : (vs[i]?.getD .undefined).fragment? = some es) :
    s.validateBag vs ((i : Int), nested) = nested.checkRequired (.ofList es) >>= fun _ =>
      nested.typecheck (.ofList es) true true true := by
  have named {v : Value} {es : List (Value × Value)} (hv : v.fragment? = some es) :
      nested.validateNamed (.list [v]) = nested.checkRequired (.ofList es) >>= fun _ =>
        nested.typecheck (.ofList es) true true true := by
    have merged : Arguments.named nested (.list [v]) = .ok (.ofList es) := by
      rw [Arguments.named_of_fragments rfl rfl,
        Arguments.mergeFragments_of_fragments (by simp [hv])]
      simp [Arguments.merged, hv]
    rw [validateNamed, merged]
    rfl
  simp only [validateBag, Int.toNat_natCast, Value.isMapping_eq]
  generalize vs[i]?.getD .undefined = bag at h
  cases bag with
  | null | undefined => exact named (v := .record []) h
  | mapping kind entries => exact named (v := .mapping kind entries) h
  | _ => cases h

/-- What a validation reports of a name that is missing in the schema with this label. -/
def ReportsMissing (s : Schema) (c : Convention) (p label name : Value) : Prop :=
  ∃ message names,
    s.validate c p = .error (.violation label message (.missing names)) ∧ name ∈ names

namespace Compiled

variable {s : Schema} {label : Value} {labelText : String} (h : s.Compiled label labelText)
  (hlabel : label.Shown)
include h hlabel

theorem reportsMissing_entry {c : Convention} {p : Value} {i : Nat} {name : Value}
    (hi : s.params[i]? = some name) (hrequired : name ∈ s.required)
    (unsupplied : ¬ Supplies c p (.entry i name)) (reached : s.ReachesRequired c p (.entry i name)) :
    s.ReportsMissing c p label name := by
  have typed := h.typed hlabel
  rw [← h.name_eq]
  have values {vs : List Value} (checkBags : Bool) (hvs : Arguments.positionalValues s p = .ok vs)
      (hle : ¬ i < vs.length) : ∃ message names, s.validateValues p checkBags =
        .error (.violation s.name message (.missing names)) ∧ name ∈ names := by
    have absent : (Arguments.pair s vs).contains name = false := by
      rw [h.contains_pair hi, decide_eq_false hle]
    obtain ⟨message, names, hmem, refused⟩ := typed.refused_of_absent hrequired absent
    refine ⟨message, names, ?_, hmem⟩
    rw [validateValues, hvs]
    exact refused _
  cases c with
  | named =>
    obtain ⟨supplied, hnamed⟩ := reached
    obtain ⟨fs, hfs, rfl⟩ := fragments?_of_named hnamed
    have absent : (Arguments.merged fs).contains name = false := by
      rw [Bool.eq_false_iff, ne_eq, Arguments.contains_merged]
      exact fun has => unsupplied ⟨fs, hfs, has⟩
    obtain ⟨message, names, hmem, refused⟩ := typed.refused_of_absent hrequired absent
    refine ⟨message, names, ?_, hmem⟩
    rw [validate, validateNamed, hnamed]
    exact refused _
  | positional =>
    obtain ⟨vs, hvs⟩ := reached
    have hle : ¬ i < vs.length := fun hlt => unsupplied ⟨vs, sequence?_of_positionalValues hvs, hlt⟩
    obtain ⟨message, names, hends, hmem⟩ := values true hvs hle
    refine ⟨message, names, ?_, hmem⟩
    rw [validate, validatePositional, hends]
    rfl
  | hybrid =>
    obtain ⟨vs, hvs⟩ := reached
    have hle : ¬ i < vs.length := fun hlt => unsupplied ⟨vs, sequence?_of_positionalValues hvs, hlt⟩
    obtain ⟨message, names, hends, hmem⟩ := values false hvs hle
    refine ⟨message, names, ?_, hmem⟩
    rw [validate, validateHybrid, hends]
    rfl

omit hlabel in
theorem reportsMissing_field {c : Convention} {p : Value} {i j : Nat} {name : Value}
    {nested : Schema} (hnested : ((i : Int), nested) ∈ s.hybrids.entries)
    (hrequired : name ∈ nested.required) (unsupplied : ¬ Supplies c p (.field i j name))
    (reached : s.ReachesRequired c p (.field i j name)) :
    s.ReportsMissing c p (bagLabel labelText i) name := by
  cases c with
  | named | positional => exact reached.elim
  | hybrid =>
    obtain ⟨vs, hvs, earlier, there⟩ := reached
    obtain ⟨es, hes⟩ := Option.isSome_iff_exists.1 there
    have hsequence : p.sequence? = some vs := by
      obtain ⟨vs', hvalues, -⟩ := bind_eq_ok.1 hvs
      have hp := uninterrupted_of_positionalValues hvalues
      exact validateValues_eq_ok hp hvs
    have absent : (Table.ofList es).contains name = false := by
      rw [Bool.eq_false_iff, ne_eq, Table.contains_ofList]
      intro has
      have hkey : (vs[i]?.getD .undefined).HasKey name := by rwa [Value.hasKey_iff, hes]
      cases hv : vs[i]? with
      | none =>
        rw [hv] at hkey
        obtain ⟨_, hfields, -⟩ := hkey
        cases hfields
      | some v =>
        rw [hv] at hkey
        exact unsupplied ⟨vs, v, hsequence, hv, hkey⟩
    have typed := h.nested_typed hnested
    obtain ⟨message, names, hmem, refused⟩ := typed.refused_of_absent hrequired absent
    have hbag : s.validateBag vs ((i : Int), nested) =
        .error (.violation nested.name message (.missing names)) := by
      rw [validateBag_of_fragment hes]
      exact refused _
    refine ⟨message, names, ?_, hmem⟩
    rw [← (h.nested hnested).name_eq, validate, validateHybrid, hvs, h.ascending_hybrids]
    obtain ⟨before, after, hsplit⟩ := List.append_of_mem hnested
    -- the destructured arguments in front of this one have been accepted
    have ascend := h.hybrids_ascend
    rw [Table.keys, hsplit, List.map_append, List.pairwise_append] at ascend
    show s.hybrids.entries.forM (s.validateBag vs) = _
    rw [hsplit]
    refine forM_stops (fun b hb => earlier b ?_ ?_) hbag
    · rw [hsplit]
      exact List.mem_append_left _ hb
    · exact ascend.2.2 b.1 (List.mem_map_of_mem hb) i (by simp)

end Compiled

end Schema

namespace Compiler

open Specification

variable {spec spec' label : Value} {s : Schema} {place : Place}

/-- With the marker in front of a tag, a specification accepts what it accepted if it supplies the
entry. What does not and comes as far is refused where its schema checks the required names. -/
theorem accepts_marked_iff (h : compile spec label = .ok s) (marked : MarkedAt spec spec' place) :
    ∃ s', compile spec' label = .ok s' ∧ ∀ c p,
      (s'.validate c p = .ok () ↔ s.validate c p = .ok () ∧ Supplies c p place) ∧
      (¬ Supplies c p place → s'.ReachesRequired c p place →
        s'.ReportsMissing c p (place.label label) place.name) := by
  obtain ⟨hlabel, wf⟩ := compile_isOk_iff.1 ⟨s, h⟩
  obtain ⟨s', h'⟩ := compile_isOk_iff.2 ⟨hlabel, marked.wellFormed wf⟩
  obtain ⟨-, compiled⟩ := compiled_of_compile h'
  obtain ⟨-, es, hes, hdeep⟩ := compileDeep_of_compile h'
  have coherent := compileDeep_coherent hlabel.display hdeep
  refine ⟨s', h', fun c p => ?_⟩
  cases place with
  | entry i name =>
    obtain ⟨entries, entries', hentries, hentries', redeclares⟩ := marked
    obtain rfl := Option.some.inj (hentries'.symm.trans hes)
    constructor
    · rw [validate_eq_ok_iff h' hentries', validate_eq_ok_iff h hentries, accepts_entry_iff redeclares,
        and_assoc]
    · obtain ⟨d, d', marking, -, hi', -⟩ := redeclares
      obtain ⟨-, t, -, -, s₀, hs₀, spells⟩ := marking.spells
      have hparam : s'.params[i]? = some name := by
        rw [coherent.params, List.getElem?_map, hi']
        rfl
      have hrequired : name ∈ s'.required :=
        (coherent.required _ (List.mem_of_getElem? hi')).2 ⟨s₀, t, hs₀, spells⟩
      exact compiled.reportsMissing_entry hlabel.shown hparam hrequired
  | field i j name =>
    obtain ⟨entries, entries', owner, hentries, hentries', redeclares⟩ := marked
    obtain rfl := Option.some.inj (hentries'.symm.trans hes)
    constructor
    · rw [validate_eq_ok_iff h' hentries', validate_eq_ok_iff h hentries, accepts_field_iff redeclares,
        and_assoc]
    · obtain ⟨d, d', ⟨fields, fields', -, hfields', f, f', marking, -, hj', -⟩, -, hi', -⟩ := redeclares
      obtain ⟨-, t, -, -, s₀, hs₀, spells⟩ := marking.spells
      obtain ⟨nested, hnested, flat⟩ := coherent.hybrid_of_fields hi' hfields'
      have hrequired : name ∈ nested.required :=
        (flat.required _ (List.mem_of_getElem? hj')).2 ⟨s₀, t, hs₀, spells⟩
      exact compiled.reportsMissing_field hnested hrequired

/-- A field of a destructured argument that is not there. -/
theorem accepts_marked_of_field :
    let spec := Value.record [("a", .str "string"), ("b", .record [("x", .str "string")])]
    let spec' := Value.record [("a", .str "string"), ("b", .record [("x", .str "!string")])]
    ∃ s s', compile spec (.str "f") = .ok s ∧ compile spec' (.str "f") = .ok s' ∧
      (∀ c p, s'.validate c p = .ok () ↔
        s.validate c p = .ok () ∧ Supplies c p (.field 1 0 (.str "x"))) ∧
      s.validate .hybrid (.list [.str "1"]) = .ok () ∧
      s'.ReportsMissing .hybrid (.list [.str "1"]) (.str "f destructured arg #1") (.str "x") := by
  have redeclares : Redeclares Marking 0 (.str "x") [(.str "x", .str "string")]
      [(.str "x", .str "!string")] := by
    refine ⟨_, _, ⟨"string", .string, rfl, ⟨"string".toList, rfl, rfl⟩, rfl⟩, rfl, rfl, ?_⟩
    rintro (_ | k) hk
    · exact absurd rfl hk
    · rfl
  have marked : MarkedAt
      (.record [("a", .str "string"), ("b", .record [("x", .str "string")])])
      (.record [("a", .str "string"), ("b", .record [("x", .str "!string")])])
      (.field 1 0 (.str "x")) := by
    refine ⟨_, _, .str "b", rfl, rfl, _, _, ⟨_, _, rfl, rfl, redeclares⟩, rfl, rfl, ?_⟩
    rintro (_ | _ | k) hk
    · rfl
    · exact absurd rfl hk
    · rfl
  obtain ⟨s, h⟩ : ∃ s, compile (.record [("a", .str "string"), ("b", .record [("x", .str "string")])])
      (.str "f") = .ok s := ⟨_, rfl⟩
  obtain ⟨s', h', accepts⟩ := accepts_marked_iff h marked
  cases h
  cases h'
  refine ⟨_, _, rfl, rfl, fun c p => (accepts c p).1, rfl, (accepts .hybrid _).2 ?_ ?_⟩
  · rintro ⟨vs, v, hvs, hv, -⟩
    cases hvs
    cases hv
  · refine ⟨[.str "1"], rfl, fun e he hlt => ?_, rfl⟩
    obtain rfl := List.mem_singleton.1 he
    exact absurd hlt (Int.lt_irrefl 1)

end Compiler

end CallContract
