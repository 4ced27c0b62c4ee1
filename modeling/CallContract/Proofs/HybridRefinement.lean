import CallContract.Proofs.NullLaws
import CallContract.Proofs.HybridStages

/-!
# Hybrid validation refines positional validation

The positional convention looks at a destructured argument only to see that it is a mapping or is
not there. The hybrid convention looks at it later, along the nested schema, which accepts nothing
else (`Specification.AcceptsBag.isSome_fragment?`). So hybrid validation accepts what positional
validation accepts and all nested schemas do (`Specification.accepts_hybrid_iff_positional`), and
whatever it refuses beyond that it refuses in the words of a nested schema
(`Compiler.hybrid_refines_positional`).
-/

namespace CallContract

namespace Specification

variable {entries fields : List (Value × Value)} {declared v : Value} {vs : List Value}

/-- Nothing but a mapping, or a value that is not there, is accepted by the entries of a mapping. -/
theorem AcceptsBag.isSome_fragment? (h : AcceptsBag fields v) : v.fragment?.isSome := by
  obtain ⟨es, hes, -⟩ := h
  rw [hes]
  rfl

theorem isSome_fragment?_of_there (hv : v.IsThere) : v.fragment?.isSome = v.isMapping := by
  rw [Value.isMapping_eq]
  cases v with
  | null => exact absurd rfl hv.1
  | undefined => exact absurd rfl hv.2
  | _ => rfl

/-- Looking into a mapping's place only asks for a mapping, or for nothing, to be there. -/
theorem takes_looked_iff (h : declared.entries? = some fields) (v? : Option Value) :
    Takes (FitsBag true) true declared v? ↔ (v?.getD .undefined).fragment?.isSome := by
  cases v? with
  | none => exact iff_of_true (not_marks_of_entries h) rfl
  | some v =>
    rcases v.null_or_undefined_or_there with rfl | rfl | hthere
    · exact iff_of_true trivial rfl
    · exact iff_of_true rfl rfl
    · rw [takes_of_there hthere, fits_mapping h, Option.getD_some,
        isSome_fragment?_of_there hthere]
      exact forall_prop_of_true rfl

theorem takes_iff_of_no_mapping {mappingFits mappingFits' : Value → Prop} {undefinedPasses : Bool}
    (h : declared.entries? = none) {v? : Option Value} :
    Takes mappingFits undefinedPasses declared v? ↔
      Takes mappingFits' undefinedPasses declared v? := by
  cases v? with
  | none => exact Iff.rfl
  | some v =>
    rcases v.null_or_undefined_or_there with rfl | rfl | hthere
    · exact Iff.rfl
    · exact Iff.rfl
    · rw [takes_of_there hthere, takes_of_there hthere]
      cases declared with
      | mapping => cases h
      | _ => exact Iff.rfl

/-- What is accepted by position is accepted without a look into the mappings, and stands in the
place of each mapping as something that can be looked into. -/
theorem acceptsValues_looked_iff : AcceptsValues (FitsBag true) entries vs ↔
    AcceptsValues (FitsBag false) entries vs ∧
      ∀ (i : Nat) (e : Value × Value), entries[i]? = some e → e.2.entries?.isSome →
        (vs[i]?.getD .undefined).fragment?.isSome := by
  constructor
  · intro h
    refine ⟨⟨fun i e hi => ?_, h.length_le⟩, fun i e hi hmapping => ?_⟩
    · cases hfields : e.2.entries? with
      | none => exact (takes_iff_of_no_mapping hfields).1 (h.takes i e hi)
      | some fields =>
        cases hv : vs[i]? with
        | none => exact not_marks_of_entries hfields
        | some v => exact takes_unlooked hfields v
    · obtain ⟨fields, hfields⟩ := Option.isSome_iff_exists.1 hmapping
      exact (takes_looked_iff hfields _).1 (h.takes i e hi)
  · rintro ⟨h, mappings⟩
    refine ⟨fun i e hi => ?_, h.length_le⟩
    cases hfields : e.2.entries? with
    | none => exact (takes_iff_of_no_mapping hfields).1 (h.takes i e hi)
    | some fields =>
      exact (takes_looked_iff hfields _).2 (mappings i e hi (by rw [hfields]; rfl))

theorem accepts_hybrid_iff_positional {p : Value} : Accepts entries .hybrid p ↔
    Accepts entries .positional p ∧ ∀ vs, p.sequence? = some vs → AcceptsBags entries vs := by
  cases hvs : p.sequence? with
  | none => simp [Accepts, hvs]
  | some vs =>
    rw [accepts_hybrid_iff hvs, accepts_positional_iff hvs, acceptsValues_looked_iff]
    constructor
    · rintro ⟨accepts, bags⟩
      refine ⟨⟨accepts, fun i e hi hmapping => ?_⟩, fun _ hws => Option.some.inj hws ▸ bags⟩
      obtain ⟨fields, hfields⟩ := Option.isSome_iff_exists.1 hmapping
      exact (bags i e hi fields hfields).isSome_fragment?
    · rintro ⟨⟨accepts, -⟩, bags⟩
      exact ⟨accepts, bags vs rfl⟩

end Specification

namespace Schema

variable {s : Schema} {supplied : Payload} {p name : Value}

/-- Without a look at the mappings nothing is found that is not found with it. -/
theorem findInParam_unlooked {checkUndefined : Bool}
    (h : s.findInParam supplied checkUndefined true name = none) :
    s.findInParam supplied checkUndefined false name = none := by
  cases hget : supplied.get? name with
  | none => simp only [findInParam, hget]
  | some v =>
    rcases v.null_or_undefined_or_there with rfl | rfl | hthere
    · simp only [findInParam, hget]
    · simpa only [findInParam, hget] using h
    · rw [findInParam_of_value _ _ hget hthere] at h ⊢
      generalize s.types.get? name = x? at h ⊢
      cases x? with
      | none => cases h
      | some x =>
        cases x with
        | bag => rfl
        | _ => exact h

theorem findPositional_unlooked (h : s.findPositional p true = none) :
    s.findPositional p false = none := by
  obtain ⟨vs, hvs, hfound⟩ := findPositional_eq_none_iff.1 h
  refine findPositional_eq_none_iff.2 ⟨vs, hvs, ?_⟩
  rw [findInValues, Option.or_eq_none_iff, Option.or_eq_none_iff] at hfound ⊢
  refine ⟨hfound.1, ?_, hfound.2.2⟩
  rw [findInTypes, List.findSome?_eq_none_iff]
  exact fun name hname =>
    findInParam_unlooked (List.findSome?_eq_none_iff.1 hfound.2.1 name hname)

theorem validateValues_eq_bind (checkBags : Bool) : s.validateValues p checkBags =
    Arguments.positionalValues s p >>= fun vs => s.checkValues vs checkBags >>= fun _ => .ok vs := by
  simp only [validateValues, checkValues, bind_assoc]
  rfl

section
variable {label : Value} {labelText : String} (compiled : s.Compiled label labelText)
include compiled

/-- What only the hybrid convention refuses is a destructured argument, and a nested schema says
so. -/
theorem Compiled.refused_by_nested (hlabel : label.Shown)
    (hpos : s.validate .positional p = .ok ()) {f : Failure} (hf : s.validate .hybrid p = .error f)
    (testable : ∀ e ∈ s.hybrids.entries, ¬ e.2.DeclaresAny)
    (given : ∀ vs, p.sequence? = some vs → ∀ v ∈ vs, v.Shown) :
    ∃ e ∈ s.hybrids.entries, ∃ message what, f = .violation e.2.name message what := by
  have hp := uninterrupted_of_validate hpos
  have hnone : s.findPositional p true = none :=
    (s.reports_validate .positional hp).isOk_iff.1 ⟨(), hpos⟩
  obtain ⟨x, hx, ends⟩ := (s.reports_validate .hybrid hp).error hf
  rw [finding, findHybrid, findPositional_unlooked hnone, Option.none_or,
    compiled.ascending_hybrids] at hx
  obtain ⟨e, he, hbag⟩ := List.exists_of_findSome?_eq_some hx
  have ordinary := (compiled.nested_typed he).ordinary_findInBag (compiled.typed hlabel) x hbag
  have shown : x.IsShown := by
    refine ordinary.shown ?_
    cases hvs : p.sequence? with
    | none => rintro _ ⟨⟩
    | some vs => exact given vs hvs
  refine ⟨e, he, ?_⟩
  rcases ends with ⟨-, ends⟩ | ⟨⟨v, hv, hn⟩, -⟩
  · rcases ordinary.offence with ⟨what, hwhat, -⟩ | ⟨-, any⟩
    · rw [hwhat] at ends
      obtain ⟨message, rfl⟩ := ends
      exact ⟨message, what, rfl⟩
    · exact absurd any (testable e he)
  · exact absurd (shown v hv) hn

theorem Compiled.validateHybrid_of_no_hybrids (hnone : s.hybrids.entries = []) :
    s.validateHybrid p = s.validatePositional p := by
  have unmasked (vs : List Value) : s.masked vs = vs := by
    have nowhere (i : Int) : s.hybrids.contains i = false := by
      rw [Bool.eq_false_iff, Ne, Table.contains_iff, Table.keys, hnone]
      rintro ⟨_, hmem, -⟩
      cases hmem
    rw [masked]
    simp only [nowhere, Bool.false_eq_true, if_false]
    exact List.mapIdx_eq_iff.2 fun i => by cases vs[i]? <;> rfl
  have none_ascending : ascending s.hybrids = [] := by rw [ascending, hnone]; rfl
  rw [validateHybrid, validatePositional, validateValues_eq_bind, validateValues_eq_bind]
  cases Arguments.positionalValues s p with
  | error f => rfl
  | ok vs =>
    show (s.checkValues vs false >>= fun _ => .ok vs) >>= _ =
      discard (s.checkValues vs true >>= fun _ => .ok vs)
    rw [compiled.checkValues_masked, unmasked, none_ascending]
    cases s.checkValues vs true <;> rfl

end

end Schema

namespace Compiler

/-- Hybrid validation accepts nothing that positional validation refuses. What it alone refuses is
reported under the label of a nested schema, unless a class that cannot be tested for is declared
there or a value cannot be shown. Without destructured positions the two are the same. -/
theorem hybrid_refines_positional {spec label : Value} {s : Schema}
    (h : compile spec label = .ok s) :
    (∀ p, s.validate .hybrid p = .ok () → s.validate .positional p = .ok ()) ∧
    (∀ p, (∀ vs, p.sequence? = some vs → ∀ v ∈ vs, v.Shown) →
      (∀ e ∈ s.hybrids.entries, ¬ e.2.DeclaresAny) →
      s.validate .positional p = .ok () → ∀ f, s.validate .hybrid p = .error f →
      ∃ e ∈ s.hybrids.entries, ∃ message what, f = .violation e.2.name message what) ∧
    (s.hybrids.entries = [] → ∀ p, s.validate .hybrid p = s.validate .positional p) := by
  obtain ⟨hlabel, compiled⟩ := compiled_of_compile h
  refine ⟨fun p hok => ?_, fun p given testable hpos f hf => ?_, fun hnone p => ?_⟩
  · obtain ⟨-, entries, hspec, -⟩ := compileDeep_of_compile h
    obtain ⟨hp, accepts⟩ := (validate_eq_ok_iff h hspec).1 hok
    exact (validate_eq_ok_iff h hspec).2
      ⟨hp, (Specification.accepts_hybrid_iff_positional.1 accepts).1⟩
  · exact compiled.refused_by_nested hlabel.shown hpos hf testable given
  · exact compiled.validateHybrid_of_no_hybrids hnone

/-- A field of the wrong type passes by position, and the nested schema refuses it. -/
theorem hybrid_refines_positional_of_field : ∃ s,
    compile (.record [("a", .str "!string"), ("b", .record [("x", .str "number")])]) (.str "F") =
      .ok s ∧
    s.validate .positional (.list [.str "v", .record [("x", .str "w")]]) = .ok () ∧
    ∃ e ∈ s.hybrids.entries, ∃ message what,
      s.validate .hybrid (.list [.str "v", .record [("x", .str "w")]]) =
        .error (.violation e.2.name message what) := by
  obtain ⟨s, h⟩ : ∃ s, compile
      (.record [("a", .str "!string"), ("b", .record [("x", .str "number")])]) (.str "F") = .ok s :=
    ⟨_, rfl⟩
  obtain ⟨-, refused, -⟩ := hybrid_refines_positional h
  have given : ∀ vs, (Value.list [.str "v", .record [("x", .str "w")]]).sequence? = some vs →
      ∀ v ∈ vs, v.Shown := by
    rintro _ ⟨⟩
    exact List.forall_mem_cons.2 ⟨⟨_, rfl⟩, List.forall_mem_singleton.2 ⟨_, rfl⟩⟩
  have testable : ∀ e ∈ s.hybrids.entries, ¬ e.2.DeclaresAny := by
    cases h
    refine List.forall_mem_singleton.2 ?_
    rintro ⟨name, any⟩
    obtain ⟨e, he, -, hx⟩ := Table.mem_of_get? any
    obtain rfl := List.mem_singleton.1 he
    cases hx
  have hpos : s.validate .positional (.list [.str "v", .record [("x", .str "w")]]) = .ok () := by
    cases h
    rfl
  obtain ⟨f, hf⟩ : ∃ f, s.validate .hybrid (.list [.str "v", .record [("x", .str "w")]]) =
      .error f := by
    cases h
    exact ⟨_, rfl⟩
  obtain ⟨e, he, message, what, rfl⟩ := refused _ given testable hpos f hf
  exact ⟨s, h, hpos, e, he, message, what, hf⟩

end Compiler

end CallContract
