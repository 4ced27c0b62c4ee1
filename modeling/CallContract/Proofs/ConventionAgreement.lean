import CallContract.Proofs.CompilerGate
import CallContract.Proofs.Pairing

/-!
# Positional and named arguments agree

Positional values and named fragments that give the same values to the same parameters are one
payload under different names: whatever is looked up in them is the same (`Table.Holds.get?_eq`).
The two conventions then differ in three checks only, those for `undefined`, for undeclared names
and for the number of values, none of which such a payload can fail (`Compiler.conventions_agree`).
-/

namespace CallContract

namespace Schema

variable {s : Schema} {supplied supplied' : Payload}

theorem checkParam_congr {name : Value} (hget : supplied.get? name = supplied'.get? name)
    (hundef : supplied.get? name ≠ some .undefined) (checkUndefined checkUndefined' checkBags : Bool) :
    s.checkParam supplied checkUndefined checkBags name =
      s.checkParam supplied' checkUndefined' checkBags name := by
  cases hv : supplied.get? name with
  | none => simp only [checkParam, ← hget, hv]
  | some v =>
    rcases v.null_or_undefined_or_there with rfl | rfl | hthere
    · simp only [checkParam, ← hget, hv]
    · exact absurd hv hundef
    · rw [checkParam_of_value _ _ hv hthere, checkParam_of_value _ _ (hget.symm.trans hv) hthere]

theorem validateNamed_eq {p : Value} {fs : List Value} (hp : p.interruption? = none)
    (hfs : p.fragments? = some fs) (hfragments : ∀ v ∈ fs, v.fragment?.isSome) :
    s.validateNamed p = s.checkRequired (Arguments.merged fs) >>= fun _ =>
      s.typecheck (Arguments.merged fs) true true true := by
  rw [validateNamed, Arguments.named_of_fragments hp hfs,
    Arguments.mergeFragments_of_fragments hfragments]
  rfl

theorem checkExtra_of_declared (h : ∀ k ∈ supplied.keys, s.isDeclared k = true) :
    s.checkExtra supplied = .ok () := by
  have none : supplied.keys.filter (fun key => !s.isDeclared key) = [] :=
    List.filter_eq_nil_iff.2 fun k hk => by simp [h k hk]
  rw [checkExtra, none]
  rfl

theorem checkArity_of_le {n : Nat} (h : n ≤ s.arity) : s.checkArity n = .ok () := by
  rw [checkArity, if_neg (by omega)]
  rfl

end Schema

namespace Compiler

/-- Positional values and fragments that merge to exactly these values, under the names of the
parameters in whose places they stand, are validated with the same outcome. -/
theorem conventions_agree {spec label : Value} {s : Schema} (h : compile spec label = .ok s)
    {vs : List Value} (hlen : vs.length ≤ s.arity) (hundef : .undefined ∉ vs) {p : Value}
    (hp : p.interruption? = none) {fs : List Value} (hfs : p.fragments? = some fs)
    (hfragments : ∀ v ∈ fs, v.fragment?.isSome)
    (hmerged : (Arguments.merged fs).Holds (s.params.zip vs)) :
    s.validatePositional (.list vs) = s.validateNamed p := by
  obtain ⟨-, ps, rfl, listed, -⟩ := compiled_of_compile h
  have hget (name : Value) : (Arguments.pair (.listing label ps) vs).get? name =
      (Arguments.merged fs).get? name := by
    rw [listed.pair_eq]
    exact (hmerged.get?_eq (listed.apart_zip vs) name).symm
  have required : (Schema.listing label ps).checkRequired (Arguments.pair (.listing label ps) vs) =
      (Schema.listing label ps).checkRequired (Arguments.merged fs) :=
    Schema.checkRequired_congr fun name _ => by rw [Table.contains, hget, Table.contains]
  have types : (Schema.listing label ps).checkTypes (Arguments.pair (.listing label ps) vs) false
      true = (Schema.listing label ps).checkTypes (Arguments.merged fs) true true := by
    refine forM_congr fun name hname => ?_
    obtain ⟨p, hp, rfl⟩ := List.mem_map.1 hname
    obtain ⟨i, hi⟩ := List.mem_iff_getElem?.1 hp
    refine Schema.checkParam_congr (hget p.name) (fun hu => hundef ?_) false true true
    rw [listed.get?_pair label hi] at hu
    exact List.mem_of_getElem? hu
  have extra : (Schema.listing label ps).checkExtra (Arguments.merged fs) = .ok () := by
    refine Schema.checkExtra_of_declared fun k hk => ?_
    obtain ⟨e, he, hke⟩ := hmerged.2 k hk
    obtain ⟨p, hp, hpe⟩ := List.mem_map.1 (List.of_mem_zip he).1
    exact Schema.isDeclared_listing_iff.2 ⟨p, hp, by rwa [hpe]⟩
  rw [Schema.validatePositional_eq rfl rfl, Schema.validateNamed_eq hp hfs hfragments,
    Schema.checkValues, required, Schema.typecheck, Schema.typecheck, types,
    Schema.checkArity_of_le hlen]
  cases (Schema.listing label ps).checkRequired (Arguments.merged fs) with
  | error f => rfl
  | ok =>
    cases (Schema.listing label ps).checkTypes (Arguments.merged fs) true true with
    | error f => rfl
    | ok => exact extra.symm

/-- Two fragments in reverse order, with nothing between them, against one value too few. -/
theorem conventions_agree_on_prefix : ∃ s,
    compile (.record [("a", .str "!string"), ("b", .str "number"), ("c", .str "any")]) (.str "F") =
      .ok s ∧
    s.validatePositional (.list [.str "v", .str "w"]) =
      s.validateNamed (.list [.record [("b", .str "w")], .null, .record [("a", .str "v")]]) := by
  obtain ⟨s, h⟩ : ∃ s, compile
      (.record [("a", .str "!string"), ("b", .str "number"), ("c", .str "any")]) (.str "F") = .ok s :=
    ⟨_, rfl⟩
  have hundef : Value.undefined ∉ [Value.str "v", .str "w"] := by simp
  refine ⟨s, h, conventions_agree h ?_ hundef rfl rfl (by decide) ?_⟩
  · cases h
    decide
  · cases h
    exact ⟨List.forall_mem_cons.2 ⟨rfl, List.forall_mem_singleton.2 rfl⟩, by decide⟩

end Compiler

end CallContract
