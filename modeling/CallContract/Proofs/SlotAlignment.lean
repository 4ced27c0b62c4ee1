import Mathlib.Data.List.DropRight
import CallContract.Guard
import CallContract.Proofs.Binding
import CallContract.Proofs.CompilerGate
import CallContract.Proofs.Pairing

/-!
# Alignment of the positional layout

The positional layout of a call has a place for every parameter that stands for a single value, in
the order of the signature, and behind them the surplus arguments (`Signature.layout`). What a guard
checks is this layout up to some `undefined` at its end (`positionalValues_eq_ok`), whether the call
has keywords or not. So every value is checked in the place of the parameter that it was given for
(`positionalValues_aligned`).
-/

namespace CallContract

namespace Param

/-- The value that a call gives for the parameter in place `i`. -/
def supplied? (p : Param) (args : List Value) (kw : Keywords) (i : Nat) : Option Value :=
  (if p.kind.takesPosition then args[i]? else none).or (p.keyword? kw)

theorem supplied?_eq_none_iff {p : Param} {args : List Value} {kw : Keywords} {i : Nat} :
    p.supplied? args kw i = none ↔ (p.kind.takesPosition = true → args.length ≤ i) ∧
      (p.kind.takesKeyword = true → kw.get? p.name = none) := by
  rw [supplied?, keyword?, Option.or_eq_none_iff]
  split <;> split <;> simp_all

end Param

namespace Signature

theorem isUndefined_iff {v : Value} : isUndefined v = true ↔ v = .undefined := by
  cases v <;> simp [isUndefined]

theorem eq_trimUndefined_append (vs : List Value) :
    ∃ n, vs = trimUndefined vs ++ List.replicate n .undefined := by
  refine ⟨(vs.rtakeWhile isUndefined).length, ?_⟩
  have trimmed : vs.rtakeWhile isUndefined =
      List.replicate (vs.rtakeWhile isUndefined).length .undefined :=
    List.eq_replicate_of_mem fun v hv => isUndefined_iff.1 (List.mem_rtakeWhile_imp hv)
  rw [← trimmed]
  exact List.rdropWhile_append_rtakeWhile.symm

theorem getLast?_trimUndefined (vs : List Value) :
    (trimUndefined vs).getLast? ≠ some .undefined := by
  intro h
  obtain ⟨hne, hlast⟩ := List.mem_getLast?_eq_getLast h
  exact List.rdropWhile_last_not isUndefined vs hne (isUndefined_iff.2 hlast.symm)

/-- Each parameter in its place with what the call gives for it, then the surplus arguments. -/
def layout (sig : Signature) (args : List Value) (kw : Keywords) : List Value :=
  (slots sig).mapIdx (fun i p => (p.supplied? args kw i).getD .undefined) ++
    args.drop sig.positions

theorem takesValue_of_position {k : ParamKind} (h : k.takesPosition = true) :
    k.takesValue = true := by
  rw [ParamKind.takesValue, h]
  rfl

theorem positions_le (sig : Signature) : sig.positions ≤ (slots sig).length := by
  rw [slots, ← List.countP_eq_length_filter]
  exact List.countP_mono_left fun p _ hp => takesValue_of_position hp

theorem positions_cons {p : Param} {ps : Signature} (hp : p.kind.takesPosition = true) :
    positions (p :: ps) = positions ps + 1 := List.countP_cons_of_pos hp

theorem layout_nil (sig : Signature) (kw : Keywords) :
    layout sig [] kw = (slots sig).map fun p => (p.keyword? kw).getD .undefined := by
  have keyword (p : Param) (i : Nat) : p.supplied? [] kw i = p.keyword? kw := by
    rw [Param.supplied?]
    split <;> rfl
  simp only [layout, keyword, List.drop_nil, List.append_nil]
  exact List.ext_getElem? fun i => by rw [List.getElem?_mapIdx, List.getElem?_map]

theorem layout_cons {p : Param} {ps : Signature} (hp : p.kind.takesPosition = true)
    (v : Value) (vs : List Value) (kw : Keywords) :
    layout (p :: ps) (v :: vs) kw = v :: layout ps vs kw := by
  have first : p.supplied? (v :: vs) kw 0 = some v := by rw [Param.supplied?, if_pos hp]; rfl
  rw [layout, slots_cons_of_value (takesValue_of_position hp), List.mapIdx_cons, first,
    positions_cons hp]
  rfl

theorem getElem?_layout {sig : Signature} {i : Nat} {p : Param} (hi : (slots sig)[i]? = some p)
    (args : List Value) (kw : Keywords) :
    (layout sig args kw)[i]? = some ((p.supplied? args kw i).getD .undefined) := by
  have hlt : i < (slots sig).length := (List.getElem?_eq_some_iff.1 hi).1
  rw [layout, List.getElem?_append_left (by simpa using hlt), List.getElem?_mapIdx, hi]
  rfl

theorem hasPositionalLayout_tail {p : Param} {ps : Signature}
    (h : hasPositionalLayout (p :: ps) = true) : hasPositionalLayout ps = true := by
  simp only [hasPositionalLayout, List.any_cons] at h ⊢
  grind

/-- With a positional layout no parameter behind the one for surplus arguments is for a single
value. -/
theorem slots_of_surplus {p : Param} {ps : Signature} (wf : WellFormed (p :: ps))
    (hlayout : hasPositionalLayout (p :: ps) = true) (hp : p.kind = .surplus) :
    slots (p :: ps) = [] := by
  rw [slots_cons_of_many (by rw [hp]; rfl)]
  refine List.filter_eq_nil_iff.2 fun q hq hv => ?_
  rcases wf.behind_surplus hp hq with hk | hk
  · have keywordOnly : ps.any (·.kind = .keywordOnly) = true :=
      List.any_eq_true.2 ⟨q, hq, decide_eq_true hk⟩
    simp [hasPositionalLayout, hp, keywordOnly] at hlayout
  · rw [hk] at hv
    cases hv

namespace Laid

variable {rest : Signature → Keywords → Except BindingError (List Slot)} {kw : Keywords}
  {sig : Signature} {args : List Value} {laid : List Slot}

theorem args_prefix (h : Laid rest kw sig args laid) : args <+: laid.flatMap Slot.values := by
  induction h with
  | rest => exact List.nil_prefix
  | surplus => exact List.prefix_append _ _
  | value _ _ _ ih => exact (List.prefix_cons_inj _).2 ih

/-- A place that positional arguments reach belongs to a parameter that takes one. -/
theorem takesPosition (h : Laid rest kw sig args laid) (wf : sig.WellFormed)
    (hlayout : sig.hasPositionalLayout = true) {i : Nat} {p : Param}
    (hi : (slots sig)[i]? = some p) (hlt : i < args.length) : p.kind.takesPosition = true := by
  induction h generalizing i with
  | rest => cases hlt
  | surplus hp _ =>
    rw [slots_of_surplus wf hlayout hp] at hi
    cases hi
  | value hp _ _ ih =>
    rw [slots_cons_of_value (takesValue_of_position hp)] at hi
    cases i with
    | zero => cases hi; exact hp
    | succ i => exact ih wf.tail (hasPositionalLayout_tail hlayout) hi (Nat.lt_of_succ_lt_succ hlt)

theorem length_le_of_keyword (h : Laid rest kw sig args laid) (wf : sig.WellFormed) {i : Nat}
    {p : Param} (hi : (slots sig)[i]? = some p) (hposition : p.kind.takesPosition = true)
    (hkeyword : p.kind.takesKeyword = true) (hc : kw.contains p.name = true) : args.length ≤ i := by
  induction h generalizing i with
  | rest => exact Nat.zero_le i
  | @surplus q ps _ _ _ hq _ =>
    rw [slots_cons_of_many (by rw [hq]; rfl)] at hi
    have hp : p ∈ ps := (List.mem_filter.1 (List.mem_of_getElem? hi)).1
    rcases wf.behind_surplus hq hp with hk | hk <;> rw [hk] at hposition <;> cases hposition
  | value hq once _ ih =>
    rw [slots_cons_of_value (takesValue_of_position hq)] at hi
    cases i with
    | zero =>
      cases hi
      rw [once hkeyword] at hc
      cases hc
    | succ i => exact Nat.succ_le_succ (ih wf.tail hi)

end Laid

section
variable {sig : Signature} {args : List Value} {kw : Keywords} {laid : List Slot}

/-- The slots of a partial binding hold the positional layout. -/
theorem values_eq_layout (h : Laid layKeywords kw sig args laid) (wf : sig.WellFormed)
    (hlayout : sig.hasPositionalLayout = true) :
    laid.flatMap Slot.values = layout sig args kw := by
  induction h with
  | rest h => rw [layout_nil, layKeywords_values wf h]
  | @surplus p ps v vs tail hp h =>
    -- the layout ends here: neither places nor keywords come behind the surplus arguments
    have none_here : slots (p :: ps) = [] := slots_of_surplus wf hlayout hp
    have none_behind : slots ps = [] := by
      rw [← none_here, slots_cons_of_many (by rw [hp]; rfl)]
    have no_positions : positions (p :: ps) = 0 := by
      have hle := positions_le (p :: ps)
      rw [none_here] at hle
      exact Nat.le_zero.1 hle
    rw [List.flatMap_cons, layKeywords_values wf.tail h, none_behind, layout, none_here,
      no_positions]
    simp [Slot.values]
  | value hp _ _ ih =>
    rw [List.flatMap_cons, ih wf.tail (hasPositionalLayout_tail hlayout), layout_cons hp]
    rfl

theorem values_of_no_keywords (h : Laid layKeywords kw sig args laid) (wf : sig.WellFormed)
    (hkw : kw.entries = []) :
    ∃ n, laid.flatMap Slot.values = args ++ List.replicate n .undefined := by
  have layKeywords_undefined {ps : Signature} {tail : List Slot} (wf : ps.WellFormed)
      (h : layKeywords ps kw = .ok tail) :
      tail.flatMap Slot.values = List.replicate (slots ps).length .undefined := by
    have nothing (p : Param) : p.keyword? kw = none := by
      rw [Param.keyword?, Table.get?, hkw]
      split <;> rfl
    rw [layKeywords_values wf h]
    simp [nothing]
  induction h with
  | rest h => exact ⟨_, layKeywords_undefined wf h⟩
  | surplus hp h => exact ⟨_, by rw [List.flatMap_cons, layKeywords_undefined wf.tail h]; rfl⟩
  | value _ _ _ ih =>
    obtain ⟨n, hn⟩ := ih wf.tail
    exact ⟨n, by rw [List.flatMap_cons, hn]; rfl⟩

/-- A keyword is one for a parameter in one of the places or goes to the parameter for extra
keywords. -/
theorem keyword_taken (h : Laid layKeywords kw sig args laid) {name : String} {v : Value}
    (hv : kw.get? name = some v) :
    (∃ p ∈ sig, p.kind.takesKeyword = true ∧ p.name = name) ∨
      ∃ extra, .keywords extra ∈ laid ∧ extra.get? name = some v := by
  have behind {p : Param} {ps : Signature} {slot : Slot} {tail : List Slot}
      (h : (∃ q ∈ ps, q.kind.takesKeyword = true ∧ q.name = name) ∨
        ∃ extra, .keywords extra ∈ tail ∧ extra.get? name = some v) :
      (∃ q ∈ p :: ps, q.kind.takesKeyword = true ∧ q.name = name) ∨
        ∃ extra, .keywords extra ∈ slot :: tail ∧ extra.get? name = some v :=
    h.imp (fun ⟨q, hq, h⟩ => ⟨q, List.mem_cons_of_mem _ hq, h⟩)
      fun ⟨extra, he, h⟩ => ⟨extra, List.mem_cons_of_mem _ he, h⟩
  induction h with
  | rest h => exact (layKeywords_taken h hv).imp_right And.right
  | surplus _ h => exact behind ((layKeywords_taken h hv).imp_right And.right)
  | value _ _ _ ih => exact behind ih

theorem positionalValues_iff_laid (hkw : kw.entries ≠ []) {r : List Value} :
    sig.positionalValues args kw = .ok r ↔
      ∃ laid, Laid layKeywords kw sig args laid ∧ r = trimUndefined (laid.flatMap Slot.values) := by
  rw [positionalValues, if_neg (by simpa using hkw)]
  constructor
  · intro h
    obtain ⟨laid, hbound, h⟩ := bind_eq_ok.1 h
    exact ⟨laid, layPositional_eq_ok_iff.1 hbound, (Except.ok.inj h).symm⟩
  · rintro ⟨laid, h, rfl⟩
    have bound : sig.bindPartial args kw = .ok laid := layPositional_eq_ok_iff.2 h
    rw [bound]
    rfl

/-- What a guard checks is the positional layout, up to some `undefined` at its end. -/
theorem positionalValues_eq_ok (wf : sig.WellFormed) (hlayout : sig.hasPositionalLayout = true)
    (h : Laid layKeywords kw sig args laid) :
    ∃ r n, sig.positionalValues args kw = .ok r ∧
      layout sig args kw = r ++ List.replicate n .undefined ∧
      (kw.entries ≠ [] → r.getLast? ≠ some .undefined) := by
  rw [← values_eq_layout h wf hlayout]
  by_cases hkw : kw.entries = []
  · obtain ⟨n, hn⟩ := values_of_no_keywords h wf hkw
    exact ⟨args, n, by rw [positionalValues, hkw]; rfl, hn, fun hne => absurd hkw hne⟩
  · obtain ⟨n, hn⟩ := eq_trimUndefined_append (laid.flatMap Slot.values)
    exact ⟨_, n, (positionalValues_iff_laid hkw).2 ⟨laid, h, rfl⟩, hn,
      fun _ => getLast?_trimUndefined _⟩

end

/-- What a signature says apart from the defaults. -/
def shape (sig : Signature) : List (ParamKind × String) := sig.map fun p => (p.kind, p.name)

section
variable {sig sig' : Signature} (h : sig.shape = sig'.shape)
include h

theorem layKeywords_shape (kw : Keywords) : layKeywords sig kw = layKeywords sig' kw := by
  induction sig generalizing sig' kw with
  | nil =>
    cases sig' with
    | nil => rfl
    | cons p' ps' => cases h
  | cons p ps ih =>
    cases sig' with
    | nil => cases h
    | cons p' ps' =>
      obtain ⟨hp, hps⟩ := List.cons.inj h
      obtain ⟨hkind, hname⟩ := Prod.mk.inj hp
      simp only [layKeywords, hkind, hname, ih hps]

theorem bindPartial_shape (args : List Value) (kw : Keywords) :
    sig.bindPartial args kw = sig'.bindPartial args kw := by
  simp only [bindPartial]
  induction sig generalizing sig' args with
  | nil =>
    cases sig' with
    | nil => rfl
    | cons p' ps' => cases h
  | cons p ps ih =>
    cases sig' with
    | nil => cases h
    | cons p' ps' =>
      cases args with
      | nil => exact layKeywords_shape h kw
      | cons v vs =>
        obtain ⟨hp, hps⟩ := List.cons.inj h
        obtain ⟨hkind, hname⟩ := Prod.mk.inj hp
        simp only [layPositional, hkind, hname, ih hps, layKeywords_shape hps]

theorem positionalValues_shape (args : List Value) (kw : Keywords) :
    sig.positionalValues args kw = sig'.positionalValues args kw := by
  rw [positionalValues, positionalValues, bindPartial_shape h]

end

/-- `r` is a positional layout of a call that is bound as `laid`. -/
structure Aligned (sig : Signature) (args : List Value) (kw : Keywords) (laid : List Slot)
    (r : List Value) : Prop where
  /-- The place of a parameter holds what the call gives for it. -/
  place : ∀ (i : Nat) (p : Param), (slots sig)[i]? = some p → i < r.length →
    r[i]? = some ((p.supplied? args kw i).getD .undefined)
  /-- What stands behind the places is among the surplus arguments. -/
  surplus : r.drop (slots sig).length <+: args.drop sig.positions
  /-- A positional argument stands in its place. -/
  argument : ∀ (i : Nat) (v : Value), args[i]? = some v → v ≠ .undefined → r[i]? = some v
  /-- A keyword argument stands in the place of the parameter of its name, which no positional
  argument reaches, or is one of the extra keywords. -/
  keyword : ∀ (name : String) (v : Value), kw.get? name = some v → v ≠ .undefined →
    (∃ i p, (slots sig)[i]? = some p ∧ p.kind.takesKeyword = true ∧ p.name = name ∧
      (p.kind.takesPosition = true → args.length ≤ i) ∧ r[i]? = some v) ∨
      ∃ extra, .keywords extra ∈ laid ∧ extra.get? name = some v
  /-- Defaults play no part. -/
  shape : ∀ sig' : Signature, sig'.shape = sig.shape → sig'.positionalValues args kw = .ok r
  trimmed : kw.entries ≠ [] → r.getLast? ≠ some .undefined

theorem positionalValues_aligned {sig : Signature} {args : List Value} {kw : Keywords}
    {laid : List Slot} (wf : sig.WellFormed) (hlayout : sig.hasPositionalLayout = true)
    (hbound : sig.bindPartial args kw = .ok laid) :
    ∃ r, sig.positionalValues args kw = .ok r ∧ sig.Aligned args kw laid r := by
  have h : Laid layKeywords kw sig args laid := layPositional_eq_ok_iff.1 hbound
  obtain ⟨r, n, hr, hlaid, trimmed⟩ := positionalValues_eq_ok wf hlayout h
  -- trimming loses no value
  have kept {i : Nat} {v : Value} (hv : (layout sig args kw)[i]? = some v) (hne : v ≠ .undefined) :
      r[i]? = some v := by
    rw [hlaid] at hv
    by_cases hi : i < r.length
    · rwa [List.getElem?_append_left hi] at hv
    · rw [List.getElem?_append_right (Nat.le_of_not_lt hi)] at hv
      exact absurd (List.eq_of_mem_replicate (List.mem_of_getElem? hv)) hne
  refine ⟨r, hr, fun i p hi hlt => ?_, ?_, fun i v hv hne => ?_, fun name v hv hne => ?_,
    fun sig' hshape => by rw [positionalValues_shape hshape, hr], trimmed⟩
  · rw [← getElem?_layout hi, hlaid, List.getElem?_append_left hlt]
  · have behind : (layout sig args kw).drop (slots sig).length = args.drop sig.positions := by
      rw [layout, List.drop_left' (by simp)]
    rw [← behind, hlaid, List.drop_append]
    exact List.prefix_append _ _
  · -- positional arguments stand in front of the layout
    obtain ⟨tail, htail⟩ := h.args_prefix
    refine kept ?_ hne
    rw [← values_eq_layout h wf hlayout, ← htail,
      List.getElem?_append_left (List.getElem?_eq_some_iff.1 hv).1, hv]
  · rcases keyword_taken h hv with ⟨p, hp, hkeyword, rfl⟩ | extra
    · have hslot : p ∈ slots sig :=
        List.mem_filter.2 ⟨hp, by rw [ParamKind.takesValue, hkeyword, Bool.or_true]⟩
      obtain ⟨i, hi⟩ := List.mem_iff_getElem?.1 hslot
      -- a keyword for a parameter that has a positional argument is not bound
      have free (hposition : p.kind.takesPosition = true) : args.length ≤ i :=
        h.length_le_of_keyword wf hi hposition hkeyword (by rw [Table.contains, hv]; rfl)
      have given : p.supplied? args kw i = some v := by
        rw [Param.supplied?, Param.keyword?, if_pos hkeyword, hv]
        split
        next hposition => rw [List.getElem?_eq_none (free hposition)]; rfl
        next => rfl
      refine .inl ⟨i, p, hi, hkeyword, rfl, free, kept ?_ hne⟩
      rw [getElem?_layout hi, given]
      rfl
    · exact .inr extra

end Signature

namespace Guard

/-- The parameters that the contract of a guard speaks of. -/
def signature (g : Guard) : Signature := contractSignature g.function g.method

def given (g : Guard) (args : List Value) : List Value := if g.method then args.drop 1 else args

theorem signature_wellFormed {g : Guard} (wf : g.function.signature.WellFormed) :
    g.signature.WellFormed := by
  rw [signature, contractSignature]
  split
  · cases hsig : g.function.signature with
    | nil => exact ⟨.nil, .nil⟩
    | cons p ps =>
      rw [hsig] at wf
      exact wf.tail
  · exact wf

theorem check_of_positionalValues {g : Guard} (hc : g.convention ≠ .named) {args : List Value}
    {kw : Keywords} {r : List Value}
    (hr : g.signature.positionalValues (g.given args) kw = .ok r) :
    g.check args kw = g.validator.run g.convention (.list r) := by
  rw [check]
  cases hconv : g.convention with
  | named => exact absurd hconv hc
  | positional | hybrid =>
    rw [signature, given] at hr
    simp only [hr]

theorem check_of_binding {g : Guard} (hc : g.convention ≠ .named) {args : List Value}
    {kw : Keywords} {e : BindingError}
    (he : g.signature.positionalValues (g.given args) kw = .error e) :
    g.check args kw = throw (.binding e) := by
  rw [check]
  cases hconv : g.convention with
  | named => exact absurd hconv hc
  | positional | hybrid =>
    rw [signature, given] at he
    simp only [he]

/-- What a guard checks of a call is aligned with the parameters of its function, and a compiled
schema finds it under the names of its own parameters, place by place. -/
theorem check_aligned (g : Guard) (hc : g.convention ≠ .named)
    (wf : g.function.signature.WellFormed) (hlayout : g.signature.hasPositionalLayout = true)
    {args : List Value} {kw : Keywords} {laid : List Slot}
    (hbound : g.signature.bindPartial (g.given args) kw = .ok laid) :
    ∃ r, g.signature.positionalValues (g.given args) kw = .ok r ∧
      g.signature.Aligned (g.given args) kw laid r ∧
      g.check args kw = g.validator.run g.convention (.list r) ∧
      ∀ spec label, Compiler.compile spec label = .ok g.validator.schema →
        ∀ (i : Nat) (name : Value), g.validator.schema.params[i]? = some name →
          (Arguments.pair g.validator.schema r).get? name = r[i]? := by
  obtain ⟨r, hr, aligned⟩ :=
    Signature.positionalValues_aligned (signature_wellFormed wf) hlayout hbound
  refine ⟨r, hr, aligned, check_of_positionalValues hc hr, fun spec label h i name hi => ?_⟩
  obtain ⟨-, compiled⟩ := Compiler.compiled_of_compile h
  exact compiled.get?_pair hi r

/-- One parameter of each kind but for surplus arguments, the second left to its default, and a
keyword that names none of them. -/
theorem check_aligned_of_gap :
    let sig : Signature := [⟨.positionalOnly, "a", none⟩, ⟨.ordinary, "b", some .null⟩,
      ⟨.keywordOnly, "c", none⟩, ⟨.extraKeywords, "d", none⟩]
    let kw : Keywords := ⟨[("e", .int 4), ("c", .int 3)]⟩
    ∃ s, Compiler.compile
        (.record [("a", .str "!number"), ("b", .str "number"), ("c", .str "number")]) (.str "f") =
          .ok s ∧
      let g : Guard := ⟨⟨"f", sig⟩, ⟨s, none⟩, .positional, none, false⟩
      ∃ laid, sig.bindPartial [.int 1] kw = .ok laid ∧
        sig.Aligned [.int 1] kw laid [.int 1, .undefined, .int 3] ∧
        g.check [.int 1] kw =
          g.validator.run .positional (.list [.int 1, .undefined, .int 3]) ∧
        (Arguments.pair s [.int 1, .undefined, .int 3]).get? (.str "c") = some (.int 3) := by
  intro sig kw
  obtain ⟨s, h⟩ : ∃ s, Compiler.compile
      (.record [("a", .str "!number"), ("b", .str "number"), ("c", .str "number")]) (.str "f") =
        .ok s := ⟨_, rfl⟩
  let g : Guard := ⟨⟨"f", sig⟩, ⟨s, none⟩, .positional, none, false⟩
  have wf : sig.WellFormed := ⟨by decide, by decide⟩
  obtain ⟨laid, hbound⟩ : ∃ laid, sig.bindPartial [.int 1] kw = .ok laid := ⟨_, rfl⟩
  obtain ⟨r, hr, aligned, hcheck, hpair⟩ := check_aligned g nofun wf rfl hbound
  obtain rfl := Except.ok.inj hr
  refine ⟨s, h, laid, hbound, aligned, hcheck, ?_⟩
  refine hpair _ _ h 2 (.str "c") ?_
  cases h
  rfl

end Guard

end CallContract
