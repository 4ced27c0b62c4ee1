import CallContract.Proofs.GuardedCalls

/-!
# Required parameters

A required parameter counts as given when its place is filled, and a place in front of a value is
always filled. So a call that skips a required parameter gets past its guard only with a keyword for
a parameter behind it, and the body then runs with the default. A call without such a keyword never
reaches the body (`Guard.unreached_of_skipped`).
-/

namespace CallContract

namespace Signature

/-- With no `undefined` at the end there is a value behind every `undefined`. -/
theorem value_behind_undefined {vs : List Value} {i : Nat} (hi : vs[i]? = some .undefined)
    (hlast : vs.getLast? ≠ some .undefined) : ∃ m v, i < m ∧ vs[m]? = some v ∧ v ≠ .undefined := by
  have hlt : i < vs.length := (List.getElem?_eq_some_iff.1 hi).1
  obtain ⟨v, hv⟩ : ∃ v, vs[vs.length - 1]? = some v := ⟨_, List.getElem?_eq_getElem (by omega)⟩
  have hne : v ≠ .undefined := by
    rintro rfl
    exact hlast (by rw [List.getLast?_eq_getElem?, hv])
  refine ⟨vs.length - 1, v, Nat.lt_of_le_of_ne (by omega) fun heq => hne ?_, hv, hne⟩
  rw [← heq, hi] at hv
  exact (Option.some.inj hv).symm

section
variable {rest : Signature → Keywords → Except BindingError (List Slot)} {sig : Signature}
  {args : List Value} {kw : Keywords} {laid : List Slot}

theorem Laid.slots_length_of_surplus (h : Laid rest kw sig args laid) (wf : sig.WellFormed)
    (hlayout : sig.hasPositionalLayout = true) (hlt : sig.positions < args.length) :
    (slots sig).length = sig.positions := by
  induction h with
  | rest => cases hlt
  | @surplus p ps _ _ _ hp _ =>
    have hle := positions_le (p :: ps)
    rw [slots_of_surplus wf hlayout hp] at hle ⊢
    exact (Nat.le_zero.1 hle).symm
  | value hp _ _ ih =>
    rw [positions_cons hp] at hlt ⊢
    rw [slots_cons_of_value (takesValue_of_position hp), List.length_cons,
      ih wf.tail (hasPositionalLayout_tail hlayout) (Nat.lt_of_succ_lt_succ hlt)]

theorem default_of_fillKeywords (h : fillKeywords sig kw = .ok laid) {i : Nat} {p : Param}
    (hp : p ∈ sig) (hv : p.kind.takesValue = true) (hskip : p.supplied? args kw i = none) :
    p.default?.isSome := by
  refine (fillKeywords_default h hp hv).resolve_right fun ⟨hkeyword, hc⟩ => ?_
  rw [Table.contains, (Param.supplied?_eq_none_iff.1 hskip).2 hkeyword] at hc
  cases hc

theorem Laid.default_of_slot (h : Laid fillKeywords kw sig args laid) {i : Nat} {p : Param}
    (hi : (slots sig)[i]? = some p) (hskip : p.supplied? args kw i = none) :
    p.default?.isSome := by
  induction h generalizing i with
  | rest h =>
    obtain ⟨hmem, hv⟩ := List.mem_filter.1 (List.mem_of_getElem? hi)
    exact default_of_fillKeywords h hmem hv hskip
  | surplus hp h =>
    rw [slots_cons_of_many (by rw [hp]; rfl)] at hi
    obtain ⟨hmem, hv⟩ := List.mem_filter.1 (List.mem_of_getElem? hi)
    exact default_of_fillKeywords h hmem hv hskip
  | value hp _ _ ih =>
    rw [slots_cons_of_value (takesValue_of_position hp)] at hi
    cases i with
    | zero =>
      cases hi
      cases (Param.supplied?_eq_none_iff.1 hskip).1 hp
    | succ i => exact ih hi hskip

/-- Behind a parameter that the call skips, a value in the layout comes by keyword. -/
theorem Laid.keyword_behind_gap (h : Laid layKeywords kw sig args laid) (wf : sig.WellFormed)
    (hlayout : sig.hasPositionalLayout = true) {i m : Nat} {p : Param} {v : Value}
    (hi : (slots sig)[i]? = some p) (hskip : p.supplied? args kw i = none) (him : i < m)
    (hv : (layout sig args kw)[m]? = some v) (hne : v ≠ .undefined) :
    ∃ q, (slots sig)[m]? = some q ∧ q.kind.takesKeyword = true ∧ kw.get? q.name = some v := by
  have unreached : args.length ≤ i := by
    refine Nat.le_of_not_lt fun hlt => ?_
    have hle := (Param.supplied?_eq_none_iff.1 hskip).1 (h.takesPosition wf hlayout hi hlt)
    omega
  have hlt : i < (slots sig).length := (List.getElem?_eq_some_iff.1 hi).1
  cases hq : (slots sig)[m]? with
  | some q =>
    have given : q.supplied? args kw m = some v := by
      rw [getElem?_layout hq] at hv
      cases hsupplied : q.supplied? args kw m with
      | some w => rwa [hsupplied] at hv
      | none =>
        rw [hsupplied] at hv
        exact absurd (Option.some.inj hv).symm hne
    have no_argument : (if q.kind.takesPosition then args[m]? else none) = none := by
      rw [List.getElem?_eq_none (by omega)]
      split <;> rfl
    rw [Param.supplied?, no_argument, Option.none_or, Param.keyword?] at given
    split at given
    next hkeyword => exact ⟨q, rfl, hkeyword, given⟩
    next => cases given
  | none =>
    -- a surplus argument stands behind parameters that all have positional ones
    have hm : (slots sig).length ≤ m := List.getElem?_eq_none_iff.1 hq
    rw [layout, List.getElem?_append_right (by simpa using hm), List.getElem?_drop] at hv
    have hsurplus : sig.positions < args.length := by
      have hreached := (List.getElem?_eq_some_iff.1 hv).1
      omega
    have hslots := h.slots_length_of_surplus wf hlayout hsurplus
    omega

/-- The place of a parameter that the call skips is filled for the sake of a keyword behind it. -/
theorem keyword_behind_filled {r : List Value} (wf : sig.WellFormed)
    (hlayout : sig.hasPositionalLayout = true) (hr : sig.positionalValues args kw = .ok r)
    (hkw : kw.entries ≠ []) {i : Nat} {p : Param} (hi : (slots sig)[i]? = some p)
    (hskip : p.supplied? args kw i = none) (filled : i < r.length) :
    ∃ m q v, i < m ∧ (slots sig)[m]? = some q ∧ q.kind.takesKeyword = true ∧
      kw.get? q.name = some v ∧ v ≠ .undefined := by
  obtain ⟨laid, h, -⟩ := (positionalValues_iff_laid hkw).1 hr
  obtain ⟨r', n, hr', hvalues, trimmed⟩ := positionalValues_eq_ok wf hlayout h
  obtain rfl := Except.ok.inj (hr.symm.trans hr')
  have hplace : r[i]? = some .undefined := by
    rw [← List.getElem?_append_left filled, ← hvalues, getElem?_layout hi, hskip]
    rfl
  obtain ⟨m, v, him, hvm, hne⟩ := value_behind_undefined hplace (trimmed hkw)
  have hv : (layout sig args kw)[m]? = some v := by
    rw [hvalues, List.getElem?_append_left (List.getElem?_eq_some_iff.1 hvm).1, hvm]
  obtain ⟨q, hq, hkeyword, hget⟩ := h.keyword_behind_gap wf hlayout hi hskip him hv hne
  exact ⟨m, q, v, him, hq, hkeyword, hget, hne⟩

end

end Signature

namespace Guard

variable {g : Guard} {args : List Value} {kw : Keywords}

/-- The first argument of a method has no parameter of its own. -/
def SkipsSurplus (g : Guard) : Prop :=
  g.method = true ∧ ∃ p ps, g.function.signature = p :: ps ∧ p.kind = .surplus

/-- How a call of the function lies along the parameters that the contract speaks of. -/
theorem laid_given {rest : Signature → Keywords → Except BindingError (List Slot)}
    {laid : List Slot} (h : Signature.Laid rest kw g.function.signature args laid) :
    g.given args = [] ∨ (∃ laid', Signature.Laid rest kw g.signature (g.given args) laid') ∨
      g.SkipsSurplus := by
  rw [given, signature, contractSignature]
  cases hm : g.method with
  | false => exact .inr (.inl ⟨laid, h⟩)
  | true =>
    generalize hsig : g.function.signature = sig at h
    cases h with
    | rest h => exact .inl rfl
    | surplus hp h => exact .inr (.inr ⟨hm, _, _, hsig, hp⟩)
    | value hp once h => exact .inr (.inl ⟨_, h⟩)

theorem default_of_bindCall {laid : List Slot}
    (h : g.function.signature.bindCall args kw = .ok laid) {i : Nat} {p : Param}
    (hi : g.signature.slots[i]? = some p) (hskip : p.supplied? (g.given args) kw i = none) :
    p.default?.isSome := by
  have hlaid := Signature.layPositional_eq_ok_iff.1 h
  rw [signature, contractSignature] at hi
  rw [given] at hskip
  cases hm : g.method with
  | false =>
    rw [hm] at hi hskip
    exact hlaid.default_of_slot hi hskip
  | true =>
    rw [hm] at hi hskip
    generalize g.function.signature = sig at hlaid hi
    obtain ⟨hp, hv⟩ := List.mem_filter.1 (List.mem_of_getElem? hi)
    cases hlaid with
    | rest hrest => exact Signature.default_of_fillKeywords hrest (List.mem_of_mem_drop hp) hv hskip
    | surplus _ hrest => exact Signature.default_of_fillKeywords hrest hp hv hskip
    | value _ _ hrest => exact hrest.default_of_slot hi hskip

theorem surplus_of_filled {laid : List Slot}
    (h : g.function.signature.bindCall args kw = .ok laid) (wf : g.signature.WellFormed)
    (hlayout : g.signature.hasPositionalLayout = true) {i : Nat} {p : Param}
    (hi : g.signature.slots[i]? = some p) (hskip : p.supplied? (g.given args) kw i = none)
    (filled : i < (g.given args).length) : g.SkipsSurplus := by
  rcases laid_given (Signature.layPositional_eq_ok_iff.1 h) with hnil | ⟨laid', hlaid⟩ | hsurplus
  · rw [hnil] at filled
    cases filled
  · have hposition := hlaid.takesPosition wf hlayout hi filled
    have hle := (Param.supplied?_eq_none_iff.1 hskip).1 hposition
    omega
  · exact hsurplus

theorem filled_of_validate {spec label : Value} {s : Schema}
    (h : Compiler.compile spec label = .ok s) {entries : List (Value × Value)}
    (hspec : spec.entries? = some entries) {i : Nat} {e : Value × Value}
    (he : entries[i]? = some e) (marked : Specification.Marks e.2)
    {c : Convention} (hc : c ≠ .named) {r : List Value}
    (hvalid : s.validate c (.list r) = .ok ()) : i < r.length := by
  rw [Schema.validate_list_eq hc] at hvalid
  obtain ⟨_, hvalues, -⟩ := bind_eq_ok.1 hvalid
  obtain ⟨_, hrequired, -⟩ := bind_eq_ok.1 hvalues
  obtain ⟨⟨entries', hentries, coherent⟩, -⟩ := Compiler.compile_coherent h
  obtain rfl := Option.some.inj (hspec.symm.trans hentries)
  have hname : e.1 ∈ s.required := (coherent.required e (List.mem_of_getElem? he)).2 marked
  have hat : s.params[i]? = some e.1 := by
    rw [coherent.params, List.getElem?_map, he]
    rfl
  have hcontains := (s.checkRequired_eq_ok_iff _).1 hrequired e.1 hname
  obtain ⟨-, compiled⟩ := Compiler.compiled_of_compile h
  rw [compiled.contains_pair hat] at hcontains
  exact of_decide_eq_true hcontains

/-- A call that skips a required parameter does not reach the body of the function, unless the
parameter has a default and a parameter behind it is given by keyword, with a value other than
`undefined`. For methods whose first parameter takes the surplus arguments nothing is said of calls
without keywords. -/
theorem unreached_of_skipped {f : Function} {o : GuardOptions} {g : Guard} {σ₀ σ₁ : Session}
    (henforce : (enforce f o).run.run σ₀ = (.ok g, σ₁)) (hc : g.convention ≠ .named)
    (wf : f.signature.WellFormed) {entries : List (Value × Value)}
    (hspec : o.spec.entries? = some entries) {i : Nat} {e : Value × Value} {p : Param}
    (he : entries[i]? = some e) (marked : Specification.Marks e.2)
    (hp : g.signature.slots[i]? = some p) {σ : Session} (enabled : g.Enabled σ)
    {args : List Value} {kw : Keywords} (hskip : p.supplied? (g.given args) kw i = none) :
    g.Unreached args kw σ ∨
      p.default?.isSome ∧
        ((∃ m q v, i < m ∧ g.signature.slots[m]? = some q ∧ q.kind.takesKeyword = true ∧
          kw.get? q.name = some v ∧ v ≠ .undefined) ∨
          g.SkipsSurplus ∧ kw.entries = []) := by
  have enforces := enforces_of_enforce henforce
  obtain ⟨label, compiled⟩ := enforces.compiled
  have wf : g.signature.WellFormed := signature_wellFormed (by rwa [enforces.function])
  have hlayout := enforces.hasPositionalLayout hc
  refine (g.unreached_or_letThrough_eq_ok args kw σ).imp_right ?_
  rintro ⟨bound, τ, through⟩
  obtain ⟨⟨τ, τ', hcheck⟩, laid, hbound⟩ := letThrough_eq_ok enabled through
  obtain ⟨r, hr, hvalid⟩ := check_eq_ok hc hcheck
  have filled : i < r.length := filled_of_validate compiled hspec he marked hc hvalid
  refine ⟨default_of_bindCall hbound hp hskip, ?_⟩
  by_cases hkw : kw.entries = []
  · have hargs : r = g.given args := by
      rw [Signature.positionalValues, hkw] at hr
      exact (Except.ok.inj hr).symm
    rw [hargs] at filled
    exact .inr ⟨surplus_of_filled hbound wf hlayout hp hskip filled, hkw⟩
  · exact .inl (Signature.keyword_behind_filled wf hlayout hr hkw hp hskip filled)

def firstRequired : Value := .record [("a", .str "!number"), ("b", .str "number")]

/-- A call that names the second of two parameters, but gives `undefined` for it. -/
theorem unreached_of_skipped_before_undefined : ∃ g σ,
    (enforce twoDefaults (.silent firstRequired false)).run.run .fresh = (.ok g, σ) ∧
    g.Unreached [] ⟨[("b", .undefined)]⟩ σ := by
  have wf : twoDefaults.signature.WellFormed := ⟨by decide, by decide⟩
  have marked : Specification.Marks (.str "!number") :=
    ⟨"!number", .number, rfl, Specification.readTag?_eq_some_iff.1 rfl⟩
  obtain ⟨g, σ, henforce, hc, enabled, hmethod, p, hp, hskip⟩ : ∃ g σ,
      (enforce twoDefaults (.silent firstRequired false)).run.run .fresh = (.ok g, σ) ∧
      g.convention ≠ .named ∧ g.Enabled σ ∧ g.method = false ∧
      ∃ p, g.signature.slots[0]? = some p ∧
        p.supplied? (g.given []) ⟨[("b", .undefined)]⟩ 0 = none :=
    ⟨_, _, rfl, nofun, enabled_of_settings rfl rfl _, rfl, _, rfl, rfl⟩
  refine ⟨g, σ, henforce, ?_⟩
  rcases unreached_of_skipped henforce hc wf rfl rfl marked hp enabled hskip with
    unreached | ⟨-, ⟨m, q, v, -, -, -, hv, hne⟩ | ⟨⟨hmethod', -⟩, -⟩⟩
  · exact unreached
  · rw [Table.get?, List.lookup_cons] at hv
    split at hv <;> cases hv
    exact absurd rfl hne
  · rw [hmethod] at hmethod'
    cases hmethod'

/-- A call without a value for a required parameter that runs the body, with the default. -/
theorem skipped_required_runs : ∃ g σ,
    (enforce twoDefaults (.silent firstRequired false)).run.run .fresh = (.ok g, σ) ∧
    g.convention = .positional ∧ g.Enabled σ ∧ g.validator.schema.required = [.str "a"] ∧
    (∃ p, g.signature.slots[0]? = some p ∧ p.name = "a" ∧
      p.supplied? (g.given []) ⟨[("b", .int 3)]⟩ 0 = none) ∧
    g.Reaches [] ⟨[("b", .int 3)]⟩ σ [("a", .int 1), ("b", .int 3)] ∧
    ¬ g.Unreached [] ⟨[("b", .int 3)]⟩ σ := by
  obtain ⟨g, σ, henforce, hc, enabled, hrequired, hskip, reaches⟩ : ∃ g σ,
      (enforce twoDefaults (.silent firstRequired false)).run.run .fresh = (.ok g, σ) ∧
      g.convention = .positional ∧ g.Enabled σ ∧ g.validator.schema.required = [.str "a"] ∧
      (∃ p, g.signature.slots[0]? = some p ∧ p.name = "a" ∧
        p.supplied? (g.given []) ⟨[("b", .int 3)]⟩ 0 = none) ∧
      g.Reaches [] ⟨[("b", .int 3)]⟩ σ [("a", .int 1), ("b", .int 3)] :=
    ⟨_, _, rfl, rfl, enabled_of_settings rfl rfl _, rfl, ⟨_, rfl, rfl, rfl⟩, _, fun _ _ => rfl⟩
  exact ⟨g, σ, henforce, hc, enabled, hrequired, hskip, reaches, reaches.not_unreached⟩

end Guard

end CallContract
