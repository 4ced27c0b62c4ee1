import CallContract.Proofs.RequiredParameters

/-!
# Method calls

Behind the first argument of a method the guard lays out the others along a signature without its
first parameter. What it should come to is in the arrangement of the whole call along the whole
signature (`Signature.BehindFirst`). It does, for a call that the function takes, unless the call has
keywords and either the first parameter takes all positional arguments, so that the ones behind the
first argument lose their parameter, or a keyword for the extra ones has the name of a
positional-only parameter (`Guard.method_call_laid_iff`).
-/

namespace CallContract

namespace Signature

/-- The arguments of a call in signature order, `undefined` for a parameter that it has none for. -/
def arrangement (kw : Keywords) : Signature → List Value → List Value
  | [], _ => []
  | p :: ps, args =>
    match p.kind with
    | .positionalOnly | .ordinary =>
      args.headD ((p.keyword? kw).getD .undefined) :: arrangement kw ps args.tail
    | .surplus => args ++ arrangement kw ps []
    | .keywordOnly => (p.keyword? kw).getD .undefined :: arrangement kw ps args
    | .extraKeywords => arrangement kw ps args

section
variable {p : Param} {ps sig : Signature} {args : List Value} {kw : Keywords} {laid : List Slot}

theorem arrangement_cons (hp : p.kind.takesPosition = true) (v : Value) (vs : List Value) :
    arrangement kw (p :: ps) (v :: vs) = v :: arrangement kw ps vs := by
  rw [arrangement]
  cases hk : p.kind with
  | positionalOnly | ordinary => rfl
  | surplus | keywordOnly | extraKeywords => rw [hk] at hp; cases hp

theorem arrangement_cons_of_surplus (hp : p.kind = .surplus) (args : List Value) :
    arrangement kw (p :: ps) args = args ++ arrangement kw ps [] := by
  rw [arrangement, hp]

theorem arrangement_nil (sig : Signature) (kw : Keywords) :
    arrangement kw sig [] = (slots sig).map fun p => (p.keyword? kw).getD .undefined := by
  induction sig with
  | nil => rfl
  | cons p ps ih =>
    rw [arrangement]
    cases hk : p.kind with
    | positionalOnly | ordinary | keywordOnly =>
      rw [slots_cons_of_value (by rw [hk]; rfl), List.map_cons]
      exact congrArg (List.cons _) ih
    | surplus | extraKeywords =>
      rw [slots_cons_of_many (by rw [hk]; rfl)]
      exact ih

/-- The slots of a partial binding hold the arguments in signature order. -/
theorem values_eq_arrangement (h : Laid layKeywords kw sig args laid) (wf : sig.WellFormed) :
    laid.flatMap Slot.values = arrangement kw sig args := by
  induction h with
  | rest h => rw [arrangement_nil, layKeywords_values wf h]
  | surplus hp h =>
    rw [arrangement_cons_of_surplus hp, arrangement_nil, List.flatMap_cons,
      layKeywords_values wf.tail h]
    rfl
  | value hp _ _ ih =>
    rw [arrangement_cons hp, List.flatMap_cons, ih wf.tail]
    rfl

theorem not_positionalOnly_behind_surplus (wf : WellFormed (p :: ps)) (hp : p.kind = .surplus) :
    ∀ q ∈ ps, q.kind.takesPosition = false := by
  intro q hq
  rcases wf.behind_surplus hp hq with hk | hk <;> rw [hk] <;> rfl

/-- The partial binding takes a call of the function unless a keyword names a positional-only
parameter behind the positional arguments. -/
theorem Laid.layKeywords_iff (h : Laid fillKeywords kw sig args laid) (wf : sig.WellFormed) :
    (∃ laid', Laid layKeywords kw sig args laid') ↔
      ∀ p ∈ sig.drop args.length, p.kind = .positionalOnly → kw.contains p.name = false := by
  induction h with
  | rest h =>
    rw [List.length_nil, List.drop_zero, ← layKeywords_iff_of_fillKeywords wf h]
    constructor
    · rintro ⟨_, ⟨h⟩⟩
      exact ⟨_, h⟩
    · rintro ⟨_, h⟩
      exact ⟨_, .rest h⟩
  | @surplus p ps _ _ _ hp h =>
    have behind : ∀ q ∈ ps, q.kind = .positionalOnly → kw.contains q.name = false := by
      intro q hq hk
      have hposition := not_positionalOnly_behind_surplus wf hp q hq
      rw [hk] at hposition
      cases hposition
    obtain ⟨tail, htail⟩ := (layKeywords_iff_of_fillKeywords wf.tail h).2 behind
    exact iff_of_true ⟨_, .surplus hp htail⟩ fun q hq => behind q (List.mem_of_mem_drop hq)
  | value hp once _ ih =>
    rw [List.length_cons, List.drop_succ_cons, ← ih wf.tail]
    constructor
    · rintro ⟨_, h⟩
      cases h with
      | surplus hs _ => rw [hs] at hp; cases hp
      | value _ _ h => exact ⟨_, h⟩
    · rintro ⟨_, h⟩
      exact ⟨_, .value hp once h⟩

/-- `r` has the arguments behind the first one in signature order. -/
structure BehindFirst (sig : Signature) (first : Value) (args : List Value) (kw : Keywords)
    (r : List Value) : Prop where
  order : ∃ n, (arrangement kw sig (first :: args)).drop 1 = r ++ List.replicate n .undefined
  plain : kw.entries = [] → r = args
  trimmed : kw.entries ≠ [] → r.getLast? ≠ some .undefined

variable {first : Value}

theorem behindFirst_of_no_keywords (h : Laid fillKeywords kw sig (first :: args) laid)
    (wf : sig.WellFormed) (hkw : kw.entries = []) : BehindFirst sig first args kw args := by
  obtain ⟨laid', h'⟩ := (h.layKeywords_iff wf).2 fun p _ _ => by
    rw [Table.contains, Table.get?, hkw]
    rfl
  obtain ⟨n, hn⟩ := values_of_no_keywords h' wf hkw
  refine ⟨⟨n, ?_⟩, fun _ => rfl, fun hne => absurd hkw hne⟩
  rw [← values_eq_arrangement h' wf, hn]
  rfl

/-- Behind the first parameter lie the arguments behind the first one, but for surplus ones. -/
theorem drop_arrangement {rest : Signature → Keywords → Except BindingError (List Slot)}
    (h : Laid rest kw (p :: ps) (first :: args) laid) (kept : ¬ (p.kind = .surplus ∧ args ≠ [])) :
    (arrangement kw (p :: ps) (first :: args)).drop 1 = arrangement kw ps args := by
  cases h with
  | surplus hp _ =>
    obtain rfl : args = [] := by simpa [hp] using kept
    rw [arrangement_cons_of_surplus hp]
    rfl
  | value hp _ _ =>
    rw [arrangement_cons hp]
    rfl

theorem laid_tail_iff (h : Laid fillKeywords kw (p :: ps) (first :: args) laid)
    (wf : WellFormed (p :: ps)) :
    (∃ laid', Laid layKeywords kw ps args laid') ↔
      ¬ (p.kind = .surplus ∧ args ≠ []) ∧
        ∀ q ∈ ps.drop args.length, q.kind = .positionalOnly → kw.contains q.name = false := by
  cases h with
  | value hp _ h =>
    rw [h.layKeywords_iff wf.tail]
    refine (and_iff_right fun ⟨hs, _⟩ => ?_).symm
    rw [hs] at hp
    cases hp
  | surplus hp h =>
    cases args with
    | nil =>
      have h : Laid fillKeywords kw ps [] _ := .rest h
      rw [h.layKeywords_iff wf.tail]
      exact (and_iff_right fun ⟨_, hne⟩ => hne rfl).symm
    | cons v vs =>
      -- no parameter is left that a positional argument could go to
      refine iff_of_false ?_ fun ⟨hno, _⟩ => hno ⟨hp, nofun⟩
      rintro ⟨_, h⟩
      cases h with
      | surplus hq _ =>
        rcases wf.behind_surplus hp List.mem_cons_self with hk | hk <;> rw [hk] at hq <;> cases hq
      | value hq _ _ =>
        rw [not_positionalOnly_behind_surplus wf hp _ List.mem_cons_self] at hq
        cases hq

theorem behindFirst_iff (h : Laid fillKeywords kw (p :: ps) (first :: args) laid)
    (wf : WellFormed (p :: ps)) :
    (∃ r, ps.positionalValues args kw = .ok r ∧ BehindFirst (p :: ps) first args kw r) ↔
      kw.entries = [] ∨ (¬ (p.kind = .surplus ∧ args ≠ []) ∧
        ∀ q ∈ ps.drop args.length, q.kind = .positionalOnly → kw.contains q.name = false) := by
  by_cases hkw : kw.entries = []
  · refine iff_of_true ⟨args, ?_, behindFirst_of_no_keywords h wf hkw⟩ (.inl hkw)
    rw [positionalValues, hkw]
    rfl
  · rw [or_iff_right hkw, ← laid_tail_iff h wf]
    constructor
    · rintro ⟨r, hr, -⟩
      obtain ⟨laid', h', -⟩ := (positionalValues_iff_laid hkw).1 hr
      exact ⟨laid', h'⟩
    · rintro ⟨laid', h'⟩
      refine ⟨_, (positionalValues_iff_laid hkw).2 ⟨laid', h', rfl⟩, ?_, fun he => absurd he hkw,
        fun _ => getLast?_trimUndefined _⟩
      rw [drop_arrangement h ((laid_tail_iff h wf).1 ⟨laid', h'⟩).1,
        ← values_eq_arrangement h' wf.tail]
      exact eq_trimUndefined_append _

end

end Signature

namespace Guard

/-- For a call that the method takes, what is checked are the arguments behind the first one in
signature order exactly if the call has no keywords, or no positional argument was for a parameter
that the guard leaves out and no keyword has the name of a positional-only parameter behind the
positional arguments. -/
theorem method_call_laid_iff {f : Function} {o : GuardOptions} {g : Guard} {σ₀ σ₁ : Session}
    (henforce : (enforce f o).run.run σ₀ = (.ok g, σ₁)) (hmethod : o.method = true)
    (hc : g.convention ≠ .named) (wf : f.signature.WellFormed) {first : Value} {args : List Value}
    {kw : Keywords} {laid : List Slot} (hbound : f.signature.bindCall (first :: args) kw = .ok laid) :
    (∃ r, g.signature.positionalValues (g.given (first :: args)) kw = .ok r ∧
        f.signature.BehindFirst first args kw r ∧
        g.check (first :: args) kw = g.validator.run g.convention (.list r)) ↔
      kw.entries = [] ∨ (¬ (g.SkipsSurplus ∧ args ≠ []) ∧
        ∀ p ∈ g.signature.drop args.length,
          p.kind = .positionalOnly → kw.contains p.name = false) := by
  have enforces := enforces_of_enforce henforce
  have hm : g.method = true := by rw [enforces.method, hmethod]
  have h := Signature.layPositional_eq_ok_iff.1 hbound
  obtain ⟨p, ps, hsig⟩ : ∃ p ps, f.signature = p :: ps := by
    generalize f.signature = sig at h
    cases h <;> exact ⟨_, _, rfl⟩
  rw [hsig] at h wf
  have hgiven : g.given (first :: args) = args := by rw [given, if_pos hm]; rfl
  have hps : g.signature = ps := by
    rw [signature, contractSignature, if_pos hm, enforces.function, hsig]
    rfl
  have hskips : g.SkipsSurplus ↔ p.kind = .surplus := by
    rw [SkipsSurplus, enforces.function, hsig]
    constructor
    · rintro ⟨-, _, _, ⟨⟩, hp⟩
      exact hp
    · exact fun hp => ⟨hm, p, ps, rfl, hp⟩
  rw [hskips, hps, hsig, ← Signature.behindFirst_iff h wf, hgiven]
  refine exists_congr fun r => and_congr_right fun hr => and_iff_left ?_
  exact check_of_positionalValues hc (by rw [hps, hgiven, hr])

def methodOfTwo : Function :=
  ⟨"f", [⟨.ordinary, "self", none⟩, ⟨.ordinary, "a", some (.int 1)⟩,
    ⟨.ordinary, "b", some (.int 2)⟩]⟩

def anyTwo : Value := .record [("a", .str "any"), ("b", .str "any")]

/-- A method that is called with its first argument and a keyword for its last parameter. -/
theorem method_call_laid_of_gap : ∃ g σ,
    (enforce methodOfTwo (.silent anyTwo true)).run.run .fresh = (.ok g, σ) ∧
    methodOfTwo.signature.BehindFirst (.int 0) [] ⟨[("b", .int 3)]⟩ [.undefined, .int 3] ∧
    g.check [.int 0] ⟨[("b", .int 3)]⟩ =
      g.validator.run g.convention (.list [.undefined, .int 3]) := by
  obtain ⟨g, σ, henforce, hc, hsig, hgiven⟩ : ∃ g σ,
      (enforce methodOfTwo (.silent anyTwo true)).run.run .fresh = (.ok g, σ) ∧
      g.convention ≠ .named ∧ g.signature = methodOfTwo.signature.drop 1 ∧
      g.given [.int 0] = [] := ⟨_, _, rfl, nofun, rfl, rfl⟩
  obtain ⟨laid, hbound⟩ :
      ∃ laid, methodOfTwo.signature.bindCall [.int 0] ⟨[("b", .int 3)]⟩ = .ok laid := ⟨_, rfl⟩
  obtain ⟨r, hr, behind, hcheck⟩ :=
    (method_call_laid_iff henforce rfl hc ⟨by decide, by decide⟩ hbound).2
      (.inr ⟨fun h => h.2 rfl, by rw [hsig]; decide⟩)
  rw [hsig, hgiven] at hr
  obtain rfl := Except.ok.inj hr
  exact ⟨g, σ, henforce, behind, hcheck⟩

/-- Two calls that the function takes and the guard does not: surplus arguments of a method without
a parameter for the first one, with a keyword, and an extra keyword with the name of a
positional-only parameter. -/
theorem method_call_refused :
    (∃ g σ, (enforce ⟨"f", [⟨.surplus, "args", none⟩, ⟨.extraKeywords, "kw", none⟩]⟩
        (.silent anyTwo true)).run.run .fresh = (.ok g, σ) ∧
      g.convention = .positional ∧ g.function.signature.WellFormed ∧
      (∃ laid, g.function.signature.bindCall [.int 1, .int 2] ⟨[("b", .int 3)]⟩ = .ok laid) ∧
      ((g.call pure [.int 1, .int 2] ⟨[("b", .int 3)]⟩).run.run σ).1 =
        .error (.binding .tooManyPositional)) ∧
    ∃ g σ, (enforce ⟨"f", [⟨.positionalOnly, "self", none⟩, ⟨.positionalOnly, "a", some (.int 0)⟩,
        ⟨.extraKeywords, "kw", none⟩]⟩ (.silent anyTwo true)).run.run .fresh = (.ok g, σ) ∧
      g.convention = .positional ∧ g.function.signature.WellFormed ∧
      (∃ laid, g.function.signature.bindCall [.int 1] ⟨[("a", .int 2)]⟩ = .ok laid) ∧
      ((g.call pure [.int 1] ⟨[("a", .int 2)]⟩).run.run σ).1 =
        .error (.binding (.positionalOnly "a")) :=
  ⟨⟨_, _, rfl, rfl, ⟨by decide, by decide⟩, ⟨_, rfl⟩, rfl⟩,
    ⟨_, _, rfl, rfl, ⟨by decide, by decide⟩, ⟨_, rfl⟩, rfl⟩⟩

end Guard

end CallContract
