import CallContract.Proofs.GuardedCalls
import CallContract.Proofs.TrailingUndefined

/-!
# Calls by keyword

A call that gives some of its values by keyword is checked as the call that gives all of them by
position, apart from `undefined` behind the last other value: that is dropped on the way of keywords
only (`Signature.positionalValues_of_keywords`). Whether it counts decides whether the two calls are
validated alike (`Guard.keywords_agree_iff`).
-/

namespace CallContract

theorem Table.apart_of_nodup {keys : List String} (h : keys.Nodup) : Table.Apart keys :=
  h.imp fun hne => beq_false_of_ne hne

namespace Signature

theorem trimUndefined_append_replicate (vs : List Value) (n : Nat) :
    trimUndefined (vs ++ List.replicate n .undefined) = trimUndefined vs := by
  induction n with
  | zero => rw [List.replicate_zero, List.append_nil]
  | succ n ih =>
    rw [List.replicate_succ', ← List.append_assoc, ← ih]
    exact List.rdropWhile_concat_pos _ _ _ rfl

/-- The keywords give the values from place `j` on to the parameters in their places. -/
def SpelledFrom (sig : Signature) (vs : List Value) (j : Nat) (kw : Keywords) : Prop :=
  kw.entries.Perm (((sig.map (·.name)).zip vs).drop j)

section
variable {sig : Signature} {vs : List Value} {j : Nat} {kw : Keywords}
  (named : (sig.map (·.name)).Nodup) (hkw : sig.SpelledFrom vs j kw)
include named hkw

theorem keys_apart : Table.Apart kw.keys := by
  have names : ((((sig.map (·.name)).zip vs).drop j).map Prod.fst).Sublist (sig.map (·.name)) := by
    rw [List.map_drop, List.zip_eq_zip_take_min, List.map_fst_zip (by simp)]
    exact (List.drop_sublist _ _).trans (List.take_sublist _ _)
  exact Table.apart_of_nodup ((hkw.map Prod.fst).nodup_iff.2 (named.sublist names))

omit named in
/-- Every keyword is one for a parameter from place `j` on, with the value in its place. -/
theorem place_of_keyword {e : String × Value} (he : e ∈ kw.entries) :
    ∃ (i : Nat) (p : Param), j ≤ i ∧ sig[i]? = some p ∧ p.name = e.1 ∧ vs[i]? = some e.2 := by
  obtain ⟨m, hm⟩ := List.mem_iff_getElem?.1 (hkw.mem_iff.1 he)
  rw [List.getElem?_drop] at hm
  obtain ⟨hname, hvalue⟩ := List.getElem?_zip_eq_some.1 hm
  rw [List.getElem?_map] at hname
  obtain ⟨p, hp, hpe⟩ := Option.map_eq_some_iff.1 hname
  exact ⟨j + m, p, Nat.le_add_right j m, hp, hpe, hvalue⟩

theorem get?_spelled {i : Nat} {p : Param} (hp : sig[i]? = some p) :
    kw.get? p.name = if j ≤ i then vs[i]? else none := by
  have hname : (sig.map (·.name))[i]? = some p.name := by rw [List.getElem?_map, hp]; rfl
  cases hget : kw.get? p.name with
  | some v =>
    obtain ⟨e, he, hbeq, rfl⟩ := Table.mem_of_get? hget
    obtain ⟨i', q, hle, hq, hqe, hv⟩ := place_of_keyword hkw he
    have hname' : (sig.map (·.name))[i']? = some q.name := by rw [List.getElem?_map, hq]; rfl
    obtain rfl := (Table.apart_of_nodup named).index_unique hname hname' (by rw [hqe]; exact hbeq)
    rw [if_pos hle, hv]
  | none =>
    split
    next hle =>
      cases hv : vs[i]? with
      | none => rfl
      | some v =>
        -- the value would have been found
        have hmem : (p.name, v) ∈ kw.entries := by
          refine hkw.mem_iff.2 (List.mem_iff_getElem?.2 ⟨i - j, ?_⟩)
          rw [List.getElem?_drop, Nat.add_sub_cancel' hle]
          exact List.getElem?_zip_eq_some.2 ⟨hname, hv⟩
        rw [Table.get?_of_mem (keys_apart named hkw) hmem (beq_self_eq_true p.name)] at hget
        cases hget
    next => rfl

end

section
variable {sig : Signature} (ordinary : ∀ p ∈ sig, p.kind = .ordinary)
include ordinary

theorem wellFormed_of_ordinary (named : (sig.map (·.name)).Nodup) : sig.WellFormed where
  ordered := List.pairwise_of_forall_mem_list fun p hp q hq =>
    .inr ⟨by rw [ordinary p hp, ordinary q hq], by rw [ordinary p hp]; rfl⟩
  named := named

theorem slots_of_ordinary : slots sig = sig :=
  List.filter_eq_self.2 fun p hp => by rw [ordinary p hp]; rfl

theorem positions_of_ordinary : sig.positions = sig.length :=
  List.countP_eq_length.2 fun p hp => by rw [ordinary p hp]; rfl

theorem hasPositionalLayout_of_ordinary : sig.hasPositionalLayout = true := by
  have no_surplus : sig.any (·.kind = .surplus) = false := by
    refine List.any_eq_false.2 fun p hp => ?_
    rw [ordinary p hp]
    decide
  rw [hasPositionalLayout, no_surplus]
  rfl

theorem layKeywords_of_ordinary {kw : Keywords} (hkeys : ∀ k ∈ kw.keys, ∃ p ∈ sig, p.name = k) :
    ∃ laid, layKeywords sig kw = .ok laid := by
  induction sig generalizing kw with
  | nil =>
    have hnil : kw.keys = [] := List.eq_nil_iff_forall_not_mem.2 fun k hk => by
      obtain ⟨p, hp, -⟩ := hkeys k hk
      cases hp
    exact ⟨[], by rw [layKeywords, refuseLeftover, hnil]⟩
  | cons p ps ih =>
    obtain ⟨hp, hps⟩ := List.forall_mem_cons.1 ordinary
    have left : ∀ k ∈ (kw.erase p.name).keys, ∃ q ∈ ps, q.name = k := by
      intro k hk
      obtain ⟨e, he, rfl⟩ := List.mem_map.1 hk
      obtain ⟨hmem, hne⟩ := List.mem_filter.1 he
      obtain ⟨q, hq, hqe⟩ := hkeys e.1 (List.mem_map_of_mem hmem)
      rcases List.mem_cons.1 hq with rfl | hq
      · rw [hqe] at hne
        simp at hne
      · exact ⟨q, hq, hqe⟩
    obtain ⟨tail, htail⟩ := ih hps left
    exact ⟨_, by rw [layKeywords, hp, htail]; rfl⟩

theorem bindPartial_of_ordinary {args : List Value} {kw : Keywords}
    (hlen : args.length ≤ sig.length) (hfree : ∀ p ∈ sig.take args.length, kw.contains p.name = false)
    (hkeys : ∀ k ∈ kw.keys, ∃ p ∈ sig.drop args.length, p.name = k) :
    ∃ laid, sig.bindPartial args kw = .ok laid := by
  simp only [bindPartial, layPositional_eq_ok_iff]
  induction args generalizing sig with
  | nil =>
    obtain ⟨laid, hlaid⟩ := layKeywords_of_ordinary ordinary hkeys
    exact ⟨laid, .rest hlaid⟩
  | cons v vs ih =>
    cases sig with
    | nil => cases hlen
    | cons p ps =>
      obtain ⟨hp, hps⟩ := List.forall_mem_cons.1 ordinary
      obtain ⟨hfirst, hfree⟩ := List.forall_mem_cons.1 hfree
      obtain ⟨tail, htail⟩ := ih hps (Nat.le_of_succ_le_succ hlen) hfree hkeys
      exact ⟨_, .value (by rw [hp]; rfl) (fun _ => hfirst) htail⟩

variable {vs : List Value} {j : Nat} {kw : Keywords} (named : (sig.map (·.name)).Nodup)
  (hkw : sig.SpelledFrom vs j kw)
include named hkw

/-- The positional layout has the values in their places and `undefined` behind them. -/
theorem layout_of_keywords (hlen : vs.length ≤ sig.length) :
    layout sig (vs.take j) kw =
      vs ++ List.replicate (sig.length - vs.length) .undefined := by
  have no_surplus : (vs.take j).drop sig.positions = [] := by
    rw [positions_of_ordinary ordinary]
    refine List.drop_eq_nil_of_le ?_
    rw [List.length_take]
    omega
  rw [layout, slots_of_ordinary ordinary, no_surplus, List.append_nil]
  refine List.ext_getElem? fun i => ?_
  rw [List.getElem?_mapIdx, List.getElem?_append, List.getElem?_replicate]
  cases hp : sig[i]? with
  | none =>
    have hle := List.getElem?_eq_none_iff.1 hp
    rw [if_neg (by omega), if_neg (by omega)]
    rfl
  | some p =>
    have hlt := (List.getElem?_eq_some_iff.1 hp).1
    have hkind := ordinary p (List.mem_of_getElem? hp)
    have given : p.supplied? (vs.take j) kw i = vs[i]? := by
      have supplied : p.supplied? (vs.take j) kw i = (vs.take j)[i]?.or (kw.get? p.name) := by
        rw [Param.supplied?, Param.keyword?, hkind]
        rfl
      rw [supplied, get?_spelled named hkw hp, List.getElem?_take]
      by_cases hij : i < j
      · rw [if_pos hij, if_neg (Nat.not_le.2 hij), Option.or_none]
      · rw [if_neg hij, if_pos (Nat.not_lt.1 hij), Option.none_or]
    rw [Option.map_some, given]
    split
    next hi => rw [List.getElem?_eq_getElem hi]; rfl
    next hi => rw [List.getElem?_eq_none (by omega), if_pos (by omega)]; rfl

/-- What is checked of a call with keywords are its values without `undefined` behind them. -/
theorem positionalValues_of_keywords (hlen : vs.length ≤ sig.length) (hj : j < vs.length) :
    sig.positionalValues (vs.take j) kw = .ok (trimUndefined vs) := by
  have hkeywords : kw.entries ≠ [] := by
    refine List.ne_nil_of_length_pos ?_
    rw [hkw.length_eq]
    simp
    omega
  have hfree : ∀ p ∈ sig.take (vs.take j).length, kw.contains p.name = false := by
    intro p hp
    obtain ⟨i, hi⟩ := List.mem_iff_getElem?.1 hp
    rw [List.getElem?_take] at hi
    split at hi
    next hlt =>
      rw [List.length_take] at hlt
      rw [Table.contains, get?_spelled named hkw hi, if_neg (by omega)]
      rfl
    next => cases hi
  have hkeys : ∀ k ∈ kw.keys, ∃ p ∈ sig.drop (vs.take j).length, p.name = k := by
    intro k hk
    obtain ⟨e, he, rfl⟩ := List.mem_map.1 hk
    obtain ⟨i, p, hle, hp, hpe, -⟩ := place_of_keyword hkw he
    refine ⟨p, List.mem_iff_getElem?.2 ⟨i - (vs.take j).length, ?_⟩, hpe⟩
    rw [List.getElem?_drop, Nat.add_sub_cancel' (by rw [List.length_take]; omega), hp]
  have hargs : (vs.take j).length ≤ sig.length := by rw [List.length_take]; omega
  obtain ⟨laid, hbound⟩ := bindPartial_of_ordinary ordinary hargs hfree hkeys
  have hvalues := values_eq_layout (layPositional_eq_ok_iff.1 hbound)
    (wellFormed_of_ordinary ordinary named) (hasPositionalLayout_of_ordinary ordinary)
  rw [positionalValues, if_neg (by simpa using hkeywords), hbound]
  show Except.ok (trimUndefined (laid.flatMap Slot.values)) = _
  rw [hvalues, layout_of_keywords ordinary named hkw hlen, trimUndefined_append_replicate]

end

theorem padded_trimUndefined (vs : List Value) :
    Schema.padded (trimUndefined vs)
      (vs.length - (trimUndefined vs).length) = vs := by
  obtain ⟨n, hn⟩ := eq_trimUndefined_append vs
  have hlen := congrArg List.length hn
  rw [List.length_append, List.length_replicate] at hlen
  rw [Schema.padded, hlen, Nat.add_sub_cancel_left]
  exact hn.symm

end Signature

theorem Schema.validate_ne_binding {s : Schema} {c : Convention} {vs : List Value} {e : BindingError} :
    s.validate c (.list vs) ≠ .error (.binding e) := by
  intro h
  obtain ⟨⟨offence, shown⟩, -, ⟨-, ho⟩ | ⟨-, text, ht⟩⟩ := (s.reports_validate c rfl).error h
  · cases offence with
    | untestable => cases ho
    | untyped => obtain ⟨_, ho⟩ := ho; cases ho
    | malformed => obtain ⟨_, _, _, ho⟩ := ho; cases ho
    | violation => obtain ⟨_, ho⟩ := ho; cases ho
  · cases ht

namespace Guard

def outcome (g : Guard) (args : List Value) (kw : Keywords) (σ : Session) : Except Failure Unit :=
  ((g.check args kw).run.run σ).1

variable {g : Guard} (hc : g.convention ≠ .named)
include hc

theorem outcome_of_positionalValues {args : List Value} {kw : Keywords} {r : List Value}
    (hr : g.signature.positionalValues (g.given args) kw = .ok r) (σ : Session) :
    g.outcome args kw σ = g.validator.schema.validate g.convention (.list r) := by
  rw [outcome, check_of_positionalValues hc hr]
  exact Validator.outcome_eq g.validator g.convention (.list r) σ

theorem outcome_of_binding {args : List Value} {kw : Keywords} {e : BindingError}
    (he : g.signature.positionalValues (g.given args) kw = .error e) (σ : Session) :
    g.outcome args kw σ = .error (.binding e) := by
  rw [outcome, check_of_binding hc he]
  rfl

omit hc

section
variable (ordinary : ∀ p ∈ g.function.signature, p.kind = .ordinary)
  (named : (g.function.signature.map (·.name)).Nodup) {vs : List Value}
  (hlen : vs.length ≤ g.function.signature.length) {j : Nat} (hj : j < vs.length) {kw : Keywords}
  (hkw : g.function.signature.SpelledFrom vs j kw)
include ordinary named hlen hj hkw

/-- The keywords leave out the first argument of a method too. -/
theorem positionalValues_of_keywords (hfirst : ¬ (g.method = true ∧ j = 0)) :
    g.signature.positionalValues (g.given (vs.take j)) kw =
      .ok (Signature.trimUndefined (g.given vs)) := by
  rw [signature, contractSignature, given, given]
  generalize g.function.signature = sig at ordinary named hlen hkw
  cases hm : g.method with
  | false => exact Signature.positionalValues_of_keywords ordinary named hkw hlen hj
  | true =>
    obtain ⟨i, rfl⟩ : ∃ i, j = i + 1 := Nat.exists_eq_succ_of_ne_zero fun h => hfirst ⟨hm, h⟩
    cases vs with
    | nil => cases hj
    | cons v vs =>
      cases sig with
      | nil => cases hlen
      | cons p ps =>
        exact Signature.positionalValues_of_keywords (List.forall_mem_cons.1 ordinary).2
          (List.nodup_cons.1 named).2 hkw (Nat.le_of_succ_le_succ hlen) (Nat.lt_of_succ_lt_succ hj)

/-- No parameter of the contract takes a keyword for the first parameter of a method. -/
theorem binding_of_first (hm : g.method = true) (hfirst : j = 0) :
    ∃ e, g.signature.positionalValues (g.given (vs.take j)) kw = .error e := by
  subst hfirst
  rw [signature, contractSignature, given, hm]
  generalize g.function.signature = sig at ordinary named hlen hkw
  cases vs with
  | nil => cases hj
  | cons v vs =>
    cases sig with
    | nil => cases hlen
    | cons p ps =>
      have hget : kw.get? p.name = some v := Signature.get?_spelled named hkw (i := 0) rfl
      have hkeywords : ¬ kw.entries.isEmpty = true := by
        obtain ⟨e, he, -⟩ := Table.mem_of_get? hget
        simpa using List.ne_nil_of_mem he
      cases hbound : Signature.bindPartial ps [] kw with
      | ok laid =>
        have hlaid : Signature.layKeywords ps kw = .ok laid := by
          cases ps <;> exact hbound
        rcases Signature.layKeywords_taken hlaid hget with ⟨q, hq, -, hqe⟩ | ⟨⟨q, hq, hk⟩, -⟩
        · exact absurd (List.mem_map.2 ⟨q, hq, hqe⟩) (List.nodup_cons.1 named).1
        · rw [ordinary q (List.mem_cons_of_mem _ hq)] at hk
          cases hk
      | error e =>
        refine ⟨e, ?_⟩
        show Signature.positionalValues ps [] kw = _
        rw [Signature.positionalValues, if_neg hkeywords, hbound]
        rfl

end

/-- A call that gives its values from place `j` on by keyword is validated as the call that gives
all of them by position, exactly if none is given by keyword or `undefined` behind the last other
value does not count and the first argument of a method is given by position. -/
theorem keywords_agree_iff {f : Function} {o : GuardOptions} {σ₀ σ₁ : Session}
    (henforce : (enforce f o).run.run σ₀ = (.ok g, σ₁)) (hc : g.convention ≠ .named)
    (ordinary : ∀ p ∈ f.signature, p.kind = .ordinary) (named : (f.signature.map (·.name)).Nodup)
    {vs : List Value} (hlen : vs.length ≤ f.signature.length) {j : Nat} (hj : j ≤ vs.length)
    {kw : Keywords} (hkw : f.signature.SpelledFrom vs j kw) (σ τ : Session) :
    g.outcome (vs.take j) kw σ = g.outcome vs .empty τ ↔
      j = vs.length ∨ ¬ (g.method = true ∧ j = 0) ∧
        ¬ g.validator.schema.CountsPadding g.convention (Signature.trimUndefined (g.given vs))
          ((g.given vs).length - (Signature.trimUndefined (g.given vs)).length) := by
  have enforces := enforces_of_enforce henforce
  obtain ⟨label, hcompile⟩ := enforces.compiled
  obtain ⟨hlabel, compiled⟩ := Compiler.compiled_of_compile hcompile
  have hpositional : g.outcome vs .empty τ =
      g.validator.schema.validate g.convention (.list (g.given vs)) :=
    outcome_of_positionalValues hc rfl τ
  rw [← enforces.function] at ordinary named hlen hkw
  rw [hpositional]
  rcases Nat.lt_or_eq_of_le hj with hlt | rfl
  · have hne : j ≠ vs.length := Nat.ne_of_lt hlt
    by_cases hfirst : g.method = true ∧ j = 0
    · -- the keyword for the first parameter stays and is refused
      obtain ⟨e, he⟩ := binding_of_first ordinary named hlen hlt hkw hfirst.1 hfirst.2
      rw [outcome_of_binding hc he σ]
      refine ⟨fun heq => absurd heq.symm Schema.validate_ne_binding, fun h => ?_⟩
      rcases h with h | ⟨h, -⟩
      · exact absurd h hne
      · exact absurd hfirst h
    · have hr := positionalValues_of_keywords ordinary named hlen hlt hkw hfirst
      have agree := compiled.validate_padded_iff hlabel hc (Signature.trimUndefined (g.given vs))
        ((g.given vs).length - (Signature.trimUndefined (g.given vs)).length)
      rw [Signature.padded_trimUndefined] at agree
      rw [outcome_of_positionalValues hc hr σ, eq_comm, agree]
      simp [hne, hfirst]
  · have hnil : kw.entries = [] := by
      have hlength := hkw.length_eq
      simp only [List.length_drop, List.length_zip, List.length_map] at hlength
      exact List.eq_nil_of_length_eq_zero (by omega)
    have hr : g.signature.positionalValues (g.given (vs.take vs.length)) kw = .ok (g.given vs) := by
      rw [Signature.positionalValues, hnil, List.take_length]
      rfl
    rw [outcome_of_positionalValues hc hr σ]
    simp

theorem keywords_agree_of_second : ∃ g σ,
    (enforce twoDefaults (.silent (.record [("a", .str "!number"), ("b", .str "string")])
      false)).run.run .fresh = (.ok g, σ) ∧
    g.outcome [.int 3] ⟨[("b", .int 4)]⟩ σ = g.outcome [.int 3, .int 4] .empty σ := by
  obtain ⟨g, σ, henforce, hc, hgiven, hmethod⟩ : ∃ g σ, (enforce twoDefaults
      (.silent (.record [("a", .str "!number"), ("b", .str "string")]) false)).run.run .fresh =
        (.ok g, σ) ∧ g.convention ≠ .named ∧ g.given [.int 3, .int 4] = [.int 3, .int 4] ∧
      g.method = false := ⟨_, _, rfl, nofun, rfl, rfl⟩
  refine ⟨g, σ, henforce, ?_⟩
  have ordinary : ∀ p ∈ twoDefaults.signature, p.kind = .ordinary := by simp [twoDefaults]
  have hlen : [Value.int 3, .int 4].length ≤ twoDefaults.signature.length := by decide
  have hkw : twoDefaults.signature.SpelledFrom [.int 3, .int 4] 1 ⟨[("b", .int 4)]⟩ := .refl _
  refine (keywords_agree_iff henforce hc ordinary (by decide) hlen (by decide) hkw σ σ).2
    (.inr ⟨by simp, ?_⟩)
  rw [hgiven]
  rintro (⟨i, name, -, -, hle, hlt⟩ | ⟨hn, -⟩)
  · exact absurd hlt (Nat.not_lt.2 hle)
  · exact absurd hn (by decide)

/-- Padding that is given by keyword does not fill the place of a required parameter and is never
too much, and the first argument of a method cannot be given by keyword. -/
theorem keywords_disagree :
    (∃ g σ, (enforce twoDefaults (.silent (.record [("a", .str "!number")]) false)).run.run .fresh =
        (.ok g, σ) ∧
      g.outcome [.undefined] .empty σ = .ok () ∧
      (∃ message, g.outcome [] ⟨[("a", .undefined)]⟩ σ =
        .error (.violation (.str "f") message (.missing [.str "a"]))) ∧
      (∃ message, g.outcome [.int 3, .undefined] .empty σ =
        .error (.violation (.str "f") message (.tooMany (.int 2) (.int 1)))) ∧
      g.outcome [.int 3] ⟨[("b", .undefined)]⟩ σ = .ok ()) ∧
    ∃ g σ, (enforce twoDefaults (.silent (.record [("b", .str "number")]) true)).run.run .fresh =
        (.ok g, σ) ∧
      g.outcome [.int 3, .int 4] .empty σ = .ok () ∧
      g.outcome [] ⟨[("a", .int 3), ("b", .int 4)]⟩ σ =
        .error (.binding (.unexpectedKeyword "a")) :=
  ⟨⟨_, _, rfl, rfl, ⟨_, rfl⟩, ⟨_, rfl⟩, rfl⟩, _, _, rfl, rfl, rfl⟩

end Guard

end CallContract
