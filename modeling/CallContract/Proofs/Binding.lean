import CallContract.Signature
import CallContract.Proofs.Outcome
import CallContract.Proofs.Table

/-!
# Binding

How a call is laid along a signature (`Laid`): positional arguments fill the parameters in front,
one each, until they run out or the parameter for surplus arguments takes the rest of them; what
stands behind is laid out by keyword. Both bindings of a call have this shape, the partial one and
that of the call itself, so what holds of either is proved along it.
-/

namespace CallContract

namespace ParamKind

/-- Takes a positional argument of its own. -/
def takesPosition : ParamKind → Bool
  | .positionalOnly | .ordinary => true
  | _ => false

def takesKeyword : ParamKind → Bool
  | .ordinary | .keywordOnly => true
  | _ => false

/-- Stands for a single value. -/
def takesValue (k : ParamKind) : Bool := k.takesPosition || k.takesKeyword

/-- The order in which the kinds come in a signature. -/
def rank : ParamKind → Nat
  | .positionalOnly => 0
  | .ordinary => 1
  | .surplus => 2
  | .keywordOnly => 3
  | .extraKeywords => 4

end ParamKind

namespace Signature

/-- The kinds come in their order, those for more than one value once at most, and no name comes
twice. -/
structure WellFormed (sig : Signature) : Prop where
  ordered : sig.Pairwise fun p q =>
    p.kind.rank < q.kind.rank ∨ p.kind = q.kind ∧ p.kind.takesValue = true
  named : (sig.map (·.name)).Nodup

/-- The parameters that stand for a single value. -/
def slots (sig : Signature) : List Param := sig.filter (·.kind.takesValue)

/-- How many of them take positional arguments. -/
def positions (sig : Signature) : Nat := sig.countP (·.kind.takesPosition)

/-- Positional arguments lie along a signature, one for each parameter in front, and `rest` lays out
the parameters behind. -/
inductive Laid (rest : Signature → Keywords → Except BindingError (List Slot)) (kw : Keywords) :
    Signature → List Value → List Slot → Prop
  | rest {ps : Signature} {tail : List Slot} (h : rest ps kw = .ok tail) : Laid rest kw ps [] tail
  | surplus {p : Param} {ps : Signature} {v : Value} {vs : List Value} {tail : List Slot}
    (hp : p.kind = .surplus) (h : rest ps kw = .ok tail) :
    Laid rest kw (p :: ps) (v :: vs) (.surplus (v :: vs) :: tail)
  | value {p : Param} {ps : Signature} {v : Value} {vs : List Value} {tail : List Slot}
    (hp : p.kind.takesPosition = true)
    (once : p.kind.takesKeyword = true → kw.contains p.name = false)
    (h : Laid rest kw ps vs tail) : Laid rest kw (p :: ps) (v :: vs) (.value v :: tail)

section
variable {rest : Signature → Keywords → Except BindingError (List Slot)} {kw : Keywords}

theorem layPositional_eq_ok_iff {sig : Signature} {args : List Value} {slots : List Slot} :
    layPositional rest sig args kw = .ok slots ↔ Laid rest kw sig args slots := by
  constructor
  · intro h
    induction sig generalizing args slots with
    | nil =>
      cases args with
      | nil => exact .rest h
      | cons v vs => cases h
    | cons p ps ih =>
      cases args with
      | nil => exact .rest h
      | cons v vs =>
        rw [layPositional] at h
        cases hk : p.kind with
        | keywordOnly | extraKeywords =>
          simp only [hk] at h
          cases h
        | surplus =>
          simp only [hk] at h
          obtain ⟨tail, htail, h⟩ := bind_eq_ok.1 h
          cases h
          exact .surplus hk htail
        | positionalOnly =>
          simp only [hk] at h
          obtain ⟨tail, htail, h⟩ := bind_eq_ok.1 h
          cases h
          exact .value (by rw [hk]; rfl) (by rw [hk]; nofun) (ih htail)
        | ordinary =>
          simp only [hk] at h
          split at h
          next => cases h
          next hnot =>
            obtain ⟨tail, htail, h⟩ := bind_eq_ok.1 h
            cases h
            exact .value (by rw [hk]; rfl) (fun _ => Bool.eq_false_iff.2 hnot) (ih htail)
  · intro h
    induction h with
    | @rest ps tail h => cases ps <;> exact h
    | surplus hp h => rw [layPositional, hp, h]; rfl
    | @value p ps v vs tail hp once h ih =>
      rw [layPositional]
      cases hk : p.kind with
      | positionalOnly => simp only [ih]; rfl
      | ordinary =>
        have hnot : kw.contains p.name = false := once (by rw [hk]; rfl)
        simp only [hnot, ih]
        rfl
      | _ => rw [hk] at hp; cases hp

end

namespace WellFormed

variable {p : Param} {ps : Signature}

theorem tail (h : WellFormed (p :: ps)) : ps.WellFormed :=
  ⟨(List.pairwise_cons.1 h.ordered).2, (List.nodup_cons.1 h.named).2⟩

theorem name_ne (h : WellFormed (p :: ps)) {q : Param} (hq : q ∈ ps) : p.name ≠ q.name := by
  intro he
  exact (List.nodup_cons.1 h.named).1 (List.mem_map.2 ⟨q, hq, he.symm⟩)

theorem tail_of_extraKeywords (h : WellFormed (p :: ps)) (hp : p.kind = .extraKeywords) :
    ps = [] := by
  cases ps with
  | nil => rfl
  | cons q qs =>
    rcases (List.pairwise_cons.1 h.ordered).1 q (by simp) with hlt | ⟨-, hone⟩
    · rw [hp] at hlt
      cases hq : q.kind <;> simp [hq, ParamKind.rank] at hlt
    · rw [hp] at hone
      cases hone

theorem behind_surplus (h : WellFormed (p :: ps)) (hp : p.kind = .surplus) {q : Param}
    (hq : q ∈ ps) : q.kind = .keywordOnly ∨ q.kind = .extraKeywords := by
  rcases (List.pairwise_cons.1 h.ordered).1 q hq with hlt | ⟨-, hone⟩
  · rw [hp] at hlt
    cases hk : q.kind <;> simp_all [ParamKind.rank]
  · rw [hp] at hone
    cases hone

end WellFormed

end Signature

namespace Param

/-- The keyword that a call gives for a parameter. -/
def keyword? (p : Param) (kw : Keywords) : Option Value :=
  if p.kind.takesKeyword then kw.get? p.name else none

/-- The keywords that a parameter leaves to those behind it. -/
def remaining (p : Param) (kw : Keywords) : Keywords :=
  match p.kind with
  | .ordinary | .keywordOnly => kw.erase p.name
  | .extraKeywords => .empty
  | .positionalOnly | .surplus => kw

theorem get?_remaining {p : Param} (hp : p.kind ≠ .extraKeywords) {name : String}
    (h : p.name ≠ name) (kw : Keywords) : (p.remaining kw).get? name = kw.get? name := by
  have erased : (kw.erase p.name).get? name = kw.get? name := by
    rw [Table.get?_erase]
    simp [h]
  rw [remaining]
  cases hk : p.kind with
  | ordinary | keywordOnly => exact erased
  | positionalOnly | surplus => rfl
  | extraKeywords => exact absurd hk hp

theorem contains_of_remaining {p : Param} {kw : Keywords} {name : String}
    (h : (p.remaining kw).contains name = true) : kw.contains name = true := by
  rw [remaining] at h
  cases hk : p.kind with
  | ordinary | keywordOnly =>
    simp only [hk, Table.contains_erase, Bool.and_eq_true] at h
    exact h.2
  | positionalOnly | surplus => simpa only [hk] using h
  | extraKeywords =>
    simp only [hk] at h
    cases h

end Param

namespace Signature

theorem slots_cons_of_value {p : Param} {ps : Signature} (h : p.kind.takesValue = true) :
    slots (p :: ps) = p :: slots ps := List.filter_cons_of_pos h

theorem slots_cons_of_many {p : Param} {ps : Signature} (h : p.kind.takesValue = false) :
    slots (p :: ps) = slots ps := List.filter_cons_of_neg (by simp [h])

/-- What a parameter leaves to those behind it has their keywords. -/
theorem WellFormed.get?_remaining {p : Param} {ps : Signature} (wf : WellFormed (p :: ps))
    {q : Param} (hq : q ∈ ps) (kw : Keywords) :
    (p.remaining kw).get? q.name = kw.get? q.name := by
  refine Param.get?_remaining (fun hp => ?_) (wf.name_ne hq) kw
  rw [wf.tail_of_extraKeywords hp] at hq
  cases hq

theorem layKeywords_cons {p : Param} {ps : Signature} {kw : Keywords} {laid : List Slot}
    (h : layKeywords (p :: ps) kw = .ok laid) :
    ∃ slot tail, laid = slot :: tail ∧ layKeywords ps (p.remaining kw) = .ok tail ∧
      (p.kind = .extraKeywords → slot = .keywords kw) ∧
      slot.values = if p.kind.takesValue then [(p.keyword? kw).getD .undefined] else [] := by
  rw [layKeywords] at h
  rw [Param.remaining, Param.keyword?]
  cases hk : p.kind with
  | surplus =>
    simp only [hk] at h
    obtain ⟨tail, htail, h⟩ := bind_eq_ok.1 h
    exact ⟨_, tail, (Except.ok.inj h).symm, htail, nofun, rfl⟩
  | extraKeywords =>
    simp only [hk] at h
    obtain ⟨tail, htail, h⟩ := bind_eq_ok.1 h
    exact ⟨_, tail, (Except.ok.inj h).symm, htail, fun _ => rfl, rfl⟩
  | positionalOnly =>
    simp only [hk] at h
    split at h
    · cases h
    · obtain ⟨tail, htail, h⟩ := bind_eq_ok.1 h
      exact ⟨_, tail, (Except.ok.inj h).symm, htail, nofun, rfl⟩
  | ordinary | keywordOnly =>
    simp only [hk] at h
    obtain ⟨tail, htail, h⟩ := bind_eq_ok.1 h
    refine ⟨_, tail, (Except.ok.inj h).symm, htail, nofun, ?_⟩
    cases kw.get? p.name <;> rfl

theorem fillKeywords_cons {p : Param} {ps : Signature} {kw : Keywords} {laid : List Slot}
    (h : fillKeywords (p :: ps) kw = .ok laid) :
    ∃ tail, fillKeywords ps (p.remaining kw) = .ok tail ∧
      (p.kind.takesValue = true →
        p.default?.isSome ∨ p.kind.takesKeyword = true ∧ kw.contains p.name = true) := by
  have filled {slot : Slot} (h : fillDefault p = .ok slot) : p.default?.isSome := by
    rw [fillDefault] at h
    split at h
    next hd => rw [hd]; rfl
    next => cases h
  rw [fillKeywords] at h
  rw [Param.remaining]
  cases hk : p.kind with
  | surplus =>
    simp only [hk] at h
    obtain ⟨tail, htail, -⟩ := bind_eq_ok.1 h
    exact ⟨tail, htail, nofun⟩
  | extraKeywords =>
    simp only [hk] at h
    obtain ⟨tail, htail, -⟩ := bind_eq_ok.1 h
    exact ⟨tail, htail, nofun⟩
  | positionalOnly =>
    simp only [hk] at h
    obtain ⟨slot, hslot, h⟩ := bind_eq_ok.1 h
    obtain ⟨tail, htail, -⟩ := bind_eq_ok.1 h
    exact ⟨tail, htail, fun _ => .inl (filled hslot)⟩
  | ordinary | keywordOnly =>
    simp only [hk] at h
    split at h
    next v hget =>
      obtain ⟨tail, htail, -⟩ := bind_eq_ok.1 h
      have given : kw.contains p.name = true := by rw [Table.contains, hget]; rfl
      exact ⟨tail, htail, fun _ => .inr ⟨rfl, given⟩⟩
    next hget =>
      obtain ⟨slot, hslot, h⟩ := bind_eq_ok.1 h
      obtain ⟨tail, htail, -⟩ := bind_eq_ok.1 h
      have absent : kw.contains p.name = false := by rw [Table.contains, hget]; rfl
      exact ⟨tail, by rwa [Table.erase_of_absent absent], fun _ => .inl (filled hslot)⟩

/-- Keywords for positional-only parameters are all that laying out the first one refuses. -/
theorem layKeywords_cons_iff {p : Param} {ps : Signature} {kw : Keywords} :
    (∃ laid, layKeywords (p :: ps) kw = .ok laid) ↔
      (p.kind = .positionalOnly → kw.contains p.name = false) ∧
        ∃ tail, layKeywords ps (p.remaining kw) = .ok tail := by
  have behind (slot : Slot) (rest : Except BindingError (List Slot)) :
      (∃ laid, (return slot :: (← rest)) = Except.ok laid) ↔ ∃ tail, rest = .ok tail := by
    cases rest with
    | ok tail => exact iff_of_true ⟨_, rfl⟩ ⟨tail, rfl⟩
    | error e => exact iff_of_false nofun nofun
  rw [layKeywords, Param.remaining]
  cases hk : p.kind with
  | surplus | extraKeywords | ordinary | keywordOnly =>
    rw [behind]
    exact (and_iff_right nofun).symm
  | positionalOnly =>
    cases hc : kw.contains p.name with
    | true => exact iff_of_false nofun fun h => nomatch h.1 rfl
    | false => exact (behind _ _).trans (and_iff_right fun _ => rfl).symm

theorem keys_of_refuseLeftover {kw : Keywords} {laid : List Slot}
    (h : refuseLeftover kw = .ok laid) : kw.keys = [] ∧ laid = [] := by
  rw [refuseLeftover] at h
  split at h
  next hkeys => exact ⟨hkeys, (Except.ok.inj h).symm⟩
  next => cases h

/-- The values that are laid out by keyword, with `undefined` for those that are not given. -/
theorem layKeywords_values {ps : Signature} {kw : Keywords} {laid : List Slot} (wf : ps.WellFormed)
    (h : layKeywords ps kw = .ok laid) :
    laid.flatMap Slot.values = (slots ps).map fun p => (p.keyword? kw).getD .undefined := by
  induction ps generalizing kw laid with
  | nil =>
    obtain ⟨-, rfl⟩ := keys_of_refuseLeftover h
    rfl
  | cons p ps ih =>
    obtain ⟨slot, tail, rfl, htail, -, hvalues⟩ := layKeywords_cons h
    -- the parameters behind do not miss what this one takes
    have behind : (slots ps).map (fun q => (q.keyword? (p.remaining kw)).getD .undefined) =
        (slots ps).map fun q => (q.keyword? kw).getD .undefined := by
      refine List.map_congr_left fun q hq => ?_
      rw [Param.keyword?, wf.get?_remaining (List.mem_filter.1 hq).1, Param.keyword?]
    rw [List.flatMap_cons, ih wf.tail htail, behind, hvalues]
    cases hv : p.kind.takesValue with
    | true => rw [slots_cons_of_value hv]; rfl
    | false => rw [slots_cons_of_many hv]; rfl

/-- The keywords of a call have a place unless they name positional-only parameters. -/
theorem layKeywords_iff_of_fillKeywords {ps : Signature} {kw : Keywords} {laid : List Slot}
    (wf : ps.WellFormed) (h : fillKeywords ps kw = .ok laid) :
    (∃ laid', layKeywords ps kw = .ok laid') ↔
      ∀ p ∈ ps, p.kind = .positionalOnly → kw.contains p.name = false := by
  induction ps generalizing kw laid with
  | nil => exact iff_of_true ⟨laid, h⟩ nofun
  | cons p ps ih =>
    obtain ⟨tail, htail, -⟩ := fillKeywords_cons h
    rw [layKeywords_cons_iff, ih wf.tail htail, List.forall_mem_cons]
    refine and_congr_right fun _ => forall₂_congr fun q hq => ?_
    rw [Table.contains, wf.get?_remaining hq, Table.contains]

/-- A keyword is one for a parameter of its name or goes to the parameter for extra keywords. -/
theorem layKeywords_taken {ps : Signature} {kw : Keywords} {laid : List Slot}
    (h : layKeywords ps kw = .ok laid) {name : String} {v : Value} (hv : kw.get? name = some v) :
    (∃ p ∈ ps, p.kind.takesKeyword = true ∧ p.name = name) ∨
      (∃ p ∈ ps, p.kind = .extraKeywords) ∧
        ∃ extra, .keywords extra ∈ laid ∧ extra.get? name = some v := by
  induction ps generalizing kw laid with
  | nil =>
    obtain ⟨hkeys, -⟩ := keys_of_refuseLeftover h
    obtain ⟨e, he, -⟩ := Table.mem_of_get? hv
    rw [List.map_eq_nil_iff.1 hkeys] at he
    cases he
  | cons p ps ih =>
    obtain ⟨slot, tail, rfl, htail, hextra, -⟩ := layKeywords_cons h
    by_cases hp : p.kind = .extraKeywords
    · exact .inr ⟨⟨p, by simp, hp⟩, kw, by simp [hextra hp], hv⟩
    by_cases taken : p.kind.takesKeyword = true ∧ p.name = name
    · exact .inl ⟨p, by simp, taken⟩
    have hrest : (p.remaining kw).get? name = some v := by
      by_cases he : p.name = name
      · have hno : p.kind.takesKeyword ≠ true := fun hk => taken ⟨hk, he⟩
        rw [Param.remaining]
        cases hk : p.kind <;> simp_all [ParamKind.takesKeyword]
      · rwa [Param.get?_remaining hp he]
    rcases ih htail hrest with ⟨q, hq, ht⟩ | ⟨⟨q, hq, hk⟩, extra, hmem, he⟩
    · exact .inl ⟨q, List.mem_cons_of_mem _ hq, ht⟩
    · exact .inr ⟨⟨q, List.mem_cons_of_mem _ hq, hk⟩, extra, List.mem_cons_of_mem _ hmem, he⟩

theorem fillKeywords_default {ps : Signature} {kw : Keywords} {laid : List Slot}
    (h : fillKeywords ps kw = .ok laid) {p : Param} (hp : p ∈ ps) (hv : p.kind.takesValue = true) :
    p.default?.isSome ∨ p.kind.takesKeyword = true ∧ kw.contains p.name = true := by
  induction ps generalizing kw laid with
  | nil => cases hp
  | cons q ps ih =>
    obtain ⟨tail, htail, hq⟩ := fillKeywords_cons h
    rcases List.mem_cons.1 hp with rfl | hp
    · exact hq hv
    · exact (ih htail hp).imp_right fun ⟨hk, hc⟩ => ⟨hk, Param.contains_of_remaining hc⟩

end Signature

end CallContract
