import CallContract.Proofs.ConventionAgreement
import CallContract.Proofs.ErrorFamily
import CallContract.Proofs.HybridStages

/-!
# Trailing `undefined`

Positional values with `undefined` behind them, against the same values without it. A parameter in a
place that `undefined` fills is not missing, and an `undefined` behind the last parameter counts as
a value too many; in every other respect it is as if there were none (`validate_padded_iff`).
-/

namespace CallContract

namespace Schema

def padded (vs : List Value) (n : Nat) : List Value := vs ++ List.replicate n .undefined

theorem length_padded (vs : List Value) (n : Nat) : (padded vs n).length = vs.length + n := by
  simp [padded]

theorem getElem?_padded (vs : List Value) (n i : Nat) :
    (padded vs n)[i]? = vs[i]? ∨ vs[i]? = none ∧ (padded vs n)[i]? = some .undefined := by
  rw [padded, List.getElem?_append]
  split
  next => exact .inl rfl
  next hi =>
    rw [List.getElem?_eq_none (Nat.le_of_not_lt hi), List.getElem?_replicate]
    split
    · exact .inr ⟨rfl, rfl⟩
    · exact .inl rfl

/-- Trailing `undefined` makes a difference: it fills the place of a required parameter, or it is
too many and nothing else is wrong. -/
def CountsPadding (s : Schema) (c : Convention) (vs : List Value) (n : Nat) : Prop :=
  (∃ i name, s.params[i]? = some name ∧ name ∈ s.required ∧ vs.length ≤ i ∧ i < vs.length + n) ∨
    (0 < n ∧ s.arity < vs.length + n ∧ s.checkRequired (Arguments.pair s vs) = .ok () ∧
      s.checkTypes (Arguments.pair s vs) false c.looksIntoBags = .ok ())

theorem checkBagsOf_padded (s : Schema) (c : Convention) (vs : List Value) (n : Nat) :
    s.checkBagsOf c (padded vs n) = s.checkBagsOf c vs := by
  have bag (entry : Int × Schema) : s.validateBag (padded vs n) entry = s.validateBag vs entry := by
    have same : (padded vs n)[entry.1.toNat]?.getD .undefined =
        vs[entry.1.toNat]?.getD .undefined := by
      rcases getElem?_padded vs n entry.1.toNat with h | ⟨hnone, hsome⟩
      · rw [h]
      · rw [hnone, hsome]
        rfl
    rw [validateBag, validateBag, same]
  cases c with
  | hybrid => exact forM_congr fun entry _ => bag entry
  | named | positional => rfl

theorem checkParam_padded {s : Schema} {supplied supplied' : Payload} {name : Value}
    (h : supplied'.get? name = supplied.get? name ∨
      supplied.get? name = none ∧ supplied'.get? name = some .undefined) (checkBags : Bool) :
    s.checkParam supplied' false checkBags name = s.checkParam supplied false checkBags name := by
  rw [checkParam, checkParam]
  rcases h with h | ⟨hnone, hsome⟩
  · rw [h]
  · rw [hnone, hsome]
    rfl

section
variable {s : Schema} {label : Value} {labelText : String} (h : s.Compiled label labelText)
include h

theorem Compiled.checkTypes_padded (vs : List Value) (n : Nat) (checkBags : Bool) :
    s.checkTypes (Arguments.pair s (padded vs n)) false checkBags =
      s.checkTypes (Arguments.pair s vs) false checkBags := by
  refine forM_congr fun name hname => ?_
  obtain ⟨i, hi⟩ := List.mem_iff_getElem?.1 hname
  refine checkParam_padded ?_ checkBags
  rw [h.get?_pair hi, h.get?_pair hi]
  exact getElem?_padded vs n i

end

theorem findInValue_ne_missing (s : Schema) (name value : Value) (checkBags : Bool) (e : Expected) :
    Finding.Always (fun x => ∀ contract names, x.offence ≠ .violation contract (.missing names))
      (s.findInValue name value checkBags e) := by
  cases e with
  | wildcard => exact .none
  | bag nested =>
    rw [findInValue]
    split
    · exact .some fun _ _ h => by cases h
    · exact .none
  | instanceOf c =>
    rw [findInValue]
    split
    · exact .some fun _ _ h => by cases h
    · split
      · exact .none
      · exact .some fun _ _ h => by cases h
  | primitive tag =>
    rw [findInValue]
    split
    · exact .none
    · exact .some fun _ _ h => by cases h
  | other v => exact .some fun _ _ h => by cases h

theorem findInTypes_ne_missing (s : Schema) (supplied : Payload) (checkUndefined checkBags : Bool) :
    Finding.Always (fun x => ∀ contract names, x.offence ≠ .violation contract (.missing names))
      (s.findInTypes supplied checkUndefined checkBags) := by
  refine .findSome? fun name _ => ?_
  unfold findInParam
  split
  · exact .none
  · exact .none
  · split
    · exact .some fun _ _ h => by cases h
    · exact .none
  · split
    · exact s.findInValue_ne_missing name _ checkBags _
    · exact .some fun _ _ h => by cases h

def missing (s : Schema) (supplied : Payload) : List Value :=
  s.required.filter fun name => !supplied.contains name

theorem missing_of_found {s : Schema} {vs names shown : List Value} {contract : Value}
    {checkBags : Bool}
    (h : s.findInValues vs checkBags = some (.violation contract (.missing names) shown)) :
    names = s.missing (Arguments.pair s vs) := by
  rw [findInValues] at h
  cases hmissing : s.findMissing (Arguments.pair s vs) with
  | some x =>
    rw [hmissing] at h
    obtain rfl := Option.some.inj h
    rw [findMissing] at hmissing
    split at hmissing <;> cases hmissing
    rfl
  | none =>
    rw [hmissing, Option.none_or] at h
    cases htypes : s.findInTypes (Arguments.pair s vs) false checkBags with
    | some x =>
      rw [htypes] at h
      obtain rfl := Option.some.inj h
      exact absurd rfl (s.findInTypes_ne_missing _ _ _ _ htypes _ _)
    | none =>
      rw [htypes, Option.none_or, findSurplus] at h
      split at h <;> cases h

section
variable {s : Schema} {label : Value} (hlabel : Compiler.IsLabel label)
  (h : s.Compiled label label.shownText)
include hlabel h

theorem Compiled.bagLabel_ne (i : Int) : bagLabel label.shownText i ≠ label := by
  rcases hlabel with htext | rfl
  · intro heq
    obtain ⟨text, htext⟩ := Option.isSome_iff_exists.1 htext
    have apart := Schema.bagLabel_ne (i := i) htext
    rw [← Value.shownText_of_text htext, heq, Value.beq_self_of_text (by rw [htext]; rfl)] at apart
    cases apart
  · nofun

/-- A violation under the label of the schema itself is found in the positional values. -/
theorem Compiled.found_of_violation {c : Convention} (hc : c ≠ .named) {vs : List Value}
    {message : String} {what : Violation}
    (hv : s.validate c (.list vs) = .error (.violation s.name message what)) :
    ∃ shown, s.findInValues vs c.looksIntoBags = some (.violation s.name what shown) := by
  obtain ⟨shown, hfound⟩ := (s.reports_validate c rfl).of_violation hv
  cases c with
  | named => exact absurd rfl hc
  | positional => exact ⟨shown, hfound⟩
  | hybrid =>
    cases hvalues : s.findInValues vs false with
    | some x =>
      have hfound : (s.findInValues vs false).or _ = _ := hfound
      rw [hvalues] at hfound
      exact ⟨shown, hvalues.trans hfound⟩
    | none =>
      have hfound : (s.findInValues vs false).or _ = _ := hfound
      rw [hvalues, Option.none_or] at hfound
      -- the label of a position is not that of the schema
      obtain ⟨entry, hentry, hbag⟩ := List.exists_of_findSome?_eq_some hfound
      rw [h.ascending_hybrids] at hentry
      have typed := h.typed hlabel.shown
      have ordinary := (h.nested_typed hentry).ordinary_findInBag typed _ hbag
      have hname := ordinary.contract_eq
      rw [(h.nested hentry).name_eq, h.name_eq] at hname
      exact absurd hname.symm (h.bagLabel_ne hlabel entry.1)

theorem Compiled.validate_of_missing {c : Convention} (hc : c ≠ .named) {vs : List Value}
    (hmissing : s.missing (Arguments.pair s vs) ≠ []) : ∃ message, s.validate c (.list vs) =
      .error (.violation s.name message (.missing (s.missing (Arguments.pair s vs)))) := by
  have hfound : s.findMissing (Arguments.pair s vs) =
      some (.violation s.name (.missing (s.missing (Arguments.pair s vs)))
        (s.name :: s.missing (Arguments.pair s vs))) := by
    rw [findMissing]
    split
    next hnil => exact absurd hnil hmissing
    next => rfl
  have reports := s.reports_checkRequired (Arguments.pair s vs)
  have shown := (h.typed hlabel.shown).ordinary_findMissing _ _ hfound
  rw [hfound] at reports
  obtain ⟨message, hends⟩ := reports.violates (shown.shown trivial)
  refine ⟨message, ?_⟩
  rw [validate_list_eq hc, checkValues, hends]
  rfl

theorem Compiled.validate_padded_of_required {c : Convention} (hc : c ≠ .named) {vs : List Value}
    {n i : Nat} {name : Value} (hi : s.params[i]? = some name) (hrequired : name ∈ s.required)
    (hle : vs.length ≤ i) (hlt : i < vs.length + n) :
    s.validate c (.list (padded vs n)) ≠ s.validate c (.list vs) := by
  intro heq
  have absent : name ∈ s.missing (Arguments.pair s vs) := by
    refine List.mem_filter.2 ⟨hrequired, ?_⟩
    rw [h.contains_pair hi, decide_eq_false (Nat.not_lt.2 hle)]
    rfl
  have present : name ∉ s.missing (Arguments.pair s (padded vs n)) := by
    intro hmem
    have hnot := (List.mem_filter.1 hmem).2
    rw [h.contains_pair hi, length_padded, decide_eq_true hlt] at hnot
    cases hnot
  obtain ⟨message, hends⟩ := h.validate_of_missing hlabel hc (List.ne_nil_of_mem absent)
  rw [hends] at heq
  obtain ⟨shown, hfound⟩ := h.found_of_violation hlabel hc heq
  rw [missing_of_found hfound] at absent
  exact present absent

theorem Compiled.validate_padded_of_surplus {c : Convention} (hc : c ≠ .named) {vs : List Value}
    {n : Nat} (hn : 0 < n) (harity : s.arity < vs.length + n)
    (hrequired : s.checkRequired (Arguments.pair s vs) = .ok ())
    (htypes : s.checkTypes (Arguments.pair s vs) false c.looksIntoBags = .ok ()) :
    s.validate c (.list (padded vs n)) ≠ s.validate c (.list vs) := by
  intro heq
  have required : s.checkRequired (Arguments.pair s (padded vs n)) = .ok () := by
    refine (s.checkRequired_eq_ok_iff _).2 fun name hname => ?_
    obtain ⟨i, hi⟩ := h.place_of_required hname
    have present := (s.checkRequired_eq_ok_iff _).1 hrequired name hname
    rw [h.contains_pair hi, decide_eq_true_eq] at present ⊢
    rw [length_padded]
    omega
  have reports := s.reports_checkArity (padded vs n).length
  rw [length_padded, findSurplus, if_pos (Int.ofNat_lt.2 harity)] at reports
  obtain ⟨message, hends⟩ := reports.violates
    (List.forall_mem_singleton.2 (h.typed hlabel.shown).label)
  rw [validate_list_eq hc, checkValues, required, typecheck,
    h.checkTypes_padded, htypes, length_padded, hends] at heq
  obtain ⟨shown, hfound⟩ := h.found_of_violation hlabel hc heq.symm
  have no_missing := (s.reports_checkRequired (Arguments.pair s vs)).isOk_iff.1 ⟨(), hrequired⟩
  have no_mismatch := (s.reports_checkTypes (Arguments.pair s vs) false
    c.looksIntoBags).isOk_iff.1 ⟨(), htypes⟩
  rw [findInValues, no_missing, no_mismatch, findSurplus] at hfound
  split at hfound
  · -- the numbers of values differ
    have received := congrArg Finding.offence (Option.some.inj hfound)
    simp only [Finding.violation, Offence.violation.injEq, Violation.tooMany.injEq, Value.int.injEq]
      at received
    omega
  · cases hfound

/-- Trailing `undefined` changes how a validation ends exactly if it counts. -/
theorem Compiled.validate_padded_iff {c : Convention} (hc : c ≠ .named) (vs : List Value)
    (n : Nat) :
    s.validate c (.list (padded vs n)) = s.validate c (.list vs) ↔ ¬ s.CountsPadding c vs n := by
  constructor
  · rintro heq (⟨i, name, hi, hrequired, hle, hlt⟩ | ⟨hn, harity, hrequired, htypes⟩)
    · exact h.validate_padded_of_required hlabel hc hi hrequired hle hlt heq
    · exact h.validate_padded_of_surplus hlabel hc hn harity hrequired htypes heq
  · intro hnot
    have required : s.checkRequired (Arguments.pair s (padded vs n)) =
        s.checkRequired (Arguments.pair s vs) := by
      refine checkRequired_congr fun name hname => ?_
      obtain ⟨i, hi⟩ := h.place_of_required hname
      rw [h.contains_pair hi, h.contains_pair hi, length_padded, decide_eq_decide]
      refine ⟨fun hlt => Nat.lt_of_not_le fun hle => ?_, fun hlt => by omega⟩
      exact hnot (.inl ⟨i, name, hi, hname, hle, hlt⟩)
    rw [validate_list_eq hc, validate_list_eq hc, checkBagsOf_padded, checkValues, checkValues,
      required, typecheck, typecheck, h.checkTypes_padded, length_padded]
    cases hrequired : s.checkRequired (Arguments.pair s vs) with
    | error f => rfl
    | ok =>
      cases htypes : s.checkTypes (Arguments.pair s vs) false c.looksIntoBags with
      | error f => rfl
      | ok =>
        -- only the number of values is left to check
        have arity : s.checkArity (vs.length + n : Nat) = s.checkArity vs.length := by
          by_cases harity : s.arity < vs.length + n
          · have hn : n = 0 := by
              refine Nat.eq_zero_of_not_pos fun hn => hnot (.inr ⟨hn, harity, hrequired, htypes⟩)
            rw [hn, Nat.add_zero]
          · rw [checkArity_of_le (by omega), checkArity_of_le (by omega)]
        rw [arity]
        rfl

end

end Schema

end CallContract
