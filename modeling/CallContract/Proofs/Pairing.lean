import CallContract.Proofs.Compilation
import CallContract.Proofs.Validation

/-!
# Positional values along listed parameters

Paired with listed parameters, each value is found under the name in its place and under no other
(`Listed.get?_pair`), so that a check of a parameter depends on the value in its place alone.
-/

namespace CallContract

theorem Table.Apart.index_unique {κ : Type} [BEq κ] [PartialEquivBEq κ] {keys : List κ}
    (h : Apart keys) {i j : Nat} {a b : κ} (ha : keys[i]? = some a) (hb : keys[j]? = some b)
    (hab : (a == b) = true) : i = j := by
  obtain ⟨hi, rfl⟩ := List.getElem?_eq_some_iff.1 ha
  obtain ⟨hj, rfl⟩ := List.getElem?_eq_some_iff.1 hb
  rcases Nat.lt_trichotomy i j with hlt | rfl | hlt
  · rw [List.pairwise_iff_getElem.1 h i j hi hj hlt] at hab
    cases hab
  · rfl
  · rw [BEq.symm_false (List.pairwise_iff_getElem.1 h j i hj hi hlt)] at hab
    cases hab

/-- The convention looks into the mappings among the values when it checks types. -/
def Convention.looksIntoBags : Convention → Bool
  | .positional => true
  | .named | .hybrid => false

namespace Schema

def checkValues (s : Schema) (vs : List Value) (checkBags : Bool) : Except Failure Unit := do
  s.checkRequired (Arguments.pair s vs)
  s.typecheck (Arguments.pair s vs) false false checkBags
  s.checkArity vs.length

variable {s : Schema} {p : Value} {vs : List Value}

theorem validateValues_eq (hp : p.interruption? = none) (h : p.sequence? = some vs)
    (checkBags : Bool) :
    s.validateValues p checkBags = s.checkValues vs checkBags >>= fun _ => .ok vs := by
  rw [validateValues, Arguments.positionalValues_of_sequence hp h, checkValues]
  simp only [bind_assoc]
  rfl

theorem validatePositional_eq (hp : p.interruption? = none) (h : p.sequence? = some vs) :
    s.validatePositional p = s.checkValues vs true := by
  rw [validatePositional, validateValues_eq hp h]
  cases s.checkValues vs true <;> rfl

theorem validateHybrid_eq (hp : p.interruption? = none) (h : p.sequence? = some vs) :
    s.validateHybrid p =
      s.checkValues vs false >>= fun _ => (ascending s.hybrids).forM (s.validateBag vs) := by
  rw [validateHybrid, validateValues_eq hp h, bind_assoc]
  rfl

/-- What a convention does with positional values behind the checks of the values themselves. -/
def checkBagsOf (s : Schema) (c : Convention) (vs : List Value) : Except Failure Unit :=
  match c with
  | .hybrid => (ascending s.hybrids).forM (s.validateBag vs)
  | .named | .positional => .ok ()

theorem validate_eq {c : Convention} (hc : c ≠ .named) (hp : p.interruption? = none)
    (h : p.sequence? = some vs) :
    s.validate c p = s.checkValues vs c.looksIntoBags >>= fun _ => s.checkBagsOf c vs := by
  cases c with
  | named => exact absurd rfl hc
  | positional =>
    rw [validate, validatePositional_eq hp h, checkBagsOf, Convention.looksIntoBags]
    cases s.checkValues vs true <;> rfl
  | hybrid => rw [validate, validateHybrid_eq hp h, checkBagsOf, Convention.looksIntoBags]

theorem validate_list_eq {c : Convention} (hc : c ≠ .named) :
    s.validate c (.list vs) =
      s.checkValues vs c.looksIntoBags >>= fun _ => s.checkBagsOf c vs :=
  validate_eq hc rfl rfl

end Schema

namespace Listed

variable {ps : List Parameter} (h : Listed ps) (label : Value)
include h

theorem apart_zip (vs : List Value) :
    Table.Apart (((ps.map (·.name)).zip vs).map Prod.fst) := by
  rw [List.zip_eq_zip_take_min, List.map_fst_zip (by simp)]
  exact h.apart.sublist (List.take_sublist _ _)

theorem pair_eq (vs : List Value) :
    Arguments.pair (.listing label ps) vs = ⟨(ps.map (·.name)).zip vs⟩ :=
  Table.ofList_of_apart (h.apart_zip vs)

theorem get?_pair {i : Nat} {p : Parameter} (hi : ps[i]? = some p) (vs : List Value) :
    (Arguments.pair (.listing label ps) vs).get? p.name = vs[i]? := by
  have hname : (ps.map (·.name))[i]? = some p.name := by rw [List.getElem?_map, hi]; rfl
  have hself := h.beq_self (List.mem_of_getElem? hi)
  rw [h.pair_eq]
  cases hv : vs[i]? with
  | some v =>
    have hmem : (p.name, v) ∈ (ps.map (·.name)).zip vs := by
      refine List.mem_iff_getElem?.2 ⟨i, ?_⟩
      rw [List.getElem?_zip_eq_some]
      exact ⟨hname, hv⟩
    exact Table.get?_of_mem (h.apart_zip vs) hmem hself
  | none =>
    cases hget : (⟨(ps.map (·.name)).zip vs⟩ : Payload).get? p.name with
    | none => rfl
    | some v =>
      -- the value would stand in the place of `p`, which has none
      obtain ⟨⟨name, w⟩, hmem, hbeq, -⟩ := Table.mem_of_get? hget
      obtain ⟨j, hj⟩ := List.mem_iff_getElem?.1 hmem
      obtain ⟨hjn, hjw⟩ := List.getElem?_zip_eq_some.1 hj
      obtain rfl := h.apart.index_unique hname hjn hbeq
      rw [hv] at hjw
      cases hjw

theorem contains_pair {i : Nat} {p : Parameter} (hi : ps[i]? = some p) (vs : List Value) :
    (Arguments.pair (.listing label ps) vs).contains p.name = vs[i]?.isSome := by
  rw [Table.contains, h.get?_pair label hi]

theorem expected_eq {p : Parameter} (hp : p ∈ ps) :
    (Schema.listing label ps).expected p.name = .ok p.expected := by
  rw [Schema.expected, h.types_get? hp (h.beq_self hp)]

end Listed

namespace Schema.Compiled

variable {s : Schema} {label : Value} {labelText : String} (h : s.Compiled label labelText)
include h

theorem get?_pair {i : Nat} {name : Value} (hi : s.params[i]? = some name) (vs : List Value) :
    (Arguments.pair s vs).get? name = vs[i]? := by
  obtain ⟨ps, rfl, listed, -⟩ := h
  obtain ⟨p, hp, rfl⟩ : ∃ p, ps[i]? = some p ∧ p.name = name := by
    rw [listing, List.getElem?_map] at hi
    exact Option.map_eq_some_iff.1 hi
  exact listed.get?_pair label hp vs

theorem contains_pair {i : Nat} {name : Value} (hi : s.params[i]? = some name) (vs : List Value) :
    (Arguments.pair s vs).contains name = decide (i < vs.length) := by
  rw [Table.contains, h.get?_pair hi, Bool.eq_iff_iff]
  simp

theorem place_of_required {name : Value} (hname : name ∈ s.required) :
    ∃ i : Nat, s.params[i]? = some name := by
  obtain ⟨ps, rfl, -⟩ := h
  obtain ⟨p, hp, rfl⟩ := List.mem_map.1 hname
  exact List.mem_iff_getElem?.1 (List.mem_map_of_mem (List.mem_filter.1 hp).1)

end Schema.Compiled

end CallContract
