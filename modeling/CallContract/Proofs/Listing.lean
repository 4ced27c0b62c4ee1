import CallContract.Proofs.Finding
import CallContract.Proofs.Table

/-!
# Listed parameters

`Listed ps`: the parameters are numbered from 0 on and have texts as names, which are apart. Along
such parameters a schema is made without any objection, and its tables hold the parameters entry by
entry (`Schema.listing`): each name is found with its own type and position, and the destructured
positions ascend.
-/

namespace CallContract

theorem Value.beq_self_of_text {v : Value} (h : v.text?.isSome) : (v == v) = true := by
  cases v with
  | str | text => exact beq_self_iff.2 rfl
  | _ => cases h

theorem Value.requireHashable_of_text {v : Value} (h : v.text?.isSome) :
    v.requireHashable = .ok () := by
  cases v with
  | str | text => rfl
  | _ => cases h

/-- The parameters are numbered from 0 on, under texts that are apart. -/
structure Listed (ps : List Parameter) : Prop where
  numbered : ∀ (i : Nat) (p : Parameter), ps[i]? = some p → p.position = i
  texts : ∀ p ∈ ps, p.name.text?.isSome
  apart : Table.Apart (ps.map (·.name))

namespace Schema

theorem hasDuplicates_eq_false_iff {vs : List Value} :
    hasDuplicates vs = false ↔ Table.Apart vs := by
  induction vs with
  | nil => simp [hasDuplicates, Table.Apart]
  | cons v vs ih =>
    rw [hasDuplicates, Bool.or_eq_false_iff, ih, List.any_eq_false]
    simp [Table.Apart]

theorem checkTables_of_coherent {s : Schema} (hparams : ∀ v ∈ s.params, v.requireHashable = .ok ())
    (hrequired : ∀ v ∈ s.required, v.requireHashable = .ok ())
    (distinct : hasDuplicates s.params = false) (declared : undeclared s.params s.required = [])
    (placed : strayHybrid? s.params s.hybrids = none)
    (ordered : misplaced s.params s.positions = []) : s.checkTables = .ok () := by
  simp only [checkTables, forM_eq_ok hparams, forM_eq_ok hrequired, distinct, declared, placed,
    ordered]
  rfl

def bagOf? (p : Parameter) : Option (Int × Schema) :=
  match p.expected with
  | .bag s => some (p.position, s)
  | _ => none

/-- The schema whose tables are those of the parameters, entry by entry. -/
def listing (name : Value) (ps : List Parameter) : Schema where
  name
  params := ps.map (·.name)
  required := (ps.filter (·.required)).map (·.name)
  types := ⟨ps.map fun p => (p.name, p.expected)⟩
  positions := ⟨ps.map fun p => (p.name, p.position)⟩
  hybrids := ⟨ps.filterMap bagOf?⟩

theorem bagOf?_eq_some_iff {p : Parameter} {e : Int × Schema} :
    bagOf? p = some e ↔ p.expected = .bag e.2 ∧ p.position = e.1 := by
  unfold bagOf?
  cases p.expected with
  | bag s => simp [Prod.ext_iff, and_comm]
  | _ => simp

theorem mem_hybrids {name : Value} {ps : List Parameter} {e : Int × Schema} :
    e ∈ (listing name ps).hybrids.entries ↔
      ∃ p ∈ ps, p.expected = .bag e.2 ∧ p.position = e.1 := by
  simp only [listing, List.mem_filterMap, bagOf?_eq_some_iff]

section
variable {ps : List Parameter} (texts : ∀ p ∈ ps, p.name.text?.isSome)
include texts

theorem hashable_of_texts : ∀ v ∈ ps.map (·.name), v.requireHashable = .ok () := by
  intro v hv
  obtain ⟨p, hp, rfl⟩ := List.mem_map.1 hv
  exact Value.requireHashable_of_text (texts p hp)

theorem undeclared_of_texts :
    undeclared (ps.map (·.name)) ((ps.filter (·.required)).map (·.name)) = [] := by
  refine List.filter_eq_nil_iff.2 fun v hv => ?_
  obtain ⟨p, hp, rfl⟩ := List.mem_map.1 hv
  have hmem := (List.mem_filter.1 hp).1
  have found : (ps.map (·.name)).any (p.name == ·) = true :=
    List.any_eq_true.2 ⟨p.name, List.mem_map_of_mem hmem, Value.beq_self_of_text (texts p hmem)⟩
  simp [found]

end

end Schema

namespace Listed

variable {ps : List Parameter} (h : Listed ps)
include h

theorem mem_numbered {p : Parameter} (hp : p ∈ ps) : ps[p.position.toNat]? = some p := by
  obtain ⟨i, hi⟩ := List.mem_iff_getElem?.1 hp
  rwa [h.numbered i p hi, Int.toNat_natCast]

theorem position_nonneg {p : Parameter} (hp : p ∈ ps) : 0 ≤ p.position := by
  obtain ⟨i, hi⟩ := List.mem_iff_getElem?.1 hp
  rw [h.numbered i p hi]
  omega

theorem ascends : ps.Pairwise fun p q => p.position < q.position := by
  rw [List.pairwise_iff_getElem]
  intro i j hi hj hij
  rw [h.numbered i ps[i] (List.getElem?_eq_getElem hi),
    h.numbered j ps[j] (List.getElem?_eq_getElem hj)]
  omega

theorem beq_self {p : Parameter} (hp : p ∈ ps) : (p.name == p.name) = true :=
  Value.beq_self_of_text (h.texts p hp)

theorem paramAt? {p : Parameter} (hp : p ∈ ps) :
    Schema.paramAt? (ps.map (·.name)) p.position = some p.name := by
  have hpos := h.position_nonneg hp
  rw [Schema.paramAt?, if_neg (by omega), List.getElem?_map, h.mem_numbered hp]
  rfl

theorem hybrids_ascend (name : Value) :
    ((Schema.listing name ps).hybrids.keys).Pairwise (· < ·) := by
  rw [Table.keys, List.pairwise_map, Schema.listing, List.pairwise_filterMap]
  refine h.ascends.imp fun {p q} hpq e he f hf => ?_
  rw [← (Schema.bagOf?_eq_some_iff.1 he).2, ← (Schema.bagOf?_eq_some_iff.1 hf).2]
  exact hpq

theorem checkTables (name : Value) : (Schema.listing name ps).checkTables = .ok () := by
  have hashable := Schema.hashable_of_texts h.texts
  refine Schema.checkTables_of_coherent hashable
    (fun v hv => hashable v ((List.filter_sublist.map _).subset hv))
    (Schema.hasDuplicates_eq_false_iff.2 h.apart) (Schema.undeclared_of_texts h.texts) ?_ ?_
  · refine List.find?_eq_none.2 fun i hi => ?_
    obtain ⟨e, he, rfl⟩ := List.mem_map.1 hi
    obtain ⟨p, hp, -, hpos⟩ := Schema.mem_hybrids.1 he
    simp [Schema.listing, ← hpos, h.paramAt? hp]
  · refine List.filter_eq_nil_iff.2 fun e he => ?_
    obtain ⟨p, hp, rfl⟩ := List.mem_map.1 he
    simp [h.paramAt? hp, h.beq_self hp, Schema.listing]

theorem ofParameters (name : Value) : Schema.ofParameters name ps = .ok (Schema.listing name ps) := by
  have positions : Table.Apart ((ps.filterMap Schema.bagOf?).map Prod.fst) := by
    refine (h.hybrids_ascend name).imp fun {i j} hij => ?_
    simp only [beq_eq_false_iff_ne]
    omega
  have names {α : Type} (f : Parameter → α) :
      Table.ofList (ps.map fun p => (p.name, f p)) = ⟨ps.map fun p => (p.name, f p)⟩ := by
    refine Table.ofList_of_apart ?_
    rw [List.map_map]
    exact h.apart
  show Schema.ofTables name _ _ (.ofList (ps.map fun p => (p.name, p.expected)))
    (.ofList (ps.map fun p => (p.name, p.position))) (.ofList (ps.filterMap Schema.bagOf?)) = _
  rw [names, names, Table.ofList_of_apart positions]
  show (Schema.listing name ps).checkTables >>= _ = _
  rw [h.checkTables]
  rfl

theorem types_get? {name k : Value} {p : Parameter} (hp : p ∈ ps) (hk : (k == p.name) = true) :
    (Schema.listing name ps).types.get? k = some p.expected := by
  refine Table.get?_of_mem ?_ (List.mem_map_of_mem hp) hk
  show Table.Apart ((ps.map fun p => (p.name, p.expected)).map Prod.fst)
  rw [List.map_map]
  exact h.apart

end Listed

namespace Schema

theorem isDeclared_listing_iff {name k : Value} {ps : List Parameter} :
    (listing name ps).isDeclared k = true ↔ ∃ p ∈ ps, (k == p.name) = true := by
  rw [isDeclared, Table.contains_iff]
  constructor
  · rintro ⟨k', hk', hk⟩
    obtain ⟨e, he, rfl⟩ := List.mem_map.1 hk'
    obtain ⟨p, hp, rfl⟩ := List.mem_map.1 he
    exact ⟨p, hp, hk⟩
  · rintro ⟨p, hp, hk⟩
    exact ⟨p.name, List.mem_map_of_mem (f := Prod.fst) (List.mem_map_of_mem hp), hk⟩

theorem reports_duplicates {name : Value} {ps : List Parameter}
    (texts : ∀ p ∈ ps, p.name.text?.isSome) (h : ¬ Table.Apart (ps.map (·.name))) :
    Reports (some (.malformed [name])) (ofParameters name ps) := by
  have hashable : (ps.map (·.name)).forM Value.requireHashable = .ok () :=
    forM_eq_ok (hashable_of_texts texts)
  have duplicates : hasDuplicates (ps.map (·.name)) = true := by
    rwa [← hasDuplicates_eq_false_iff, Bool.not_eq_false] at h
  have refused : Reports (some (.malformed [name])) (name.display >>= fun shown =>
      (refuse ("Duplicate parameter names in " ++ shown) : Except Failure Unit)) :=
    Reports.throwing (.display name) fun shown => ⟨_, _, _, rfl⟩
  refine Reports.stop ?_
  rw [checkTables, hashable, duplicates, if_pos rfl]
  show Reports _ (name.display >>= fun shown => refuse _ >>= fun _ => _)
  rw [← bind_assoc]
  exact refused.stop

end Schema

end CallContract
