import CallContract.Proofs.Coherence

/-!
# Places of parameters

A list of parameters need not be in order: two of them can have one name, and a parameter can be
numbered by the place of another one or by none. In the tables that are written from such a list one
parameter hides another, and the constructor sees only the tables. Still it refuses every such list
with a configuration error, and makes a schema of all others (`Schema.made_iff_placed`). The tables
of that schema are those of the parameters, place by place (`Schema.Reflects`).
-/

namespace CallContract

namespace Schema

/-- The tables of the schema are those of the parameters, place by place. -/
structure Reflects (s : Schema) (name : Value) (ps : List Parameter) : Prop where
  name : s.name = name
  params : s.params = ps.map (·.name)
  required : s.required = (ps.filter (·.required)).map (·.name)
  types : s.types.entries = ps.map fun p => (p.name, p.expected)
  expected : ∀ p ∈ ps, s.types.get? p.name = some p.expected
  /-- The table of positions is the inverse of the parameter list. -/
  positions : ∀ key i, s.positions.get? key = some i ↔
    ∃ param, paramAt? s.params i = some param ∧ (key == param) = true
  hybrids : ∀ i t, s.hybrids.get? i = some t ↔
    ∃ (k : Nat) (p : Parameter), i = k ∧ ps[k]? = some p ∧ p.expected = .bag t

theorem checkTables_refuses {s : Schema} {text : String} (hname : s.name.display = .ok text)
    (hparams : ∀ v ∈ s.params, v.requireHashable = .ok ())
    (hrequired : ∀ v ∈ s.required, v.requireHashable = .ok ())
    (distinct : hasDuplicates s.params = false) (declared : undeclared s.params s.required = [])
    (h : (strayHybrid? s.params s.hybrids).isSome ∨ misplaced s.params s.positions ≠ []) :
    ∃ message, s.checkTables = refuse message := by
  simp only [checkTables, forM_eq_ok hparams, forM_eq_ok hrequired, distinct, declared, hname]
  cases hstray : strayHybrid? s.params s.hybrids with
  | some index => exact ⟨_, rfl⟩
  | none =>
    have found := h.resolve_left (by simp [hstray])
    simp only [List.isEmpty_eq_false_iff.2 found]
    exact ⟨_, rfl⟩

end Schema

namespace Listed

variable {ps : List Parameter} (h : Listed ps)
include h

theorem positions_get?_iff {name key : Value} {i : Int} :
    (Schema.listing name ps).positions.get? key = some i ↔
      ∃ param, Schema.paramAt? (ps.map (·.name)) i = some param ∧ (key == param) = true := by
  constructor
  · intro hi
    obtain ⟨e, he, hkey, rfl⟩ := Table.mem_of_get? hi
    obtain ⟨p, hp, rfl⟩ := List.mem_map.1 he
    exact ⟨p.name, h.paramAt? hp, hkey⟩
  · rintro ⟨param, hat, hkey⟩
    obtain ⟨n, rfl, hn⟩ := Specification.paramAt?_eq_some_iff.1 hat
    rw [List.getElem?_map] at hn
    obtain ⟨p, hp, rfl⟩ := Option.map_eq_some_iff.1 hn
    have hmem := List.mem_of_getElem? hp
    rw [← h.numbered n p hp]
    refine Table.get?_of_mem ?_ (List.mem_map_of_mem (f := fun q => (q.name, q.position)) hmem) hkey
    show Table.Apart ((ps.map fun p => (p.name, p.position)).map Prod.fst)
    rw [List.map_map]
    exact h.apart

theorem hybrids_get?_iff {name : Value} {i : Int} {t : Schema} :
    (Schema.listing name ps).hybrids.get? i = some t ↔
      ∃ (k : Nat) (p : Parameter), i = k ∧ ps[k]? = some p ∧ p.expected = .bag t := by
  constructor
  · intro ht
    obtain ⟨e, he, hi, rfl⟩ := Table.mem_of_get? ht
    obtain rfl := eq_of_beq hi
    obtain ⟨p, hp, hbag, hpos⟩ := Schema.mem_hybrids.1 he
    obtain ⟨k, hk⟩ := List.mem_iff_getElem?.1 hp
    exact ⟨k, p, by rw [← hpos, h.numbered k p hk], hk, hbag⟩
  · rintro ⟨k, p, rfl, hk, hbag⟩
    have he : ((k : Int), t) ∈ (Schema.listing name ps).hybrids.entries :=
      Schema.mem_hybrids.2 ⟨p, List.mem_of_getElem? hk, hbag, h.numbered k p hk⟩
    exact Table.get?_of_mem (apart_of_ascends (h.hybrids_ascend name)) he (by simp)

theorem reflects (name : Value) : (Schema.listing name ps).Reflects name ps where
  name := rfl
  params := rfl
  required := rfl
  types := rfl
  expected _ hp := h.types_get? hp (h.beq_self hp)
  positions _ _ := h.positions_get?_iff
  hybrids _ _ := h.hybrids_get?_iff

end Listed

namespace Schema

variable {name : Value} {ps : List Parameter}

/-- Where no two names are equal, no parameter hides another, and each one that is numbered by
another place than its own is found to be misplaced. -/
theorem numbered_of_misplaced_nil (apart : Table.Apart (ps.map (·.name)))
    (h : misplaced (ps.map (·.name)) (.ofList (ps.map fun p => (p.name, p.position))) = [])
    {i : Nat} {p : Parameter} (hi : ps[i]? = some p) : p.position = i := by
  have written : Table.ofList (ps.map fun p => (p.name, p.position)) =
      ⟨ps.map fun p => (p.name, p.position)⟩ := by
    refine Table.ofList_of_apart ?_
    rw [List.map_map]
    exact apart
  have hmem : (p.name, p.position) ∈ ps.map fun p => (p.name, p.position) :=
    List.mem_map_of_mem (List.mem_of_getElem? hi)
  rw [written] at h
  have placed := List.filter_eq_nil_iff.1 h _ hmem
  rw [Bool.not_eq_true', Bool.not_eq_false, Option.any_eq_true] at placed
  obtain ⟨param, hat, same⟩ := placed
  obtain ⟨n, hn, hparam⟩ := Specification.paramAt?_eq_some_iff.1 hat
  have hname : (ps.map (·.name))[i]? = some p.name := by rw [List.getElem?_map, hi]; rfl
  rw [hn, apart.index_unique hname hparam same]

theorem ofTables_of_refused {params required : List Value} {types : Table Value Expected}
    {positions : Table Value Int} {hybrids : Table Int Schema} {message : String}
    (h : checkTables ⟨name, params, required, types, positions, hybrids⟩ = refuse message) :
    ofTables name params required types positions hybrids = refuse message := by
  rw [ofTables, h]
  rfl

section
variable (hname : name.text?.isSome) (texts : ∀ p ∈ ps, p.name.text?.isSome)
include hname texts

theorem refused_of_duplicates (h : ¬ Table.Apart (ps.map (·.name))) :
    ∃ message, ofParameters name ps = refuse message := by
  have htext := Compiler.IsLabel.display (.inl hname)
  have duplicates : hasDuplicates (ps.map (·.name)) = true := by
    rwa [← hasDuplicates_eq_false_iff, Bool.not_eq_false] at h
  refine ⟨"Duplicate parameter names in " ++ name.shownText, ofTables_of_refused ?_⟩
  simp only [checkTables, forM_eq_ok (hashable_of_texts texts), duplicates, htext]
  rfl

theorem refused_of_misplaced (apart : Table.Apart (ps.map (·.name)))
    (h : misplaced (ps.map (·.name)) (.ofList (ps.map fun p => (p.name, p.position))) ≠ []) :
    ∃ message, ofParameters name ps = refuse message := by
  have htext := Compiler.IsLabel.display (.inl hname)
  have hashable := hashable_of_texts texts
  have required : ∀ v ∈ (ps.filter (·.required)).map (·.name), v.requireHashable = .ok () :=
    fun v hv => hashable v ((List.filter_sublist.map _).subset hv)
  obtain ⟨message, hcheck⟩ := checkTables_refuses (s := ⟨name, ps.map (·.name),
    (ps.filter (·.required)).map (·.name), .ofList (ps.map fun p => (p.name, p.expected)),
    .ofList (ps.map fun p => (p.name, p.position)), .ofList (ps.filterMap bagOf?)⟩) htext hashable
    required (hasDuplicates_eq_false_iff.2 apart) (undeclared_of_texts texts) (.inr h)
  exact ⟨message, ofTables_of_refused hcheck⟩

theorem listed_or_refused : Listed ps ∨ ∃ message, ofParameters name ps = refuse message := by
  by_cases apart : Table.Apart (ps.map (·.name))
  · by_cases placed : misplaced (ps.map (·.name))
        (.ofList (ps.map fun p => (p.name, p.position))) = []
    · exact .inl ⟨fun _ _ => numbered_of_misplaced_nil apart placed, texts, apart⟩
    · exact .inr (refused_of_misplaced hname texts apart placed)
  · exact .inr (refused_of_duplicates hname texts apart)

end

/-- Of parameters under texts a schema is made exactly if no two have one name and each one is
numbered by its place; others are refused with a configuration error. The tables of the schema are
those of the parameters. -/
theorem made_iff_placed (hname : name.text?.isSome) (texts : ∀ p ∈ ps, p.name.text?.isSome) :
    ((∃ s, ofParameters name ps = .ok s) ↔
      Table.Apart (ps.map (·.name)) ∧
        ∀ (i : Nat) (p : Parameter), ps[i]? = some p → p.position = i) ∧
    ((∀ s, ofParameters name ps ≠ .ok s) → ∃ message, ofParameters name ps = refuse message) ∧
    ∀ s, ofParameters name ps = .ok s → s.Reflects name ps := by
  have made {s : Schema} (hs : ofParameters name ps = .ok s) : Listed ps := by
    rcases listed_or_refused hname texts with listed | ⟨message, hrefused⟩
    · exact listed
    · rw [hs] at hrefused
      cases hrefused
  refine ⟨⟨?_, ?_⟩, fun unmade => ?_, fun s hs => ?_⟩
  · rintro ⟨s, hs⟩
    exact ⟨(made hs).apart, (made hs).numbered⟩
  · rintro ⟨apart, numbered⟩
    exact ⟨_, Listed.ofParameters ⟨numbered, texts, apart⟩ name⟩
  · rcases listed_or_refused hname texts with listed | refused
    · exact absurd (listed.ofParameters name) (unmade _)
    · exact refused
  · have listed := made hs
    rw [listed.ofParameters] at hs
    obtain rfl := Except.ok.inj hs
    exact listed.reflects name

/-- A required parameter and a destructured one, in their places and each in that of the other. -/
theorem made_iff_placed_of_two : ∃ nested s : Schema,
    ofParameters (.str "S") [⟨.str "a", 0, .wildcard, true⟩, ⟨.str "o", 1, .bag nested, false⟩] =
      .ok s ∧ s.required = [.str "a"] ∧ s.positions.get? (.text "o") = some 1 ∧
      s.hybrids.get? 1 = some nested ∧ s.hybrids.get? 0 = none ∧
    ∃ message, ofParameters (.str "S")
      [⟨.str "a", 1, .wildcard, true⟩, ⟨.str "o", 0, .bag nested, false⟩] = refuse message := by
  let nested := listing (.str "T") []
  have named (i j : Int) : ∀ p ∈ ([⟨.str "a", i, .wildcard, true⟩, ⟨.str "o", j, .bag nested, false⟩] :
      List Parameter), p.name.text?.isSome :=
    List.forall_mem_cons.2 ⟨rfl, List.forall_mem_singleton.2 rfl⟩
  have label : (Value.str "S").text?.isSome := rfl
  obtain ⟨made, -, reflects⟩ := made_iff_placed label (named 0 1)
  obtain ⟨swapped, refused, -⟩ := made_iff_placed label (named 1 0)
  have numbered : ∀ (i : Nat) (p : Parameter),
      [⟨.str "a", 0, .wildcard, true⟩, ⟨.str "o", 1, .bag nested, false⟩][i]? = some p →
        p.position = i := by
    rintro (_ | _ | i) p hi
    · cases hi
      rfl
    · cases hi
      rfl
    · cases hi
  obtain ⟨s, hs⟩ := made.2 ⟨hasDuplicates_eq_false_iff.1 rfl, numbered⟩
  have tables := reflects s hs
  refine ⟨nested, s, hs, tables.required, ?_, ?_, ?_, refused fun t ht => ?_⟩
  · rw [tables.positions, tables.params]
    exact ⟨.str "o", rfl, rfl⟩
  · exact (tables.hybrids 1 nested).2 ⟨1, _, rfl, rfl, rfl⟩
  · refine Option.eq_none_iff_forall_ne_some.2 fun t ht => ?_
    obtain ⟨k, p, hk, hp, hbag⟩ := (tables.hybrids 0 t).1 ht
    obtain rfl : k = 0 := by omega
    cases hp
    cases hbag
  · have misplaced := (swapped.1 ⟨t, ht⟩).2 0 _ rfl
    cases misplaced

end Schema

end CallContract
