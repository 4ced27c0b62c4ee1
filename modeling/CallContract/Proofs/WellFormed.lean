import CallContract.Proofs.Compilation

/-!
# Well-formed specifications

What a specification has to be, apart from how it is read: a mapping from texts to declarations,
which are classes, tags in letters of any case and with a marker in front or not, and mappings that
are specifications themselves, down to the second level (`WellFormed`). Nothing is found in the
entries of exactly these mappings (`findDeep_eq_none_iff`).
-/

namespace CallContract

theorem Tag.ofName?_eq_some_iff {s : String} {t : Tag} : Tag.ofName? s = some t ↔ s = t.name := by
  constructor
  · intro h
    have named := List.find?_some (p := fun t : Tag => t.name == s) h
    exact (eq_of_beq named).symm
  · rintro rfl
    exact Tag.ofName?_name t

namespace Specification

/-- The text spells the tag in letters of any case, behind the marker if it marks the parameter
required. -/
def Spells (s : String) (t : Tag) (required : Bool) : Prop :=
  ∃ cs, s.toList = (if required then requiredMarker :: cs else cs) ∧
    cs.map Char.toLower = t.name.toList

theorem head_ne_marker {t : Tag} {c : Char} {cs : List Char}
    (h : (c :: cs).map Char.toLower = t.name.toList) : c ≠ requiredMarker := by
  rintro rfl
  cases t <;> cases h

theorem readTag?_eq_some_iff {s : String} {t : Tag} {required : Bool} :
    readTag? s = some (t, required) ↔ Spells s t required := by
  have lower (cs : List Char) : Tag.ofName? (String.ofList (cs.map Char.toLower)) = some t ↔
      cs.map Char.toLower = t.name.toList := by
    rw [Tag.ofName?_eq_some_iff, ← String.toList_inj, String.toList_ofList]
  rw [readTag?, Spells]
  cases s.toList with
  | nil =>
    refine ⟨nofun, fun ⟨cs, hs, hcs⟩ => ?_⟩
    cases required with
    | true => cases hs
    | false =>
      obtain rfl : [] = cs := hs
      cases t <;> cases hcs
  | cons c cs =>
    dsimp only
    split
    next hc =>
      rw [Option.map_eq_some_iff]
      constructor
      · rintro ⟨u, hu, heq⟩
        cases heq
        exact ⟨cs, by rw [hc]; rfl, (lower cs).1 hu⟩
      · rintro ⟨cs', hs, hcs⟩
        cases required with
        | true =>
          obtain ⟨-, rfl⟩ := List.cons.inj hs
          exact ⟨t, (lower cs).2 hcs, rfl⟩
        | false =>
          obtain rfl : c :: cs = cs' := hs
          exact absurd hc (head_ne_marker hcs)
    next hc =>
      rw [Option.map_eq_some_iff]
      constructor
      · rintro ⟨u, hu, heq⟩
        cases heq
        exact ⟨c :: cs, rfl, (lower (c :: cs)).1 hu⟩
      · rintro ⟨cs', hs, hcs⟩
        cases required with
        | true => exact absurd (List.cons.inj hs).1 hc
        | false =>
          obtain rfl : c :: cs = cs' := hs
          exact ⟨t, (lower (c :: cs)).2 hcs, rfl⟩

/-- A class or a tag. -/
def IsPlain (declared : Value) : Prop :=
  (∃ c, declared = .cls c) ∨ ∃ s t required, declared.text? = some s ∧ Spells s t required

/-- A mapping inside a destructured argument only declares an object. -/
def IsFlatDeclaration (declared : Value) : Prop := IsPlain declared ∨ declared.entries?.isSome

/-- Entries of a mapping with texts as its keys, no two of which are equal, and with values of the
kind `P`. -/
structure WellFormedEntries (P : Value → Prop) (entries : List (Value × Value)) : Prop where
  texts : ∀ e ∈ entries, e.1.text?.isSome
  declared : ∀ e ∈ entries, P e.2
  apart : Table.Apart (entries.map Prod.fst)

def IsDeclaration (declared : Value) : Prop :=
  IsPlain declared ∨
    ∃ entries, declared.entries? = some entries ∧ WellFormedEntries IsFlatDeclaration entries

def WellFormed (spec : Value) : Prop :=
  ∃ entries, spec.entries? = some entries ∧ WellFormedEntries IsDeclaration entries

section
variable {label name declared : Value}

theorem findInDeclaration_eq_none_iff {findNested : List (Value × Value) → Option Finding} :
    findInDeclaration label name declared findNested = none ↔ IsPlain declared ∨
      ∃ entries, declared.entries? = some entries ∧ findNested entries = none := by
  have text (s : String) : (if (readTag? s).isSome then none
      else some (Finding.malformed [name, label])) = none ↔ ∃ t required, Spells s t required := by
    simp only [← readTag?_eq_some_iff]
    cases readTag? s with
    | none => simp
    | some tag => exact ⟨fun _ => ⟨tag.1, tag.2, rfl⟩, fun _ => rfl⟩
  cases declared with
  | mapping kind entries => simp [findInDeclaration, IsPlain, Value.entries?, Value.text?]
  | str s | text s => simpa [findInDeclaration, IsPlain, Value.entries?, Value.text?] using text s
  | cls c => simp [findInDeclaration, IsPlain]
  | _ => simp [findInDeclaration, IsPlain, Value.entries?, Value.text?]

theorem findInEntries_eq_none_iff {findNested : Nat → List (Value × Value) → Option Finding}
    {P : Value → Prop} (h : ∀ i declared, (IsPlain declared ∨ ∃ entries,
      declared.entries? = some entries ∧ findNested i entries = none) ↔ P declared)
    {entries : List (Value × Value)} :
    findInEntries label findNested entries = none ↔ WellFormedEntries P entries := by
  have entry (e : Value × Value) (i : Nat) : findInEntry label findNested (e, i) = none ↔
      e.1.text?.isSome ∧ P e.2 := by
    rw [findInEntry, ← h i e.2]
    cases he : e.1.text? with
    | none => simp
    | some s => simp [findInDeclaration_eq_none_iff]
  have distinct : (if Schema.hasDuplicates (entries.map Prod.fst) then
      some (Finding.malformed [label]) else none) = none ↔
      Table.Apart (entries.map Prod.fst) := by
    rw [← Schema.hasDuplicates_eq_false_iff]
    simp
  have all : entries.zipIdx.findSome? (findInEntry label findNested) = none ↔
      ∀ e ∈ entries, e.1.text?.isSome ∧ P e.2 := by
    rw [List.findSome?_eq_none_iff]
    constructor
    · intro hall e he
      obtain ⟨i, hi⟩ := List.mem_iff_getElem?.1 he
      exact (entry e i).1 (hall (e, i) (List.mk_mem_zipIdx_iff_getElem?.2 hi))
    · rintro hall ⟨e, i⟩ he
      exact (entry e i).2 (hall e (List.mem_of_getElem? (List.mk_mem_zipIdx_iff_getElem?.1 he)))
  rw [findInEntries, Option.or_eq_none_iff, all, distinct]
  constructor
  · rintro ⟨hall, apart⟩
    exact ⟨fun e he => (hall e he).1, fun e he => (hall e he).2, apart⟩
  · intro wf
    exact ⟨fun e he => ⟨wf.texts e he, wf.declared e he⟩, wf.apart⟩

end

theorem findFlat_eq_none_iff {label : Value} {entries : List (Value × Value)} :
    findFlat label entries = none ↔ WellFormedEntries IsFlatDeclaration entries := by
  refine findInEntries_eq_none_iff fun i declared => or_congr_right ?_
  simp [Option.isSome_iff_exists]

theorem findDeep_eq_none_iff {label : Value} {labelText : String} {entries : List (Value × Value)} :
    findDeep label labelText entries = none ↔ WellFormedEntries IsDeclaration entries := by
  refine findInEntries_eq_none_iff fun i declared => or_congr_right ?_
  simp only [findFlat_eq_none_iff]

end Specification

end CallContract
