import CallContract.Proofs.Decision
import Mathlib.Data.List.Forall2

/-!
# Null and `undefined`

Both stand for no value, but not alike. Among positional values the two can take each other's place
(`Compiler.validate_of_swapped`), and what has been accepted stays so with null in place of its
values (`Compiler.validate_of_nulled`), with fewer values as long as the required ones are there
(`Compiler.validate_of_take`), and with more of them that are null or `undefined`
(`Compiler.validate_of_padded`). Under a name `undefined` is never accepted
(`Compiler.refuses_undefined_name`, `Compiler.refuses_undefined_field`).

`Option.Rel` relates what stands in one place or under one name before and after a replacement
(`Placewise`, `Table.Entrywise.get?`), so that places and names are treated alike.
-/

namespace CallContract

namespace Table

variable {κ α : Type} {R : α → α → Prop}

/-- The same keys in the same order, with related values. -/
def Entrywise (R : α → α → Prop) : List (κ × α) → List (κ × α) → Prop :=
  List.Forall₂ fun e e' => e'.1 = e.1 ∧ R e.2 e'.2

section
variable {es es' : List (κ × α)} (h : Entrywise R es es')
include h

theorem Entrywise.keys_eq : es'.map Prod.fst = es.map Prod.fst := by
  induction h with
  | nil => rfl
  | cons he _ ih => rw [List.map_cons, List.map_cons, he.1, ih]

variable [BEq κ]

theorem Entrywise.get? (k : κ) :
    Option.Rel R ((⟨es⟩ : Table κ α).get? k) ((⟨es'⟩ : Table κ α).get? k) := by
  induction h with
  | nil => exact .none
  | cons he _ ih =>
    rw [get?_cons, get?_cons, he.1]
    split
    · exact .some he.2
    · exact ih

theorem Entrywise.insertEntry (k : κ) {v v' : α} (hv : R v v') :
    Entrywise R (insertEntry es k v) (insertEntry es' k v') := by
  induction h with
  | nil => exact .cons ⟨rfl, hv⟩ .nil
  | cons he hes ih =>
    rw [Table.insertEntry, Table.insertEntry, he.1]
    split
    · exact .cons ⟨rfl, hv⟩ hes
    · exact .cons ⟨rfl, he.2⟩ ih

theorem Entrywise.insertMany {t t' : Table κ α} (ht : Entrywise R t.entries t'.entries) :
    Entrywise R (t.insertMany es).entries (t'.insertMany es').entries := by
  induction h generalizing t t' with
  | nil => exact ht
  | cons he _ ih =>
    rw [insertMany_cons, insertMany_cons, he.1]
    exact ih (ht.insertEntry _ he.2)

theorem Entrywise.ofList : Entrywise R (ofList es).entries (ofList es').entries :=
  h.insertMany (t := empty) .nil

end

end Table

namespace Value

/-- The same value, or null and `undefined` in place of each other. -/
inductive Swapped : Value → Value → Prop where
  | same (v : Value) : Swapped v v
  | undefined : Swapped .null .undefined
  | null : Swapped .undefined .null

/-- The same value, or null in its place. -/
def Nulled (v v' : Value) : Prop := v' = v ∨ v' = .null

/-- The same value, or the same mapping with null in place of some of its values. -/
inductive FieldsNulled : Value → Value → Prop where
  | same (v : Value) : FieldsNulled v v
  | fields (kind : MappingKind) {es es' : List (Value × Value)} (h : Table.Entrywise Nulled es es') :
    FieldsNulled (.mapping kind es) (.mapping kind es')

theorem not_isThere_iff {v : Value} : ¬ v.IsThere ↔ v = .null ∨ v = .undefined := by
  rw [IsThere, not_and_or, not_not, not_not]

theorem FieldsNulled.fragment? {v v' : Value} (h : FieldsNulled v v') :
    Option.Rel (Table.Entrywise Nulled) v.fragment? v'.fragment? := by
  cases h with
  | same =>
    cases v.fragment? with
    | none => exact .none
    | some es => exact .some (List.forall₂_same.2 fun e _ => ⟨rfl, .inl rfl⟩)
  | fields kind h => exact .some h

end Value

section
variable {α : Type} {R : α → α → Prop} {o o' : Option α}

theorem related_getD (h : Option.Rel R o o') {a : α} (ha : R a a) : R (o.getD a) (o'.getD a) := by
  cases h with
  | none => exact ha
  | some h => exact h

theorem related_isSome (h : Option.Rel R o o') : o'.isSome = o.isSome := by
  cases h <;> rfl

theorem related_of_some {a : α} (h : Option.Rel R (some a) o') : ∃ a', o' = some a' ∧ R a a' := by
  cases h with
  | some h => exact ⟨_, rfl, h⟩

end

/-- As many values, related in each place. -/
def Placewise (R : Nat → Value → Value → Prop) (vs vs' : List Value) : Prop :=
  ∀ i : Nat, Option.Rel (R i) vs[i]? vs'[i]?

theorem Placewise.nil {R : Nat → Value → Value → Prop} : Placewise R [] [] := fun _ => .none

theorem Placewise.cons {R : Nat → Value → Value → Prop} {v v' : Value} {vs vs' : List Value}
    (hv : R 0 v v') (h : Placewise (fun i => R (i + 1)) vs vs') : Placewise R (v :: vs) (v' :: vs')
  | 0 => .some hv
  | i + 1 => h i

theorem Placewise.length_eq {R : Nat → Value → Value → Prop} {vs vs' : List Value}
    (h : Placewise R vs vs') : vs'.length = vs.length := by
  have within (i : Nat) : i < vs'.length ↔ i < vs.length := by
    have same := related_isSome (h i)
    rw [Bool.eq_iff_iff] at same
    simpa using same
  have here := within vs.length
  have there := within vs'.length
  omega

namespace Schema

open Value

variable {s : Schema} {vs vs' : List Value}

theorem checkParam_swapped {supplied supplied' : Payload} {name : Value}
    (h : Option.Rel Swapped (supplied.get? name) (supplied'.get? name)) (checkBags : Bool) :
    s.checkParam supplied' false checkBags name = s.checkParam supplied false checkBags name := by
  rw [checkParam, checkParam]
  generalize supplied.get? name = o at h
  generalize supplied'.get? name = o' at h
  cases h with
  | none => rfl
  | some h => cases h <;> rfl

theorem validateBag_swapped (h : Placewise (fun _ => Swapped) vs vs') (entry : Int × Schema) :
    s.validateBag vs' entry = s.validateBag vs entry := by
  have here := related_getD (h entry.1.toNat) (Swapped.same .undefined)
  rw [validateBag, validateBag]
  generalize vs[entry.1.toNat]?.getD .undefined = v at here
  generalize vs'[entry.1.toNat]?.getD .undefined = v' at here
  cases here <;> rfl

theorem Compiled.checkValues_swapped {label : Value} {labelText : String}
    (compiled : s.Compiled label labelText) (h : Placewise (fun _ => Swapped) vs vs')
    (checkBags : Bool) : s.checkValues vs' checkBags = s.checkValues vs checkBags := by
  have length : vs'.length = vs.length := h.length_eq
  have required : s.checkRequired (Arguments.pair s vs') = s.checkRequired (Arguments.pair s vs) := by
    refine checkRequired_congr fun name hname => ?_
    obtain ⟨i, hi⟩ := compiled.place_of_required hname
    rw [compiled.contains_pair hi, compiled.contains_pair hi, length]
  have types : s.checkTypes (Arguments.pair s vs') false checkBags =
      s.checkTypes (Arguments.pair s vs) false checkBags := by
    refine forM_congr fun name hname => ?_
    obtain ⟨i, hi⟩ := List.mem_iff_getElem?.1 hname
    refine checkParam_swapped ?_ checkBags
    rw [compiled.get?_pair hi, compiled.get?_pair hi]
    exact h i
  rw [checkValues, checkValues, required, typecheck, typecheck, types, length]
  rfl

end Schema

namespace Specification

open Value

/-- What may stand in place of a value of hybrid arguments once values have been replaced by null: in
place of a destructured mapping the mapping itself, apart from its fields. -/
def NulledAt (entries : List (Value × Value)) (i : Nat) : Value → Value → Prop :=
  match entries[i]?.bind fun e => e.2.entries? with
  | some _ => FieldsNulled
  | none => Nulled

/-- The arguments are the same apart from values that have been replaced by null. -/
def ArgumentsNulled (entries : List (Value × Value)) (c : Convention) (p p' : Value) : Prop :=
  match c with
  | .named => ∃ fs fs', p.fragments? = some fs ∧ p'.fragments? = some fs' ∧
      List.Forall₂ FieldsNulled fs fs'
  | .positional => ∃ vs vs', p.sequence? = some vs ∧ p'.sequence? = some vs' ∧
      Placewise (fun _ => Nulled) vs vs'
  | .hybrid => ∃ vs vs', p.sequence? = some vs ∧ p'.sequence? = some vs' ∧
      Placewise (NulledAt entries) vs vs'

section
variable {mappingFits : Value → Prop} {entries fields : List (Value × Value)}

theorem Takes.of_nulled {undefinedPasses : Bool} {declared : Value} {v? v'? : Option Value}
    (h : Takes mappingFits undefinedPasses declared v?) (hv : Option.Rel Nulled v? v'?) :
    Takes mappingFits undefinedPasses declared v'? := by
  cases hv with
  | none => exact h
  | some hv =>
    rcases hv with rfl | rfl
    · exact h
    · exact trivial

theorem takes_unlooked {declared : Value} (h : declared.entries? = some fields) (v : Value) :
    Takes (FitsBag false) true declared (some v) := by
  rcases v.null_or_undefined_or_there with rfl | rfl | hthere
  · exact trivial
  · rfl
  · rw [takes_of_there hthere, fits_mapping h]
    exact nofun

theorem AcceptsNames.of_nulled {t t' : Payload} (h : AcceptsNames mappingFits entries t)
    (ht : Table.Entrywise Nulled t.entries t'.entries) : AcceptsNames mappingFits entries t' where
  takes e he := (h.takes e he).of_nulled (ht.get? e.1)
  declared k hk := by
    rw [Table.keys, ht.keys_eq] at hk
    exact h.declared k hk

theorem AcceptsBag.of_nulled {v v' : Value} (h : AcceptsBag fields v) (hv : FieldsNulled v v') :
    AcceptsBag fields v' := by
  obtain ⟨es, hes, accepts⟩ := h
  have related := hv.fragment?
  rw [hes] at related
  obtain ⟨es', hes', nulled⟩ := related_of_some related
  exact ⟨es', hes', accepts.of_nulled nulled.ofList⟩

section
variable {fs fs' : List Value} (h : List.Forall₂ FieldsNulled fs fs')
include h

theorem fragments_of_nulled (fragments : ∀ v ∈ fs, v.fragment?.isSome) :
    ∀ v ∈ fs', v.fragment?.isSome := by
  induction h with
  | nil => exact nofun
  | cons hv _ ih =>
    obtain ⟨hfragment, rest⟩ := List.forall_mem_cons.1 fragments
    refine List.forall_mem_cons.2 ⟨?_, ih rest⟩
    rwa [related_isSome hv.fragment?]

theorem merged_of_nulled :
    Table.Entrywise Nulled (Arguments.merged fs).entries (Arguments.merged fs').entries :=
  Table.Entrywise.ofList (List.rel_flatMap h fun _ _ hv => related_getD hv.fragment? .nil)

end

variable {vs vs' : List Value}

theorem AcceptsValues.of_nulled (h : AcceptsValues mappingFits entries vs)
    (hvs : Placewise (fun _ => Nulled) vs vs') : AcceptsValues mappingFits entries vs' where
  takes i e hi := (h.takes i e hi).of_nulled (hvs i)
  length_le := by
    rw [hvs.length_eq]
    exact h.length_le

section
variable (hvs : Placewise (NulledAt entries) vs vs')
include hvs

theorem AcceptsValues.of_nulledAt (h : AcceptsValues (FitsBag false) entries vs) :
    AcceptsValues (FitsBag false) entries vs' where
  takes i e hi := by
    have here := hvs i
    have takes := h.takes i e hi
    rw [NulledAt, hi, Option.bind_some] at here
    cases hfields : e.2.entries? with
    | none =>
      rw [hfields] at here
      exact takes.of_nulled here
    | some fields =>
      generalize vs[i]? = v? at here takes
      generalize vs'[i]? = v'? at here ⊢
      cases here with
      | none => exact takes
      | some => exact takes_unlooked hfields _
  length_le := by
    rw [hvs.length_eq]
    exact h.length_le

theorem AcceptsBags.of_nulledAt (h : AcceptsBags entries vs) : AcceptsBags entries vs' := by
  intro i e hi fields hfields
  have here := hvs i
  rw [NulledAt, hi, Option.bind_some, hfields] at here
  exact (h i e hi fields hfields).of_nulled (related_getD here (.same .undefined))

end

theorem Accepts.of_nulled {c : Convention} {p p' : Value} (h : Accepts entries c p)
    (hp : ArgumentsNulled entries c p p') : Accepts entries c p' := by
  cases c with
  | named =>
    obtain ⟨fs, fs', hfs, hfs', nulled⟩ := hp
    obtain ⟨fragments, accepts⟩ := (accepts_named_iff hfs).1 h
    exact (accepts_named_iff hfs').2 ⟨fragments_of_nulled nulled fragments,
      accepts.of_nulled (merged_of_nulled nulled)⟩
  | positional =>
    obtain ⟨vs, vs', hvs, hvs', nulled⟩ := hp
    have accepts := (accepts_positional_iff hvs).1 h
    exact (accepts_positional_iff hvs').2 (accepts.of_nulled nulled)
  | hybrid =>
    obtain ⟨vs, vs', hvs, hvs', nulled⟩ := hp
    obtain ⟨accepts, bags⟩ := (accepts_hybrid_iff hvs).1 h
    exact (accepts_hybrid_iff hvs').2 ⟨accepts.of_nulledAt nulled, bags.of_nulledAt nulled⟩

theorem AcceptsValues.take (h : AcceptsValues mappingFits entries vs) {n : Nat}
    (covers : ∀ (i : Nat) (e : Value × Value), entries[i]? = some e → Marks e.2 → i < n) :
    AcceptsValues mappingFits entries (vs.take n) where
  takes i e hi := by
    rw [List.getElem?_take]
    split
    next => exact h.takes i e hi
    next hbehind => exact fun marked => hbehind (covers i e hi marked)
  length_le := by
    have le := h.length_le
    rw [List.length_take]
    omega

theorem AcceptsValues.pad (h : AcceptsValues mappingFits entries vs) {pads : List Value}
    (blank : ∀ v ∈ pads, ¬ v.IsThere) (hlen : vs.length + pads.length ≤ entries.length) :
    AcceptsValues mappingFits entries (vs ++ pads) where
  takes i e hi := by
    have takes := h.takes i e hi
    rw [List.getElem?_append]
    split
    next => exact takes
    next hbehind =>
      rw [List.getElem?_eq_none (Nat.le_of_not_lt hbehind)] at takes
      cases hv : pads[i - vs.length]? with
      | none => exact takes
      | some v =>
        rcases not_isThere_iff.1 (blank v (List.mem_of_getElem? hv)) with rfl | rfl
        · exact trivial
        · rfl
  length_le := by rwa [List.length_append]

theorem AcceptsNames.ne_undefined {t : Payload} (h : AcceptsNames mappingFits entries t)
    {e : Value × Value} (he : e ∈ entries) : t.get? e.1 ≠ some .undefined := by
  intro hget
  have takes := h.takes e he
  rw [hget] at takes
  cases takes

end

end Specification

namespace Compiler

open Value Specification

variable {spec label : Value} {s : Schema} (h : compile spec label = .ok s)
  {entries : List (Value × Value)} (hspec : spec.entries? = some entries)

section
include h

theorem validate_of_swapped {c : Convention} (hc : c ≠ .named) {p p' : Value} {vs vs' : List Value}
    (hvs : p.sequence? = some vs) (hvs' : p'.sequence? = some vs')
    (hp : p'.interruption? = p.interruption?)
    (swapped : Placewise (fun _ => Swapped) vs vs') : s.validate c p' = s.validate c p := by
  cases hwhy : p.interruption? with
  | some why =>
    rw [Schema.validate_of_interrupted hc hvs hwhy,
      Schema.validate_of_interrupted hc hvs' (hp.trans hwhy)]
  | none =>
    obtain ⟨-, compiled⟩ := compiled_of_compile h
    have bags : s.checkBagsOf c vs' = s.checkBagsOf c vs := by
      cases c with
      | hybrid => exact forM_congr fun entry _ => Schema.validateBag_swapped swapped entry
      | named | positional => rfl
    rw [Schema.validate_eq hc hwhy hvs, Schema.validate_eq hc (hp.trans hwhy) hvs',
      compiled.checkValues_swapped swapped, bags]

end

include h hspec

theorem validate_of_nulled {c : Convention} {p p' : Value} (hok : s.validate c p = .ok ())
    (nulled : ArgumentsNulled entries c p p') (hp' : p'.interruption? = none) :
    s.validate c p' = .ok () := by
  obtain ⟨-, accepts⟩ := (validate_eq_ok_iff h hspec).1 hok
  exact (validate_eq_ok_iff h hspec).2 ⟨hp', accepts.of_nulled nulled⟩

section
variable {p p' : Value} (hok : s.validate .positional p = .ok ()) {vs : List Value}
  (hvs : p.sequence? = some vs) (hp' : p'.interruption? = none)
include hok hvs hp'

theorem validate_of_take {n : Nat}
    (covers : ∀ (i : Nat) (e : Value × Value), entries[i]? = some e → Marks e.2 → i < n)
    (hvs' : p'.sequence? = some (vs.take n)) : s.validate .positional p' = .ok () := by
  obtain ⟨-, accepts⟩ := (validate_eq_ok_iff h hspec).1 hok
  rw [accepts_positional_iff hvs] at accepts
  rw [validate_eq_ok_iff h hspec, accepts_positional_iff hvs']
  exact ⟨hp', accepts.take covers⟩

theorem validate_of_padded {pads : List Value} (blank : ∀ v ∈ pads, ¬ v.IsThere)
    (hlen : vs.length + pads.length ≤ entries.length) (hvs' : p'.sequence? = some (vs ++ pads)) :
    s.validate .positional p' = .ok () := by
  obtain ⟨-, accepts⟩ := (validate_eq_ok_iff h hspec).1 hok
  rw [accepts_positional_iff hvs] at accepts
  rw [validate_eq_ok_iff h hspec, accepts_positional_iff hvs']
  exact ⟨hp', accepts.pad blank hlen⟩

end

theorem refuses_undefined_name {p : Value} {fs : List Value} (hfs : p.fragments? = some fs)
    {e : Value × Value} (he : e ∈ entries)
    (hundefined : (Arguments.merged fs).get? e.1 = some .undefined) :
    s.validate .named p ≠ .ok () := by
  intro hok
  obtain ⟨-, accepts⟩ := (validate_eq_ok_iff h hspec).1 hok
  obtain ⟨-, names⟩ := (accepts_named_iff hfs).1 accepts
  exact names.ne_undefined he hundefined

theorem refuses_undefined_field {p : Value} {vs : List Value} (hvs : p.sequence? = some vs) {i : Nat}
    {e f : Value × Value} (hi : entries[i]? = some e) {fields es : List (Value × Value)}
    (hfields : e.2.entries? = some fields) {bag : Value} (hbag : vs[i]? = some bag)
    (hes : bag.fragment? = some es) (hf : f ∈ fields)
    (hundefined : (Table.ofList es).get? f.1 = some .undefined) : s.validate .hybrid p ≠ .ok () := by
  intro hok
  obtain ⟨-, accepts⟩ := (validate_eq_ok_iff h hspec).1 hok
  obtain ⟨-, bags⟩ := (accepts_hybrid_iff hvs).1 accepts
  obtain ⟨es₀, hes₀, names⟩ := bags i e hi fields hfields
  rw [hbag, Option.getD_some] at hes₀
  obtain rfl := Option.some.inj (hes.symm.trans hes₀)
  exact names.ne_undefined hf hundefined

/-- What holds of null and `undefined` under each convention. -/
theorem null_laws :
    (∀ (c : Convention) (p p' : Value) (vs vs' : List Value), c ≠ .named →
      p.sequence? = some vs → p'.sequence? = some vs' → p'.interruption? = p.interruption? →
      Placewise (fun _ => Swapped) vs vs' → s.validate c p' = s.validate c p) ∧
    (∀ (c : Convention) (p p' : Value), s.validate c p = .ok () →
      ArgumentsNulled entries c p p' → p'.interruption? = none → s.validate c p' = .ok ()) ∧
    (∀ (p p' : Value) (vs : List Value) (n : Nat), s.validate .positional p = .ok () →
      p.sequence? = some vs → p'.interruption? = none → p'.sequence? = some (vs.take n) →
      (∀ (i : Nat) (e : Value × Value), entries[i]? = some e → Marks e.2 → i < n) →
      s.validate .positional p' = .ok ()) ∧
    (∀ (p p' : Value) (vs pads : List Value), s.validate .positional p = .ok () →
      p.sequence? = some vs → p'.interruption? = none → p'.sequence? = some (vs ++ pads) →
      (∀ v ∈ pads, ¬ v.IsThere) → vs.length + pads.length ≤ entries.length →
      s.validate .positional p' = .ok ()) ∧
    (∀ (p : Value) (fs : List Value), p.fragments? = some fs → ∀ e ∈ entries,
      (Arguments.merged fs).get? e.1 = some .undefined → s.validate .named p ≠ .ok ()) ∧
    (∀ (p bag : Value) (vs : List Value) (i : Nat) (e : Value × Value)
      (fields es : List (Value × Value)), p.sequence? = some vs → entries[i]? = some e →
      e.2.entries? = some fields → vs[i]? = some bag → bag.fragment? = some es → ∀ f ∈ fields,
      (Table.ofList es).get? f.1 = some .undefined → s.validate .hybrid p ≠ .ok ()) := by
  refine ⟨?swapped, ?nulled, ?take, ?padded, ?name, ?field⟩
  case swapped =>
    intro c p p' vs vs' hc hvs hvs' hp swapped
    exact validate_of_swapped h hc hvs hvs' hp swapped
  case nulled =>
    intro c p p' hok nulled hp'
    exact validate_of_nulled h hspec hok nulled hp'
  case take =>
    intro p p' vs n hok hvs hp' hvs' covers
    exact validate_of_take h hspec hok hvs hp' covers hvs'
  case padded =>
    intro p p' vs pads hok hvs hp' hvs' blank hlen
    exact validate_of_padded h hspec hok hvs hp' blank hlen hvs'
  case name =>
    intro p fs hfs e he hundefined
    exact refuses_undefined_name h hspec hfs he hundefined
  case field =>
    intro p bag vs i e fields es hvs hi hfields hbag hes f hf hundefined
    exact refuses_undefined_field h hspec hvs hi hfields hbag hes hf hundefined

omit h hspec

def nullSpecification : Value :=
  .record [("a", .str "!string"), ("b", .str "number"),
    ("c", .record [("x", .str "!number"), ("y", .str "string")])]

/-- Positional values without a bag, a bag with a field of each kind, and names. -/
theorem null_laws_of_nested : ∃ s, compile nullSpecification (.str "F") = .ok s ∧
    s.validate .hybrid (.tuple [.str "v", .undefined, .int 1]) =
      s.validate .hybrid (.list [.str "v", .null, .int 1]) ∧
    s.validate .hybrid (.list [.str "v", .null, .record [("x", .null), ("y", .str "w")]]) = .ok () ∧
    s.validate .positional (.list [.str "v"]) = .ok () ∧
    s.validate .positional (.list [.str "v", .int 1, .null]) = .ok () ∧
    s.validate .named (.record [("a", .str "v"), ("b", .undefined)]) ≠ .ok () ∧
    s.validate .hybrid (.list [.str "v", .int 1, .record [("x", .int 2), ("y", .undefined)]]) ≠
      .ok () := by
  obtain ⟨s, h⟩ : ∃ s, compile nullSpecification (.str "F") = .ok s := ⟨_, rfl⟩
  obtain ⟨swapped, nulled, take, padded, name, field⟩ := null_laws h rfl
  have hybrid : s.validate .hybrid
      (.list [.str "v", .int 1, .record [("x", .int 2), ("y", .str "w")]]) = .ok () := by
    cases h
    rfl
  have positional : s.validate .positional (.list [.str "v", .int 1]) = .ok () := by
    cases h
    rfl
  refine ⟨s, h, ?_, ?_, ?_, ?_, ?_, ?_⟩
  · refine swapped .hybrid (.list [.str "v", .null, .int 1]) (.tuple [.str "v", .undefined, .int 1])
      _ _ nofun rfl rfl rfl ?_
    exact .cons (.same _) (.cons .undefined (.cons (.same _) .nil))
  · refine nulled .hybrid _ _ hybrid ⟨_, _, rfl, rfl, ?_⟩ rfl
    have fields : Table.Entrywise Nulled [(Value.str "x", Value.int 2), (.str "y", .str "w")]
        [(.str "x", .null), (.str "y", .str "w")] :=
      .cons ⟨rfl, .inr rfl⟩ (.cons ⟨rfl, .inl rfl⟩ .nil)
    exact .cons (.inl rfl) (.cons (.inr rfl) (.cons (.fields .dict fields) .nil))
  · refine take (.list [.str "v", .int 1]) (.list [.str "v"]) _ 1 positional rfl rfl rfl ?_
    intro i e he marked
    match i with
    | 0 => decide
    | 1 | 2 =>
      cases he
      exact absurd marked (by decide)
    | i + 3 => cases he
  · refine padded _ _ [.str "v", .int 1] [.null] positional rfl rfl rfl ?_ (by decide)
    exact List.forall_mem_singleton.2 fun hthere => hthere.1 rfl
  · exact name _ _ rfl (.str "b", .str "number") (by simp) rfl
  · exact field _ _ _ 2 _ _ _ rfl rfl rfl rfl rfl (.str "y", .str "string") (by simp) rfl

end Compiler

end CallContract
