import CallContract.Proofs.Acceptance
import Mathlib.Logic.Relation

/-!
# Edits of a contract

Two edits of a specification, at either level: a new parameter that is not required at the end, and
the wildcard in place of a declared type, which keeps its marker. What such an edit leaves is looser
place by place (`Loosens`): every old entry is still in its place, and what stands behind them
requires nothing.

An edited specification compiles, and the schema accepts everything that the old one accepted
(`Compiler.accepts_of_edits`), along every convention and after any number of edits.
-/

namespace CallContract

namespace Specification

/-- The wildcard in place of a declared type; the marker stays. -/
def Widens (declared declared' : Value) : Prop :=
  ∃ s required, declared'.text? = some s ∧ Spells s .any required ∧
    (required = true ↔ Marks declared)

/-- One edit of entries: an `Added` declaration under a new name at the end, or a declaration in
place of another one. -/
inductive Edits (Added : Value → Prop) (Replaces : Value → Value → Prop) :
    List (Value × Value) → List (Value × Value) → Prop
  | append {entries : List (Value × Value)} {name declared : Value} (text : name.text?.isSome)
    (new : ∀ e ∈ entries, (e.1 == name) = false) (added : Added declared) :
    Edits Added Replaces entries (entries ++ [(name, declared)])
  | replace {before after : List (Value × Value)} {name declared declared' : Value}
    (replaces : Replaces declared declared') :
    Edits Added Replaces (before ++ (name, declared) :: after) (before ++ (name, declared') :: after)

def FlatEdit : List (Value × Value) → List (Value × Value) → Prop :=
  Edits (fun declared => IsFlatDeclaration declared ∧ ¬ Marks declared) Widens

/-- Neither the parameter is required nor, in a destructured mapping, one of its fields. -/
structure IsOptional (declared : Value) : Prop where
  declaration : IsDeclaration declared
  unmarked : ¬ Marks declared
  fields : ∀ fields, declared.entries? = some fields → ∀ f ∈ fields, ¬ Marks f.2

/-- A mapping with one of its fields edited, of any kind. -/
def EditsInside (declared declared' : Value) : Prop :=
  ∃ fields fields', declared.entries? = some fields ∧ declared'.entries? = some fields' ∧
    FlatEdit fields fields'

def DeepEdit : List (Value × Value) → List (Value × Value) → Prop :=
  Edits IsOptional fun declared declared' =>
    Widens declared declared' ∨ EditsInside declared declared'

/-- One edit of a specification, at either level. -/
def Edit (spec spec' : Value) : Prop :=
  ∃ entries entries', spec.entries? = some entries ∧ spec'.entries? = some entries' ∧
    DeepEdit entries entries'

theorem Widens.isPlain {declared declared' : Value} (h : Widens declared declared') :
    IsPlain declared' := by
  obtain ⟨s, required, hs, spells, -⟩ := h
  exact .inr ⟨s, .any, required, hs, spells⟩

section
variable {Added : Value → Prop} {Replaces : Value → Value → Prop} {P : Value → Prop}
  {entries entries' : List (Value × Value)}

theorem Edits.wellFormed (h : Edits Added Replaces entries entries')
    (added : ∀ d, Added d → P d) (replaces : ∀ d d', P d → Replaces d d' → P d')
    (wf : WellFormedEntries P entries) : WellFormedEntries P entries' := by
  obtain ⟨texts, declared, apart⟩ := wf
  cases h with
  | append text new hadded =>
    refine ⟨List.forall_mem_append.2 ⟨texts, by simpa using text⟩,
      List.forall_mem_append.2 ⟨declared, by simpa using added _ hadded⟩, ?_⟩
    rw [List.map_append, Table.Apart, List.pairwise_append]
    refine ⟨apart, List.pairwise_singleton _ _, ?_⟩
    simpa using fun name d hmem => new (name, d) hmem
  | @replace before after name d d' hreplaces =>
    simp only [List.forall_mem_append, List.forall_mem_cons] at texts declared
    obtain ⟨before_declared, hd, after_declared⟩ := declared
    refine ⟨List.forall_mem_append.2 ⟨texts.1, List.forall_mem_cons.2 texts.2⟩,
      List.forall_mem_append.2 ⟨before_declared,
        List.forall_mem_cons.2 ⟨replaces _ _ hd hreplaces, after_declared⟩⟩, ?_⟩
    -- the names have not changed
    simpa using apart

/-- Every entry is still in its place, under a declaration that is `Looser`, and behind them stand
new names. -/
structure Loosens (Looser : Value → Value → Prop) (Added : Value → Prop)
    (entries entries' : List (Value × Value)) : Prop where
  kept : ∀ (i : Nat) (e : Value × Value), entries[i]? = some e →
    ∃ declared', entries'[i]? = some (e.1, declared') ∧ Looser e.2 declared'
  new : ∀ (i : Nat) (e : Value × Value), entries'[i]? = some e → entries.length ≤ i →
    Added e.2 ∧ ∀ e' ∈ entries, (e'.1 == e.1) = false

theorem Edits.loosens (h : Edits Added Replaces entries entries') :
    Loosens (fun d d' => d' = d ∨ Replaces d d') Added entries entries' := by
  cases h with
  | @append entries name d text new added =>
    constructor
    · intro i e hi
      refine ⟨e.2, ?_, .inl rfl⟩
      rw [List.getElem?_append_left (List.getElem?_eq_some_iff.1 hi).1, hi]
    · intro i e hi hlen
      rw [List.getElem?_append_right hlen] at hi
      obtain rfl := List.mem_singleton.1 (List.mem_of_getElem? hi)
      exact ⟨added, new⟩
  | @replace before after name d d' replaces =>
    constructor
    · intro i e hi
      rw [List.getElem?_append] at hi ⊢
      split at hi
      next hlt => exact ⟨e.2, by rw [if_pos hlt, hi], .inl rfl⟩
      next hle =>
        rw [if_neg hle]
        cases hj : i - before.length with
        | zero =>
          rw [hj] at hi
          cases hi
          exact ⟨d', rfl, .inr replaces⟩
        | succ j =>
          rw [hj] at hi
          exact ⟨e.2, hi, .inl rfl⟩
    · intro i e hi hlen
      have := (List.getElem?_eq_some_iff.1 hi).1
      simp only [List.length_append, List.length_cons] at this hlen
      omega

namespace Loosens

variable {Looser : Value → Value → Prop} (h : Loosens Looser Added entries entries')
include h

theorem length_le : entries.length ≤ entries'.length := by
  refine Nat.le_of_not_lt fun hlt => ?_
  obtain ⟨d, hd, -⟩ := h.kept entries'.length _ (List.getElem?_eq_getElem hlt)
  exact Nat.lt_irrefl _ (List.getElem?_eq_some_iff.1 hd).1

theorem cases {i : Nat} {e : Value × Value} (hi : entries'[i]? = some e) :
    (∃ declared, entries[i]? = some (e.1, declared) ∧ Looser declared e.2) ∨
    (entries.length ≤ i ∧ Added e.2 ∧ ∀ e' ∈ entries, (e'.1 == e.1) = false) := by
  by_cases hlt : i < entries.length
  · obtain ⟨d, hd, looser⟩ := h.kept i _ (List.getElem?_eq_getElem hlt)
    obtain rfl := Option.some.inj (hi.symm.trans hd)
    exact .inl ⟨_, List.getElem?_eq_getElem hlt, looser⟩
  · exact .inr ⟨by omega, h.new i e hi (by omega)⟩

variable {mappingFits : Value → Prop} (unmarked : ∀ d, Added d → ¬ Marks d)
include unmarked

theorem acceptsNames {supplied : Payload}
    (takes : ∀ d d' v?, Looser d d' → Takes mappingFits false d v? → Takes mappingFits false d' v?)
    (accepts : AcceptsNames mappingFits entries supplied) :
    AcceptsNames mappingFits entries' supplied := by
  constructor
  · intro e he
    obtain ⟨i, hi⟩ := List.mem_iff_getElem?.1 he
    rcases h.cases hi with ⟨d, hd, looser⟩ | ⟨-, added, new⟩
    · exact takes _ _ _ looser (accepts.takes _ (List.mem_of_getElem? hd))
    · cases hget : supplied.get? e.1 with
      | none => exact unmarked _ added
      | some v =>
        -- a supplied name is declared already, so it is not the new one
        obtain ⟨f, hf, hef, -⟩ := Table.mem_of_get? hget
        obtain ⟨e', he', hfe'⟩ := accepts.declared f.1 (List.mem_map_of_mem hf)
        have hnew := new e' he'
        rw [BEq.symm (PartialEquivBEq.trans hef hfe')] at hnew
        cases hnew
  · intro k hk
    obtain ⟨e, he, hke⟩ := accepts.declared k hk
    obtain ⟨i, hi⟩ := List.mem_iff_getElem?.1 he
    obtain ⟨d, hd, -⟩ := h.kept i e hi
    exact ⟨_, List.mem_of_getElem? hd, hke⟩

theorem acceptsValues {vs : List Value}
    (takes : ∀ d d' v?, Looser d d' → Takes mappingFits true d v? → Takes mappingFits true d' v?)
    (accepts : AcceptsValues mappingFits entries vs) :
    AcceptsValues mappingFits entries' vs := by
  refine ⟨?_, Nat.le_trans accepts.length_le h.length_le⟩
  intro i e hi
  rcases h.cases hi with ⟨d, hd, looser⟩ | ⟨hle, added, -⟩
  · exact takes _ _ _ looser (accepts.takes i _ hd)
  · have absent : vs[i]? = none := List.getElem?_eq_none_iff.2 (Nat.le_trans accepts.length_le hle)
    rw [absent]
    exact unmarked _ added

end Loosens

end

section
variable {mappingFits : Value → Prop} {undefinedPasses : Bool} {d d' : Value} {v? : Option Value}

theorem Widens.takes (w : Widens d d') (h : Takes mappingFits undefinedPasses d v?) :
    Takes mappingFits undefinedPasses d' v? := by
  obtain ⟨s, required, hs, spells, marked⟩ := w
  cases v? with
  | none => exact fun hm => h (marked.1 ((marks_iff_of_spells hs spells).1 hm))
  | some v =>
    rcases v.null_or_undefined_or_there with rfl | rfl | hthere
    · trivial
    · exact h
    · rw [takes_of_there hthere, fits_of_spells hs spells]
      exact .inl rfl

theorem EditsInside.takes (w : EditsInside d d') (h : Takes mappingFits undefinedPasses d v?) :
    Takes mappingFits undefinedPasses d' v? := by
  obtain ⟨fields, fields', hfields, hfields', -⟩ := w
  exact (takes_mapping_iff hfields hfields' v?).2 h

end

theorem FlatEdit.acceptsBag {fields fields' : List (Value × Value)} (h : FlatEdit fields fields')
    {v : Value} (accepts : AcceptsBag fields v) : AcceptsBag fields' v := by
  obtain ⟨es, hes, accepts⟩ := accepts
  refine ⟨es, hes, h.loosens.acceptsNames (fun d added => added.2) (fun d d' v? looser => ?_) accepts⟩
  rcases looser with rfl | widens
  · exact id
  · exact widens.takes

theorem acceptsBag_undefined {fields : List (Value × Value)} (h : ∀ f ∈ fields, ¬ Marks f.2) :
    AcceptsBag fields .undefined :=
  ⟨[], rfl, fun f hf => h f hf, fun _ hk => (List.not_mem_nil hk).elim⟩

/-- What either edit puts in place of a declaration takes what the declaration took. -/
theorem takes_of_replaced {mappingFits : Value → Prop} {undefinedPasses : Bool} {d d' : Value}
    (looser : d' = d ∨ Widens d d' ∨ EditsInside d d') (v? : Option Value)
    (takes : Takes mappingFits undefinedPasses d v?) : Takes mappingFits undefinedPasses d' v? := by
  rcases looser with rfl | widens | inside
  · exact takes
  · exact widens.takes takes
  · exact inside.takes takes

namespace DeepEdit

variable {entries entries' : List (Value × Value)} (h : DeepEdit entries entries')
include h

/-- An edit of a specification loses nothing that was accepted. -/
theorem accepts {c : Convention} {p : Value} (accepts : Accepts entries c p) :
    Accepts entries' c p := by
  have unmarked (d : Value) (hd : IsOptional d) : ¬ Marks d := hd.unmarked
  have values {checkBags : Bool} {vs : List Value}
      (accepts : AcceptsValues (FitsBag checkBags) entries vs) :
      AcceptsValues (FitsBag checkBags) entries' vs :=
    h.loosens.acceptsValues unmarked (fun d d' v? looser => takes_of_replaced looser v?) accepts
  cases c with
  | named =>
    obtain ⟨fs, hfs, fragments, accepts⟩ := accepts
    exact ⟨fs, hfs, fragments, h.loosens.acceptsNames unmarked
      (fun d d' v? looser => takes_of_replaced looser v?) accepts⟩
  | positional =>
    obtain ⟨vs, hvs, accepts⟩ := accepts
    exact ⟨vs, hvs, values accepts⟩
  | hybrid =>
    obtain ⟨vs, hvs, accepts, bags⟩ := accepts
    refine ⟨vs, hvs, values accepts, ?_⟩
    intro i e hi fields' hfields'
    rcases h.loosens.cases hi with ⟨d, hd, rfl | widens | inside⟩ | ⟨hle, added, -⟩
    · exact bags i _ hd fields' hfields'
    · -- the wildcard is no mapping any more
      obtain ⟨s, required, hs, -⟩ := widens
      rw [entries?_of_text hs] at hfields'
      cases hfields'
    · obtain ⟨fields, fields'', hfields, hfields'', edit⟩ := inside
      obtain rfl := Option.some.inj (hfields'.symm.trans hfields'')
      exact edit.acceptsBag (bags i _ hd fields hfields)
    · have absent : vs[i]? = none :=
        List.getElem?_eq_none_iff.2 (Nat.le_trans accepts.length_le hle)
      rw [absent]
      exact acceptsBag_undefined (added.fields fields' hfields')

theorem wellFormed (wf : WellFormedEntries IsDeclaration entries) :
    WellFormedEntries IsDeclaration entries' := by
  refine Edits.wellFormed h (fun d added => added.declaration) (fun d d' hd replaces => ?_) wf
  rcases replaces with widens | ⟨fields, fields', hfields, hfields', edit⟩
  · exact .inl widens.isPlain
  · refine .inr ⟨fields', hfields', ?_⟩
    rcases hd with plain | ⟨fields'', hfields'', wf⟩
    · rw [plain.entries?] at hfields
      cases hfields
    · obtain rfl := Option.some.inj (hfields.symm.trans hfields'')
      exact Edits.wellFormed edit (fun d added => added.1) (fun d d' _ widens => .inl widens.isPlain) wf

end DeepEdit

theorem Edit.wellFormed {spec spec' : Value} (h : Edit spec spec') (wf : WellFormed spec) :
    WellFormed spec' := by
  obtain ⟨entries, entries', hentries, hentries', edit⟩ := h
  obtain ⟨es, hes, wf⟩ := wf
  obtain rfl := Option.some.inj (hentries.symm.trans hes)
  exact ⟨entries', hentries', edit.wellFormed wf⟩

end Specification

namespace Compiler

open Specification

variable {spec spec' label : Value} {s : Schema}

theorem accepts_of_edit (edit : Edit spec spec') (h : compile spec label = .ok s) {label' : Value}
    (hlabel : IsLabel label') :
    ∃ s', compile spec' label' = .ok s' ∧
      ∀ c p, s.validate c p = .ok () → s'.validate c p = .ok () := by
  obtain ⟨-, wf⟩ := compile_isOk_iff.1 ⟨s, h⟩
  obtain ⟨s', h'⟩ := compile_isOk_iff.2 ⟨hlabel, edit.wellFormed wf⟩
  obtain ⟨entries, entries', hentries, hentries', edit⟩ := edit
  refine ⟨s', h', fun c p hok => ?_⟩
  rw [validate_eq_ok_iff h hentries] at hok
  rw [validate_eq_ok_iff h' hentries']
  exact ⟨hok.1, edit.accepts hok.2⟩

/-- An edited specification compiles, under any label, and everything that was accepted still is. -/
theorem accepts_of_edits (h : compile spec label = .ok s)
    (edits : Relation.ReflTransGen Edit spec spec') {label' : Value} (hlabel : IsLabel label') :
    ∃ s', compile spec' label' = .ok s' ∧
      ∀ c p, s.validate c p = .ok () → s'.validate c p = .ok () := by
  induction edits with
  | refl =>
    obtain ⟨-, wf⟩ := compile_isOk_iff.1 ⟨s, h⟩
    obtain ⟨s', h'⟩ := compile_isOk_iff.2 ⟨hlabel, wf⟩
    obtain ⟨entries, hentries, -⟩ := wf
    exact ⟨s', h', fun c p hok =>
      (validate_eq_ok_iff h' hentries).2 ((validate_eq_ok_iff h hentries).1 hok)⟩
  | tail _ edit ih =>
    obtain ⟨s₁, h₁, accepts₁⟩ := ih
    obtain ⟨s', h', accepts'⟩ := accepts_of_edit edit h₁ hlabel
    exact ⟨s', h', fun c p hok => accepts' c p (accepts₁ c p hok)⟩

/-- A required field is widened inside, and a destructured argument with an optional field comes
behind it. -/
theorem accepts_of_two_edits :
    let spec := Value.record [("a", .record [("x", .str "!string")])]
    let spec' := Value.record [("a", .record [("x", .str "!any")]),
      ("b", .record [("y", .str "number")])]
    ∃ s s', compile spec (.str "f") = .ok s ∧ compile spec' (.str "g") = .ok s' ∧
      (∀ c p, s.validate c p = .ok () → s'.validate c p = .ok ()) ∧
      s.validate .hybrid (.list [.record [("x", .str "1")]]) = .ok () ∧
      s.validate .hybrid (.list [.record [("x", .int 1)]]) ≠ .ok () ∧
      s'.validate .hybrid (.list [.record [("x", .int 1)]]) = .ok () := by
  have widened : Edit (.record [("a", .record [("x", .str "!string")])])
      (.record [("a", .record [("x", .str "!any")])]) := by
    have widens : Widens (.str "!string") (.str "!any") :=
      ⟨"!any", true, rfl, ⟨"any".toList, rfl, rfl⟩,
        fun _ => ⟨"!string", .string, rfl, "string".toList, rfl, rfl⟩, fun _ => rfl⟩
    have inside : EditsInside (.record [("x", .str "!string")]) (.record [("x", .str "!any")]) :=
      ⟨_, _, rfl, rfl, @Edits.replace _ _ [] [] (.str "x") _ _ widens⟩
    exact ⟨_, _, rfl, rfl, @Edits.replace _ _ [] [] (.str "a") _ _ (.inr inside)⟩
  have appended : Edit (.record [("a", .record [("x", .str "!any")])])
      (.record [("a", .record [("x", .str "!any")]), ("b", .record [("y", .str "number")])]) := by
    have spells : Spells "number" .number false := ⟨"number".toList, rfl, rfl⟩
    have unmarked : ¬ Marks (.str "number") := fun hm =>
      Bool.false_ne_true ((marks_iff_of_spells rfl spells).1 hm)
    have optional : IsOptional (.record [("y", .str "number")]) :=
      { declaration := .inr ⟨_, rfl, by simp [Value.text?],
          by simpa [IsFlatDeclaration] using .inl (.inr ⟨_, _, _, rfl, spells⟩),
          List.pairwise_singleton _ _⟩
        unmarked := not_marks_of_entries rfl
        fields := by
          rintro _ ⟨⟩
          simpa using unmarked }
    exact ⟨_, _, rfl, rfl, .append rfl (by decide) optional⟩
  have hlabel : IsLabel (.str "g") := .inl rfl
  obtain ⟨s, h⟩ : ∃ s, compile (.record [("a", .record [("x", .str "!string")])]) (.str "f") = .ok s :=
    ⟨_, rfl⟩
  obtain ⟨s', h', accepts⟩ := accepts_of_edits h (.tail (.single widened) appended) hlabel
  cases h
  cases h'
  exact ⟨_, _, rfl, rfl, accepts, rfl, fun h => (by cases h), rfl⟩

end Compiler

end CallContract
