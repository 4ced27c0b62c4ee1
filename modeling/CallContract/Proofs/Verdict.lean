import CallContract.Proofs.Acceptance
import Mathlib.Data.List.Perm.Basic

/-!
# Verdicts

What a specification has against arguments, read off its entries alone and in order of precedence:
all the required names that are missing; if there is none, the first value in the order of the
entries that its declaration does not let pass; and if there is none either, what the arguments have
beyond the entries. Named arguments stand under the names of the entries
(`Specification.namedVerdict`), positional ones in their places
(`Specification.positionalVerdict`).

A compiled schema decides as the verdict says, provided that no class is declared that cannot be
tested for and everything that is given can be shown (`Compiler.endsAs_namedVerdict`,
`Compiler.endsAs_positionalVerdict`).
-/

namespace CallContract

namespace Specification

section
variable {declared v : Value}

theorem any_readTag?_iff : (declared.text?.bind readTag?).any Prod.snd = true ↔ Marks declared := by
  simp only [Option.any_eq_true, Option.bind_eq_some_iff, Marks, ← readTag?_eq_some_iff]
  constructor
  · rintro ⟨⟨t, _⟩, ⟨s, hs, ht⟩, rfl⟩
    exact ⟨s, t, hs, ht⟩
  · rintro ⟨s, t, hs, ht⟩
    exact ⟨(t, true), ⟨s, hs, ht⟩, rfl⟩

instance : Decidable (Marks declared) := decidable_of_iff _ any_readTag?_iff

theorem any_hasTag_iff {s : String} :
    (readTag? s).any (fun t => t.1 = .any || v.hasTag t.1.name) = true ↔
      ∃ t, (∃ required, Spells s t required) ∧ (t = .any ∨ v.hasTag t.name = true) := by
  simp only [Option.any_eq_true, ← readTag?_eq_some_iff, Bool.or_eq_true, decide_eq_true_eq]
  constructor
  · rintro ⟨⟨t, required⟩, ht, hv⟩
    exact ⟨t, ⟨required, ht⟩, hv⟩
  · rintro ⟨t, ⟨required, ht⟩, hv⟩
    exact ⟨(t, required), ht, hv⟩

instance (lookedInto : Bool) : Decidable (FitsBag lookedInto v) :=
  inferInstanceAs (Decidable (lookedInto = true → v.isMapping = true))

instance (mappingFits : Value → Prop) [DecidablePred mappingFits] :
    Decidable (Fits mappingFits declared v) :=
  match declared with
  | .mapping _ _ => inferInstanceAs (Decidable (mappingFits v))
  | .cls c => inferInstanceAs (Decidable (c ≠ .any ∧ v.isInstance c = true))
  | .str _ | .text _ => decidable_of_iff _ any_hasTag_iff
  | .null | .undefined | .bool _ | .int _ | .count _ | .float _ _ | .complex _ _ | .decimal _ _
  | .fraction _ | .bytes _ | .bytearray _ | .list _ | .stack _ | .tuple _ | .point _ _ | .set _
  | .frozenset _ | .range _ _ _ | .generator _ _ _ | .datetime _ | .date _ | .builtin _
  | .function _ _ | .creature _ _ _ | .convention _ => isFalse id

end

/-- The names of the required parameters, in their order. -/
def requiredNames (entries : List (Value × Value)) : List Value :=
  (entries.filter fun e => Marks e.2).map Prod.fst

/-- The supplied names that no entry declares, in the order of the payload. -/
def extraNames (entries : List (Value × Value)) (supplied : Payload) : List Value :=
  supplied.keys.filter fun k => !entries.any fun e => k == e.1

/-- The word for what a declaration expects. -/
def expectation (declared : Value) : String :=
  match declared with
  | .str s | .text s => (readTag? s).elim s fun t => t.1.name
  | .cls c => "instance of " ++ c.name
  | _ => "mapping"

/-- What an entry has against the value in its place, where a value may be missing. -/
def objection? (undefinedPasses : Bool) (e : Value × Value) : Option Value → Option Violation
  | none | some .null => none
  | some .undefined => if undefinedPasses then none else some (.undefinedValue e.1)
  | some v =>
    if Fits (FitsBag true) e.2 v then none
    else some (.mismatch e.1 (.str (expectation e.2)) v)

/-- Missing names come first, an objection second, and what is there beyond the entries last. -/
def ranked (missing : List Value) (objection beyond : Option Violation) : Option Violation :=
  match missing with
  | [] => objection.or beyond
  | names => some (.missing names)

def namedVerdict (entries : List (Value × Value)) (supplied : Payload) : Option Violation :=
  ranked ((requiredNames entries).filter fun name => !supplied.contains name)
    (entries.findSome? fun e => objection? false e (supplied.get? e.1))
    (match extraNames entries supplied with
      | [] => none
      | extras => some (.unexpected extras))

def positionalVerdict (entries : List (Value × Value)) (vs : List Value) : Option Violation :=
  ranked (requiredNames (entries.drop vs.length))
    ((entries.zip vs).findSome? fun (e, v) => objection? true e (some v))
    (if entries.length < vs.length then some (.tooMany (.int vs.length) (.int entries.length))
      else none)

theorem objection?_of_there {undefinedPasses : Bool} {e : Value × Value} {v : Value}
    (hv : v.IsThere) : objection? undefinedPasses e (some v) =
      if Fits (FitsBag true) e.2 v then none
      else some (.mismatch e.1 (.str (expectation e.2)) v) := by
  cases v with
  | null => exact absurd rfl hv.1
  | undefined => exact absurd rfl hv.2
  | _ => rfl

theorem expectation_of_spells {declared : Value} {s : String} {t : Tag} {required : Bool}
    (hs : declared.text? = some s) (h : Spells s t required) : expectation declared = t.name := by
  have ht : readTag? s = some (t, required) := readTag?_eq_some_iff.2 h
  cases declared with
  | str | text =>
    cases hs
    rw [expectation, ht]
    rfl
  | _ => cases hs

theorem expectation_of_entries {declared : Value} {fields : List (Value × Value)}
    (h : declared.entries? = some fields) : expectation declared = "mapping" := by
  cases declared with
  | mapping => rfl
  | _ => cases h

end Specification

/-- Checks along a list and along its places find the same, where nothing is found without a value. -/
theorem findSome?_zip {α β γ : Type} {f : α → Option γ} {g : α → Option β → Option γ} {as : List α}
    {bs : List β} (h : ∀ (i : Nat) (a : α), as[i]? = some a → f a = g a bs[i]?)
    (absent : ∀ a, g a none = none) :
    as.findSome? f = (as.zip bs).findSome? fun (a, b) => g a (some b) := by
  induction as generalizing bs with
  | nil => rfl
  | cons a as ih =>
    have here := h 0 a rfl
    cases bs with
    | nil =>
      rw [List.zip_nil_right, List.findSome?_nil, List.findSome?_eq_none_iff]
      intro b hb
      obtain ⟨i, hi⟩ := List.mem_iff_getElem?.1 hb
      rw [h i b hi, List.getElem?_nil, absent]
    | cons b bs =>
      rw [List.zip_cons_cons, List.findSome?_cons, List.findSome?_cons, here,
        ih fun i a hi => h (i + 1) a hi]
      rfl

theorem findSome?_congr {α γ : Type} {f g : α → Option γ} {as : List α} (h : ∀ a ∈ as, f a = g a) :
    as.findSome? f = as.findSome? g := by
  induction as with
  | nil => rfl
  | cons a as ih =>
    rw [List.findSome?_cons, List.findSome?_cons, h a (by simp), ih fun b hb => h b (by simp [hb])]

theorem filter_eq_drop {α : Type} {q : α → Bool} {as : List α} {n : Nat}
    (h : ∀ (i : Nat) (a : α), as[i]? = some a → q a = decide (n ≤ i)) : as.filter q = as.drop n := by
  have before : (as.take n).filter q = [] := by
    refine List.filter_eq_nil_iff.2 fun a ha => ?_
    obtain ⟨i, hi⟩ := List.mem_iff_getElem?.1 ha
    rw [List.getElem?_take] at hi
    split at hi
    next hlt => simp [h i a hi, hlt]
    next => cases hi
  have behind : (as.drop n).filter q = as.drop n := by
    refine List.filter_eq_self.2 fun a ha => ?_
    obtain ⟨i, hi⟩ := List.mem_iff_getElem?.1 ha
    rw [List.getElem?_drop] at hi
    simp [h (n + i) a hi]
  rw [← List.take_append_drop n as, List.filter_append, before, behind]
  simp

namespace Schema

open Specification

/-- The validation ends as the verdict says, under the label of the schema. -/
def EndsAs (s : Schema) (c : Convention) (p : Value) : Option Violation → Prop
  | none => s.validate c p = .ok ()
  | some what => ∃ message, s.validate c p = .error (.violation s.name message what)

theorem endsAs_of_reports {s : Schema} {c : Convention} {p : Value} {o : Option Finding}
    {verdict : Option Violation} (h : Reports o (s.validate c p))
    (same : o.map (·.offence) = verdict.map (.violation s.name))
    (shown : Finding.Always Finding.IsShown o) : s.EndsAs c p verdict := by
  cases verdict with
  | none =>
    rw [Option.map_none, Option.map_eq_none_iff] at same
    obtain ⟨_, hok⟩ := h.isOk_iff.2 same
    exact hok
  | some what =>
    obtain ⟨⟨offence, vs⟩, rfl, hoffence⟩ := Option.map_eq_some_iff.1 same
    obtain rfl : offence = .violation s.name what := hoffence
    exact h.violates (shown _ rfl)

theorem findInValue_offence {s : Schema} {name v declared : Value} {x : Expected}
    {bagged : List (Value × Value) → Expected → Prop}
    (hbagged : ∀ es x, bagged es x → ∃ t, x = .bag t) (h : Declares bagged declared x)
    (testable : declared ≠ .cls .any) :
    (s.findInValue name v true x).map (·.offence) =
      if Fits (FitsBag true) declared v then none
      else some (.violation s.name (.mismatch name (.str (expectation declared)) v)) := by
  have fits : s.findInValue name v true x = none ↔ Fits (FitsBag true) declared v := by
    refine findInValue_eq_none_iff_fits (fun es x hx => ?_) h
    obtain ⟨t, rfl⟩ := hbagged es x hx
    simp [findInValue, FitsBag]
  split
  next hfits => rw [fits.2 hfits, Option.map_none]
  next hnot =>
    rw [← fits] at hnot
    cases h with
    | wildcard => exact absurd rfl hnot
    | primitive hs h =>
      rw [expectation_of_spells hs h]
      rw [findInValue] at hnot ⊢
      split
      next hv => simp [hv] at hnot
      next => rfl
    | instanceOf c =>
      have hc : c ≠ .any := fun hc => testable (by rw [hc])
      rw [findInValue, if_neg hc] at hnot ⊢
      split
      next hv => simp [hv] at hnot
      next => rfl
    | mapping hentries hx =>
      obtain ⟨t, rfl⟩ := hbagged _ _ hx
      rw [expectation_of_entries hentries]
      rw [findInValue] at hnot ⊢
      split
      next => rfl
      next hv => simp [hv] at hnot

theorem Coherent.required_eq {s : Schema} {bagged : Nat → List (Value × Value) → Expected → Prop}
    {label : Value} {entries : List (Value × Value)} (h : s.Coherent bagged label entries) :
    s.required = requiredNames entries := by
  have nodup : s.params.Nodup := by
    refine h.apart.imp_of_mem fun {a b} ha _ hab => ?_
    rintro rfl
    rw [Value.beq_self_of_text (h.texts a ha)] at hab
    cases hab
  have sublist : (requiredNames entries).Sublist s.params := by
    rw [h.params]
    exact List.filter_sublist.map _
  refine (nodup.perm_iff_eq_of_sublist h.required_sublist sublist).1 ?_
  refine (List.perm_ext_iff_of_nodup (nodup.sublist h.required_sublist) (nodup.sublist sublist)).2
    fun name => ?_
  constructor
  · intro hname
    obtain ⟨e, he, rfl⟩ := h.mem_params.1 (h.required_sublist.subset hname)
    exact List.mem_map_of_mem (List.mem_filter.2 ⟨he, decide_eq_true ((h.required e he).1 hname)⟩)
  · intro hname
    obtain ⟨e, he, rfl⟩ := List.mem_map.1 hname
    obtain ⟨he, marked⟩ := List.mem_filter.1 he
    exact (h.required e he).2 (of_decide_eq_true marked)

namespace CoherentDeep

variable {s : Schema} {label : Value} {entries : List (Value × Value)}
  (h : s.CoherentDeep label entries) (supplied : Payload)
include h

theorem findMissing_offence (o : Option Finding) (objection beyond : Option Violation)
    (same : o.map (·.offence) = (objection.or beyond).map (.violation s.name)) :
    ((s.findMissing supplied).or o).map (·.offence) =
      (ranked ((requiredNames entries).filter fun name => !supplied.contains name) objection beyond).map
        (.violation s.name) := by
  rw [findMissing, Coherent.required_eq h]
  cases (requiredNames entries).filter fun name => !supplied.contains name with
  | nil => exact same
  | cons name names => rfl

theorem findExtra_offence : (s.findExtra supplied).map (·.offence) =
    (match extraNames entries supplied with
      | [] => none
      | extras => some (.unexpected extras) : Option Violation).map (.violation s.name) := by
  have extras : supplied.keys.filter (fun key => !s.isDeclared key) =
      extraNames entries supplied := by
    refine List.filter_congr fun k _ => ?_
    rw [Bool.not_inj_iff, Bool.eq_iff_iff, h.isDeclared_iff, List.any_eq_true]
  rw [findExtra, extras]
  cases extraNames entries supplied <;> rfl

section
variable (testable : ∀ e ∈ entries, e.2 ≠ .cls .any)
include testable

theorem findInParam_offence (checkUndefined : Bool) {e : Value × Value} (he : e ∈ entries) :
    (s.findInParam supplied checkUndefined true e.1).map (·.offence) =
      (objection? (!checkUndefined) e (supplied.get? e.1)).map (.violation s.name) := by
  obtain ⟨i, hi⟩ := List.mem_iff_getElem?.1 he
  obtain ⟨x, hx, declares⟩ := h.types i e hi
  cases hget : supplied.get? e.1 with
  | none => simp [findInParam, hget, objection?]
  | some v =>
    rcases v.null_or_undefined_or_there with rfl | rfl | hthere
    · simp [findInParam, hget, objection?]
    · cases checkUndefined <;> simp [findInParam, hget, objection?, Finding.violation]
    · have bags (es : List (Value × Value)) (x : Expected)
          (hx : ∃ t, x = .bag t ∧ t.CoherentFlat (bagLabel label.shownText i) es) :
          ∃ t, x = .bag t := by
        obtain ⟨t, rfl, -⟩ := hx
        exact ⟨t, rfl⟩
      rw [findInParam_of_value _ _ hget hthere, hx, objection?_of_there hthere]
      dsimp only
      rw [findInValue_offence bags declares (testable e he)]
      split <;> rfl

theorem findInNames_offence : (s.findInNames supplied).map (·.offence) =
    (namedVerdict entries supplied).map (.violation s.name) := by
  refine h.findMissing_offence supplied _ _ _ ?_
  rw [Option.map_or, Option.map_or, h.findExtra_offence, findInTypes, Coherent.params h,
    List.findSome?_map, List.map_findSome?, List.map_findSome?]
  congr 1
  exact findSome?_congr fun e he => h.findInParam_offence supplied testable true he

theorem findInValues_offence {labelText : String} (compiled : s.Compiled label labelText)
    (vs : List Value) : (s.findInValues vs true).map (·.offence) =
      (positionalVerdict entries vs).map (.violation s.name) := by
  have params : s.params = entries.map Prod.fst := Coherent.params h
  have place {i : Nat} {e : Value × Value} (hi : entries[i]? = some e) :
      s.params[i]? = some e.1 := by
    rw [params, List.getElem?_map, hi]
    rfl
  have missing : (requiredNames entries).filter (fun name => !(Arguments.pair s vs).contains name) =
      requiredNames (entries.drop vs.length) := by
    have absent : entries.filter (fun e => !(Arguments.pair s vs).contains e.1) =
        entries.drop vs.length := by
      refine filter_eq_drop fun i e hi => ?_
      rw [compiled.contains_pair (place hi)]
      simp [← decide_not]
    rw [requiredNames, List.filter_map, List.filter_comm]
    show ((entries.filter fun e => !(Arguments.pair s vs).contains e.1).filter _).map _ = _
    rw [absent]
    rfl
  have surplus : (s.findSurplus vs.length).map (·.offence) =
      (if entries.length < vs.length then some (.tooMany (.int vs.length) (.int entries.length))
        else none : Option Violation).map (.violation s.name) := by
    have arity : s.arity = entries.length := by rw [arity, params, List.length_map]
    rw [findSurplus, arity]
    simp only [Int.ofNat_lt]
    split <;> rfl
  rw [positionalVerdict, ← missing]
  refine h.findMissing_offence _ _ _ _ ?_
  rw [Option.map_or, Option.map_or, surplus, findInTypes, params, List.findSome?_map,
    List.map_findSome?, List.map_findSome?]
  congr 1
  refine findSome?_zip (g := fun e v? => (objection? true e v?).map (Offence.violation s.name))
    (fun i e hi => ?_) fun _ => rfl
  rw [← compiled.get?_pair (place hi)]
  exact h.findInParam_offence _ testable false (List.mem_of_getElem? hi)

end

end CoherentDeep

end Schema

namespace Compiler

open Specification

variable {spec label : Value} {s : Schema} {entries : List (Value × Value)}
  (h : compile spec label = .ok s) (hspec : spec.entries? = some entries)
include h hspec

theorem coherent_of_compile : s.CoherentDeep label entries := by
  obtain ⟨hlabel, es, hes, hdeep⟩ := compileDeep_of_compile h
  obtain rfl := Option.some.inj (hspec.symm.trans hes)
  exact compileDeep_coherent hlabel.display hdeep

variable (testable : ∀ e ∈ entries, e.2 ≠ .cls .any) {p : Value}
include testable

/-- Named arguments are decided once they have been brought into a payload. -/
theorem endsAs_namedVerdict {supplied : Payload} (hnamed : Arguments.named s p = .ok supplied)
    (shown : ∀ e ∈ supplied.entries, e.1.Shown ∧ e.2.Shown) :
    s.EndsAs .named p (namedVerdict entries supplied) := by
  obtain ⟨hlabel, compiled⟩ := compiled_of_compile h
  have reports : Reports (s.findInNames supplied) (s.validate .named p) := by
    rw [Schema.validate, Schema.validateNamed, hnamed]
    exact Schema.reports_checkNames supplied
  have ordinary := (compiled.typed hlabel.shown).ordinary_findInNames supplied
  exact Schema.endsAs_of_reports reports
    ((coherent_of_compile h hspec).findInNames_offence supplied testable)
    fun x hx => (ordinary x hx).shown shown

theorem endsAs_positionalVerdict {vs : List Value}
    (hvs : Arguments.positionalValues s p = .ok vs) (shown : ∀ v ∈ vs, v.Shown) :
    s.EndsAs .positional p (positionalVerdict entries vs) := by
  obtain ⟨hlabel, compiled⟩ := compiled_of_compile h
  have reports : Reports (s.findInValues vs true) (s.validate .positional p) := by
    rw [Schema.validate, Schema.validatePositional, Schema.validateValues, hvs]
    exact (Schema.reports_checkedValues vs true).map fun _ => ()
  have ordinary := (compiled.typed hlabel.shown).ordinary_findInValues vs true
  exact Schema.endsAs_of_reports reports
    ((coherent_of_compile h hspec).findInValues_offence testable compiled vs)
    fun x hx => (ordinary x hx).shown shown

end Compiler

end CallContract
