import CallContract.Proofs.Verdict

/-!
# What a validation decides

Named arguments are taken in turn: their fragments are looked at one by one, as long as none of them
is something else, and only then does it matter how their iteration ends (`Arguments.named_in_turn`).
Positional values are all asked for before the first check. What comes through is decided as the
verdict of the specification says.
-/

namespace CallContract

/-- The fragments that named arguments give one by one. A progression gives all its terms, however
many they are. -/
def Value.fragmentsInTurn? : Value → Option (List Value)
  | .range start stop step => some ((progression start stop step).map .int)
  | v => v.fragments?

namespace Arguments

variable {s : Schema} {p : Value}

theorem named_in_turn {fs : List Value} (h : p.fragmentsInTurn? = some fs) :
    named s p = mergeFragments s fs >>= fun supplied =>
      match p.interruption? with
      | some why => .error (.iteration why)
      | none => .ok supplied := by
  have alone (v : Value) : mergeFragments s [v] =
      mergeFragments s [v] >>= fun supplied => .ok supplied := by
    cases mergeFragments s [v] <;> rfl
  generalize ho : p.interruption? = o
  cases p with
  | null | undefined | mapping =>
    cases h
    cases ho
    exact alone _
  | str | text | bytes => cases h
  | range start stop step =>
    cases h
    rw [mergeFragments_progression]
    show mergeFragments s (firstTerm start stop step) = _
    cases hmerged : mergeFragments s (firstTerm start stop step) with
    | error f => rfl
    | ok supplied =>
      -- the first term would not have been merged
      have empty : progressionLength start stop step = 0 := by
        by_contra hlong
        exact Schema.mergeFragments_first_ne_ok hlong hmerged
      simp only [Value.interruption?, empty] at ho
      cases ho
      rfl
  | _ =>
    simp only [Value.fragmentsInTurn?, Value.fragments?, Value.sequence?] at h
    simp only [named, Value.stream?, h, ho, Option.map_some, Stream.finish]
    cases mergeFragments s fs with
    | error f => rfl
    | ok supplied => cases o <;> rfl

theorem positionalValues_eq {vs : List Value} (h : p.sequence? = some vs) :
    positionalValues s p =
      match p.interruption? with
      | some why => .error (.iteration why)
      | none => .ok vs := by
  generalize ho : p.interruption? = o
  cases p with
  | null | str | text | bytes | mapping => cases h
  | _ =>
    simp only [Value.sequence?] at h
    simp only [positionalValues, Value.stream?, h, ho, Option.map_some, Stream.finish]
    cases o <;> rfl

end Arguments

namespace Schema

variable {s : Schema} {fs : List Value} {v : Value}

theorem validate_of_interrupted {c : Convention} (hc : c ≠ .named) {p : Value} {vs : List Value}
    (h : p.sequence? = some vs) {why : Interruption} (hwhy : p.interruption? = some why) :
    s.validate c p = .error (.iteration why) := by
  have values := Arguments.positionalValues_eq (s := s) h
  rw [hwhy] at values
  cases c with
  | named => exact absurd rfl hc
  | positional => rw [validate, validatePositional, validateValues, values]; rfl
  | hybrid => rw [validate, validateHybrid, validateValues, values]; rfl

theorem findSome?_findInFragment (s : Schema) (fs : List Value) :
    fs.findSome? s.findInFragment = (fs.find? fun v => v.fragment?.isNone).map fun v =>
      .violation s.name (.mismatch .null (.str "mapping") v) [s.name] := by
  induction fs with
  | nil => rfl
  | cons v fs ih =>
    rw [List.findSome?_cons, List.find?_cons, findInFragment, ih]
    cases v.fragment? <;> rfl

/-- The first fragment that is none ends the merging, whatever comes behind it. -/
theorem mergeFragments_of_wrong (label : s.name.Shown)
    (h : fs.find? (fun v => v.fragment?.isNone) = some v) : ∃ message,
      Arguments.mergeFragments s fs =
        .error (.violation s.name message (.mismatch .null (.str "mapping") v)) := by
  have reports := reports_mergeFragments (s := s) fs
  rw [findSome?_findInFragment, h] at reports
  exact reports.violates (List.forall_mem_singleton.2 label)

end Schema

namespace Compiler

open Specification

/-- Named arguments are decided in this order. The first fragment that is none ends the validation,
and an iteration that fails ends it behind fragments that are all right. What has been merged is
decided along the entries of the specification. -/
theorem named_decided {spec label : Value} {s : Schema} (h : compile spec label = .ok s)
    {entries : List (Value × Value)} (hspec : spec.entries? = some entries) {p : Value}
    {fs : List Value} (hfs : p.fragmentsInTurn? = some fs) :
    (∀ v, fs.find? (fun v => v.fragment?.isNone) = some v →
      s.EndsAs .named p (some (.mismatch .null (.str "mapping") v))) ∧
    ((∀ v ∈ fs, v.fragment?.isSome) →
      (∀ why, p.interruption? = some why → s.validate .named p = .error (.iteration why)) ∧
      (p.interruption? = none → (∀ e ∈ entries, e.2 ≠ .cls .any) →
        (∀ e ∈ (Arguments.merged fs).entries, e.1.Shown ∧ e.2.Shown) →
        s.EndsAs .named p (namedVerdict entries (Arguments.merged fs)))) := by
  obtain ⟨hlabel, compiled⟩ := compiled_of_compile h
  have in_turn := Arguments.named_in_turn (s := s) hfs
  constructor
  · intro v hv
    have label : s.name.Shown := (compiled.typed hlabel.shown).label
    obtain ⟨message, wrong⟩ := Schema.mergeFragments_of_wrong label hv
    refine ⟨message, ?_⟩
    rw [Schema.validate, Schema.validateNamed, in_turn, wrong]
    rfl
  · intro fragments
    rw [Arguments.mergeFragments_of_fragments fragments] at in_turn
    constructor
    · intro why hwhy
      rw [hwhy] at in_turn
      rw [Schema.validate, Schema.validateNamed, in_turn]
      rfl
    · intro hp testable shown
      rw [hp] at in_turn
      exact endsAs_namedVerdict h hspec testable in_turn shown

/-- A wrong type stands in front of an explicit `undefined` in the order of the entries, though not
in that of the fragments, and behind both there is an undeclared name. -/
theorem named_decided_of_fragments : ∃ s,
    compile (.record [("a", .str "!string"), ("b", .str "number"), ("c", .str "boolean")])
      (.str "F") = .ok s ∧
    s.EndsAs .named (.list [.record [("x", .int 1), ("c", .undefined)], .null,
        .record [("b", .str "v"), ("a", .str "w")]])
      (some (.mismatch (.str "b") (.str "number") (.str "v"))) := by
  obtain ⟨s, h⟩ : ∃ s, compile
      (.record [("a", .str "!string"), ("b", .str "number"), ("c", .str "boolean")])
      (.str "F") = .ok s := ⟨_, rfl⟩
  let fs := [Value.record [("x", .int 1), ("c", .undefined)], .null,
    .record [("b", .str "v"), ("a", .str "w")]]
  have shown : (Value.mapping .dict (Arguments.merged fs).entries).Shown := ⟨_, rfl⟩
  obtain ⟨-, decided⟩ := named_decided h rfl (p := .list fs) rfl
  exact ⟨s, h, (decided (by decide)).2 rfl (by simp) (shown.entries rfl)⟩

/-- Positional values that all come are decided along the entries of the specification, and more
values than entries are never accepted. -/
theorem positional_decided {spec label : Value} {s : Schema} (h : compile spec label = .ok s)
    {entries : List (Value × Value)} (hspec : spec.entries? = some entries) {p : Value}
    {vs : List Value} (hvs : p.sequence? = some vs) :
    (∀ why, p.interruption? = some why → s.validate .positional p = .error (.iteration why)) ∧
    (p.interruption? = none → (∀ e ∈ entries, e.2 ≠ .cls .any) → (∀ v ∈ vs, v.Shown) →
      s.EndsAs .positional p (positionalVerdict entries vs)) ∧
    (entries.length < vs.length → s.validate .positional p ≠ .ok ()) := by
  refine ⟨fun why hwhy => ?_, fun hp testable shown => ?_, fun hlong hok => ?_⟩
  · exact Schema.validate_of_interrupted (c := .positional) nofun hvs hwhy
  · exact endsAs_positionalVerdict h hspec testable (Arguments.positionalValues_of_sequence hp hvs)
      shown
  · obtain ⟨-, accepts⟩ := (validate_eq_ok_iff h hspec).1 hok
    have fits := ((accepts_positional_iff hvs).1 accepts).length_le
    omega

/-- Two values too many behind a wrong type, which stands behind `undefined` and null. -/
theorem positional_decided_of_surplus : ∃ s,
    compile (.record [("a", .str "!string"), ("b", .cls .date), ("c", .record [])]) (.str "F") =
      .ok s ∧
    s.EndsAs .positional (.tuple [.undefined, .null, .int 1, .int 2, .int 3])
      (some (.mismatch (.str "c") (.str "mapping") (.int 1))) ∧
    s.validate .positional (.tuple [.undefined, .null, .int 1, .int 2, .int 3]) ≠ .ok () := by
  obtain ⟨s, h⟩ : ∃ s, compile
      (.record [("a", .str "!string"), ("b", .cls .date), ("c", .record [])]) (.str "F") = .ok s :=
    ⟨_, rfl⟩
  have shown : ∀ v ∈ [Value.undefined, .null, .int 1, .int 2, .int 3], v.Shown :=
    Value.shown_list_iff.1 ⟨_, rfl⟩
  obtain ⟨-, decided, refused⟩ := positional_decided h rfl
    (p := .tuple [.undefined, .null, .int 1, .int 2, .int 3]) rfl
  exact ⟨s, h, decided rfl (by simp [Value.record]) shown, refused (by decide)⟩

end Compiler

end CallContract
