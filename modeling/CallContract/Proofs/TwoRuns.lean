import CallContract.Proofs.Coherence
import Mathlib.Data.List.Forall2

/-!
# Two runs of the same checks

`EndAlike V R x y`: both computations succeed with results that `R` relates, or both fail. Their
failures are then of one kind. Violations are those that `V` relates; errors of the shape of the
arguments have the same details and other words; and a failure from outside is the same on both
sides.

The relation is kept by the ways in which checks are put together, so it holds of whole validations
as soon as it holds of each check.
-/

namespace CallContract

/-- Failures of one kind; `V` says of which violations. -/
inductive Failure.Alike (V : Value → Violation → Value → Violation → Prop) :
    Failure → Failure → Prop
  | violation {contract contract' : Value} {message message' : String} {what what' : Violation}
    (h : V contract what contract' what') :
    Alike V (.violation contract message what) (.violation contract' message' what')
  | configuration {message message' : String} {details : Value} {cause : Option Violation} :
    Alike V (.contract (.configuration message details cause))
      (.contract (.configuration message' details cause))
  | outside {f : Failure} (h : ∀ e, f ≠ .contract e) : Alike V f f

inductive EndAlike {α β : Type} (V : Value → Violation → Value → Violation → Prop)
    (R : α → β → Prop) : Except Failure α → Except Failure β → Prop
  | ok {a : α} {b : β} (h : R a b) : EndAlike V R (.ok a) (.ok b)
  | error {f f' : Failure} (h : f.Alike V f') : EndAlike V R (.error f) (.error f')

theorem forall_left {α β : Type} {R : α → β → Prop} {P : α → Prop} {as : List α} {bs : List β}
    (h : List.Forall₂ R as bs) (hR : ∀ a b, R a b → P a) : ∀ a ∈ as, P a := by
  induction h with
  | nil => simp
  | cons hab _ ih => exact List.forall_mem_cons.2 ⟨hR _ _ hab, ih⟩

namespace EndAlike

variable {V : Value → Violation → Value → Violation → Prop} {α β γ δ : Type}
  {R : α → β → Prop} {S : γ → δ → Prop}

theorem bind {x : Except Failure α} {y : Except Failure β} {k : α → Except Failure γ}
    {l : β → Except Failure δ} (h : EndAlike V R x y) (hk : ∀ a b, R a b → EndAlike V S (k a) (l b)) :
    EndAlike V S (x >>= k) (y >>= l) := by
  cases h with
  | ok h => exact hk _ _ h
  | error h => exact .error h

theorem forM {as : List α} {bs : List β} {f : α → Except Failure Unit} {g : β → Except Failure Unit}
    (h : List.Forall₂ R as bs) (hf : ∀ a b, R a b → EndAlike V Eq (f a) (g b)) :
    EndAlike V Eq (as.forM f) (bs.forM g) := by
  induction h with
  | nil => exact .ok rfl
  | cons hab _ ih => exact (hf _ _ hab).bind fun _ _ _ => ih

theorem foldlM {as : List α} {f g : γ → α → Except Failure γ}
    (hf : ∀ c a, EndAlike V Eq (f c a) (g c a)) (c : γ) :
    EndAlike V Eq (as.foldlM f c) (as.foldlM g c) := by
  induction as generalizing c with
  | nil => exact .ok rfl
  | cons a as ih =>
    rw [List.foldlM_cons, List.foldlM_cons]
    refine (hf c a).bind ?_
    rintro d _ rfl
    exact ih d

theorem mono {V' : Value → Violation → Value → Violation → Prop} {x : Except Failure α}
    {y : Except Failure β} (hV : ∀ c w c' w', V c w c' w' → V' c w c' w')
    (h : EndAlike V R x y) : EndAlike V' R x y := by
  cases h with
  | ok h => exact .ok h
  | error h =>
    cases h with
    | violation h => exact .error (.violation (hV _ _ _ _ h))
    | configuration => exact .error .configuration
    | outside h => exact .error (.outside h)

theorem isOk_iff {x : Except Failure α} {y : Except Failure β} (h : EndAlike V R x y) :
    (∃ a, x = .ok a) ↔ ∃ b, y = .ok b := by
  cases h with
  | ok => exact iff_of_true ⟨_, rfl⟩ ⟨_, rfl⟩
  | error => simp

theorem text {vs : List Value} {text : Except Failure String} (h : Shows vs text) :
    EndAlike V Eq text text := by
  by_cases hvs : ∀ v ∈ vs, v.Shown
  · obtain ⟨s, rfl⟩ := h.ok hvs
    exact .ok rfl
  · obtain ⟨v, hv, hn⟩ : ∃ v ∈ vs, ¬ v.Shown := by simpa using hvs
    obtain ⟨s, rfl⟩ := h.error ⟨v, hv, hn⟩
    exact .error (.outside (by simp))

theorem texts {vs ws : List Value} {text text' : Except Failure String} (h : Shows vs text)
    (h' : Shows ws text') (hvs : ∀ v ∈ vs, v.Shown) (hws : ∀ v ∈ ws, v.Shown) :
    EndAlike V (fun _ _ => True) text text' := by
  obtain ⟨s, rfl⟩ := h.ok hvs
  obtain ⟨t, rfl⟩ := h'.ok hws
  exact .ok trivial

theorem finish (st : Stream) : EndAlike V Eq st.finish st.finish := by
  rw [Stream.finish]
  split
  · exact .error (.outside (by simp))
  · exact .ok rfl

theorem display {v w : Value} (hv : v.Shown) (hw : w.Shown) :
    EndAlike V (fun _ _ => True) v.display w.display :=
  texts (.display v) (.display w) (by simpa using hv) (by simpa using hw)

end EndAlike

namespace Violation

/-- The same violation, of parameters under other names. -/
inductive Renamed (N : Value → Value → Prop) : Violation → Violation → Prop
  | missing {names names' : List Value} (h : List.Forall₂ N names names') :
    Renamed N (.missing names) (.missing names')
  | undefinedValue {name name' : Value} (h : N name name') :
    Renamed N (.undefinedValue name) (.undefinedValue name')
  | mismatch {name name' expected value : Value} (h : N name name') :
    Renamed N (.mismatch name expected value) (.mismatch name' expected value)
  | unexpected (names : List Value) : Renamed N (.unexpected names) (.unexpected names)
  | tooMany (received expected : Value) :
    Renamed N (.tooMany received expected) (.tooMany received expected)

theorem Renamed.eq {w w' : Violation} (h : w.Renamed Eq w') : w' = w := by
  cases h with
  | missing h => rw [List.forall₂_eq_eq_eq] at h; rw [h]
  | undefinedValue h | mismatch h => rw [h]
  | unexpected | tooMany => rfl

end Violation

/-- Expected types that treat values alike where nothing is destructured. -/
inductive Expected.Alike : Expected → Expected → Prop
  | flat {e : Expected} (h : e.Flat) : Alike e e
  | bag (t t' : Schema) : Alike (.bag t) (.bag t')

namespace Schema

/-- What the checks see of a parameter and of the one in its place in the other schema. -/
structure SeenAlike (N : Value → Value → Prop) (s s' : Schema) (supplied supplied' : Payload)
    (name name' : Value) : Prop where
  renamed : N name name'
  shown : name.Shown
  shown' : name'.Shown
  expected : ∃ e e', s.types.get? name = some e ∧ s'.types.get? name' = some e' ∧ e.Alike e'
  get? : supplied.get? name = supplied'.get? name'

section
variable {V : Value → Violation → Value → Violation → Prop} {N : Value → Value → Prop}
  {s s' : Schema} (hV : ∀ w w', w.Renamed N w' → V s.name w s'.name w') (hl : s.name.Shown)
  (hl' : s'.name.Shown)
include hV hl hl'

omit hV in
theorem mismatch_alike {α : Type} {name name' value : Value} {expected : String}
    {text : Except Failure String} {vs : List Value} (hn : name.Shown) (hn' : name'.Shown)
    (htext : Shows vs text) {R : α → α → Prop}
    (h : V s.name (.mismatch name (.str expected) value) s'.name
      (.mismatch name' (.str expected) value)) :
    EndAlike V R (s.mismatch name text expected value) (s'.mismatch name' text expected value) := by
  refine (EndAlike.display hl hl').bind fun _ _ _ => ?_
  refine (EndAlike.display hn hn').bind fun _ _ _ => ?_
  refine (EndAlike.text htext).bind fun _ _ _ => ?_
  exact .error (.violation h)

theorem checkValue_alike {name name' : Value} (hN : N name name') (hn : name.Shown)
    (hn' : name'.Shown) {e e' : Expected} (he : e.Alike e') (value : Value) (checkBags : Bool) :
    EndAlike V Eq (s.checkValue name e value checkBags) (s'.checkValue name' e' value checkBags) := by
  cases he with
  | bag t t' =>
    simp only [checkValue]
    split
    · exact mismatch_alike hl hl' hn hn' ((Shows.literal value).map _) (hV _ _ (.mismatch hN))
    · exact .ok rfl
  | flat h =>
    cases h with
    | wildcard => exact .ok rfl
    | instanceOf c =>
      simp only [checkValue, Value.testInstance]
      split
      · exact .error (.outside (by simp))
      · cases value.isInstance c with
        | true => exact .ok rfl
        | false =>
          refine (EndAlike.display hl hl').bind fun _ _ _ => ?_
          refine (EndAlike.display hn hn').bind fun _ _ _ => ?_
          exact .error (.violation (hV _ _ (.mismatch hN)))
    | primitive t =>
      simp only [checkValue]
      split
      · exact .ok rfl
      · exact mismatch_alike hl hl' hn hn' (shows_mismatchText value t.name) (hV _ _ (.mismatch hN))

variable {supplied supplied' : Payload}

theorem checkParam_alike {name name' : Value} (h : SeenAlike N s s' supplied supplied' name name')
    (checkUndefined checkBags : Bool) :
    EndAlike V Eq (s.checkParam supplied checkUndefined checkBags name)
      (s'.checkParam supplied' checkUndefined checkBags name') := by
  obtain ⟨hN, hn, hn', ⟨e, e', he, he', alike⟩, hget⟩ := h
  cases hv : supplied.get? name with
  | none =>
    simp only [checkParam, ← hget, hv]
    exact .ok rfl
  | some v =>
    have hv' := hget.symm.trans hv
    rcases v.null_or_undefined_or_there with rfl | rfl | hthere
    · simp only [checkParam, hv, hv']
      exact .ok rfl
    · simp only [checkParam, hv, hv']
      split
      · refine (EndAlike.display hl hl').bind fun _ _ _ => ?_
        refine (EndAlike.display hn hn').bind fun _ _ _ => ?_
        exact .error (.violation (hV _ _ (.undefinedValue hN)))
      · exact .ok rfl
    · rw [checkParam_of_value _ _ hv hthere, checkParam_of_value _ _ hv' hthere, expected, expected,
        he, he']
      exact checkValue_alike hV hl hl' hN hn hn' alike v checkBags

theorem checkTypes_alike (h : List.Forall₂ (SeenAlike N s s' supplied supplied') s.params s'.params)
    (checkUndefined checkBags : Bool) :
    EndAlike V Eq (s.checkTypes supplied checkUndefined checkBags)
      (s'.checkTypes supplied' checkUndefined checkBags) :=
  .forM h fun _ _ hseen => checkParam_alike hV hl hl' hseen checkUndefined checkBags

theorem checkRequired_alike
    (h : List.Forall₂ (SeenAlike N s s' supplied supplied') s.required s'.required) :
    EndAlike V Eq (s.checkRequired supplied) (s'.checkRequired supplied') := by
  have missing : List.Forall₂ (SeenAlike N s s' supplied supplied')
      (s.required.filter fun name => !supplied.contains name)
      (s'.required.filter fun name => !supplied'.contains name) :=
    List.rel_filter (fun name name' hseen => by simp [Table.contains, hseen.get?]) h
  rw [checkRequired, checkRequired]
  generalize s.required.filter (fun name => !supplied.contains name) = names at missing
  generalize s'.required.filter (fun name => !supplied'.contains name) = names' at missing
  cases missing with
  | nil => exact .ok rfl
  | @cons name name' names names' hname hnames =>
    have missing : List.Forall₂ (SeenAlike N s s' supplied supplied') (name :: names)
      (name' :: names') := .cons hname hnames
    have shown := forall_left missing fun _ _ hseen => hseen.shown
    have shown' := forall_left missing.flip fun _ _ hseen => hseen.shown'
    refine (EndAlike.display hl hl').bind fun _ _ _ => ?_
    refine (EndAlike.texts (.quotedNames _) (.quotedNames _) shown shown').bind fun _ _ _ => ?_
    exact .error (.violation (hV _ _ (.missing (missing.imp fun _ _ hseen => hseen.renamed))))

theorem checkExtra_alike (h : ∀ key, s.isDeclared key = s'.isDeclared key) :
    EndAlike V Eq (s.checkExtra supplied) (s'.checkExtra supplied) := by
  simp only [checkExtra, h]
  cases supplied.keys.filter fun key => !s'.isDeclared key with
  | nil => exact .ok rfl
  | cons key keys =>
    refine (EndAlike.display hl hl').bind fun _ _ _ => ?_
    refine (EndAlike.text (.quotedNames _)).bind fun _ _ _ => ?_
    exact .error (.violation (hV _ _ (.unexpected _)))

theorem checkArity_alike (h : s.arity = s'.arity) (received : Int) :
    EndAlike V Eq (s.checkArity received) (s'.checkArity received) := by
  simp only [checkArity, h]
  split
  · refine (EndAlike.display hl hl').bind fun _ _ _ => ?_
    exact .error (.violation (hV _ _ (.tooMany _ _)))
  · exact .ok rfl

theorem mergeFragments_alike (hnull : N .null .null) (fs : List Value) :
    EndAlike V Eq (Arguments.mergeFragments s fs) (Arguments.mergeFragments s' fs) := by
  refine .foldlM (fun t v => ?_) _
  cases v with
  | null | undefined | mapping => exact .ok rfl
  | _ =>
    refine (EndAlike.display hl hl').bind fun _ _ _ => ?_
    exact .error (.violation (hV _ _ (.mismatch hnull)))

omit hV in
theorem notFragments_alike (p : Value) :
    EndAlike V Eq (Arguments.notFragments s p) (Arguments.notFragments s' p) :=
  (EndAlike.display hl hl').bind fun _ _ _ => .error .configuration

omit hV in
theorem notValues_alike (p : Value) :
    EndAlike V Eq (Arguments.notValues s p) (Arguments.notValues s' p) :=
  (EndAlike.display hl hl').bind fun _ _ _ => .error .configuration

theorem named_alike (hnull : N .null .null) (p : Value) :
    EndAlike V Eq (Arguments.named s p) (Arguments.named s' p) := by
  have merged := mergeFragments_alike hV hl hl' hnull
  cases p with
  | null | undefined | mapping | range => exact merged _
  | str | text | bytes => exact notFragments_alike hl hl' _
  | _ =>
    simp only [Arguments.named]
    split
    · exact notFragments_alike hl hl' _
    · refine (merged _).bind ?_
      rintro supplied _ rfl
      refine (EndAlike.finish _).bind fun _ _ _ => ?_
      exact .ok rfl

omit hV in
theorem positionalValues_alike (p : Value) :
    EndAlike V Eq (Arguments.positionalValues s p) (Arguments.positionalValues s' p) := by
  cases p with
  | null => exact (EndAlike.display hl hl').bind fun _ _ _ => .error .configuration
  | str | text | bytes | mapping => exact notValues_alike hl hl' _
  | _ =>
    simp only [Arguments.positionalValues]
    split
    · exact notValues_alike hl hl' _
    · exact (EndAlike.finish _).bind fun _ _ _ => .ok rfl

theorem validateNamed_alike (hnull : N .null .null)
    (params : ∀ supplied, List.Forall₂ (SeenAlike N s s' supplied supplied) s.params s'.params)
    (required : ∀ supplied,
      List.Forall₂ (SeenAlike N s s' supplied supplied) s.required s'.required)
    (declared : ∀ key, s.isDeclared key = s'.isDeclared key) (p : Value) :
    EndAlike V Eq (s.validateNamed p) (s'.validateNamed p) := by
  refine (named_alike hV hl hl' hnull p).bind ?_
  rintro supplied _ rfl
  refine (checkRequired_alike hV hl hl' (required supplied)).bind fun _ _ _ => ?_
  refine (checkTypes_alike hV hl hl' (params supplied) true true).bind fun _ _ _ => ?_
  exact checkExtra_alike hV hl hl' declared

theorem validateValues_alike
    (params : ∀ vs, List.Forall₂
      (SeenAlike N s s' (Arguments.pair s vs) (Arguments.pair s' vs)) s.params s'.params)
    (required : ∀ vs, List.Forall₂
      (SeenAlike N s s' (Arguments.pair s vs) (Arguments.pair s' vs)) s.required s'.required)
    (p : Value) (checkBags : Bool) :
    EndAlike V Eq (s.validateValues p checkBags) (s'.validateValues p checkBags) := by
  refine (positionalValues_alike hl hl' p).bind ?_
  rintro vs _ rfl
  have arity : s.arity = s'.arity := (params vs).length_eq
  refine (checkRequired_alike hV hl hl' (required vs)).bind fun _ _ _ => ?_
  have types := checkTypes_alike hV hl hl' (params vs) false checkBags
  have checked : EndAlike V Eq (s.typecheck (Arguments.pair s vs) false false checkBags)
      (s'.typecheck (Arguments.pair s' vs) false false checkBags) := types.bind fun _ _ _ => .ok rfl
  refine checked.bind fun _ _ _ => ?_
  refine (checkArity_alike hV hl hl' arity _).bind fun _ _ _ => ?_
  exact .ok rfl

end

end Schema

end CallContract
