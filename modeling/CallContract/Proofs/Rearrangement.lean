import CallContract.Proofs.Verdict

/-!
# Rearranged contracts and arguments

Neither the entries of a specification nor named arguments have an order that counts for acceptance.
The entries can be written in another order, the arguments be spread over other fragments
(`Arguments.Arranges`): the same payload is looked up, and the two verdicts are alike
(`Specification.namedVerdict_alike`). Order decides which value is objected to, if there are several,
and in which order names are listed (`Compiler.named_rearranged`).
-/

namespace CallContract

namespace Table

variable {κ α : Type} [BEq κ] [PartialEquivBEq κ]

theorem Apart.of_perm {keys keys' : List κ} (h : Apart keys) (hperm : keys'.Perm keys) :
    Apart keys' :=
  (hperm.pairwise_iff fun hab => BEq.symm_false hab).2 h

theorem get?_of_perm {es es' : List (κ × α)} (hperm : es'.Perm es)
    (apart : Apart (es.map Prod.fst)) (k : κ) :
    (⟨es'⟩ : Table κ α).get? k = (⟨es⟩ : Table κ α).get? k := by
  have found {es es' : List (κ × α)} (hperm : es'.Perm es) (apart : Apart (es.map Prod.fst)) {v : α}
      (h : (⟨es'⟩ : Table κ α).get? k = some v) : (⟨es⟩ : Table κ α).get? k = some v := by
    obtain ⟨e, he, hk, rfl⟩ := mem_of_get? h
    exact get?_of_mem apart (hperm.mem_iff.1 he) hk
  have apart' : Apart (es'.map Prod.fst) := apart.of_perm (hperm.map _)
  exact Option.ext fun v => ⟨found hperm apart, found hperm.symm apart'⟩

end Table

namespace Arguments

/-- The fragments hold exactly these entries, in any order and spread over them in any way. -/
structure Arranges (p : Value) (es : List (Value × Value)) : Prop where
  uninterrupted : p.interruption? = none
  fragments : ∃ fs, p.fragments? = some fs ∧ (∀ v ∈ fs, v.fragment?.isSome) ∧
    (fs.flatMap fun v => v.fragment?.getD []).Perm es

theorem arranges_mapping (kind : MappingKind) {es es' : List (Value × Value)} (h : es'.Perm es) :
    Arranges (.mapping kind es') es where
  uninterrupted := rfl
  fragments := ⟨_, rfl, by simp [Value.fragment?], by simpa [Value.fragment?] using h⟩

theorem Arranges.named {p : Value} {es : List (Value × Value)} (h : Arranges p es)
    (apart : Table.Apart (es.map Prod.fst)) :
    ∃ supplied : Payload, supplied.entries.Perm es ∧ ∀ s, named s p = .ok supplied := by
  obtain ⟨fs, hfs, fragments, hperm⟩ := h.fragments
  refine ⟨merged fs, ?_, fun s => ?_⟩
  · rwa [merged, Table.entries_ofList (apart.of_perm (hperm.map _))]
  · rw [named_of_fragments h.uninterrupted hfs, mergeFragments_of_fragments fragments]

end Arguments

/-- It is one value that is wrong. -/
def Violation.IsOfValue : Violation → Prop
  | .undefinedValue _ | .mismatch _ _ _ => True
  | .unspecified _ | .missing _ | .unexpected _ | .tooMany _ _ => False

namespace Specification

/-- Verdicts that differ in the order of names and in the value to which they object. -/
inductive Alike : Option Violation → Option Violation → Prop where
  | accepted : Alike none none
  | missing {names names' : List Value} (h : names'.Perm names) :
    Alike (some (.missing names)) (some (.missing names'))
  | unexpected {names names' : List Value} (h : names'.Perm names) :
    Alike (some (.unexpected names)) (some (.unexpected names'))
  | value {what what' : Violation} (h : what.IsOfValue) (h' : what'.IsOfValue) :
    Alike (some what) (some what')

theorem Alike.symm {verdict verdict' : Option Violation} (h : Alike verdict verdict') :
    Alike verdict' verdict := by
  cases h with
  | accepted => exact .accepted
  | missing h => exact .missing h.symm
  | unexpected h => exact .unexpected h.symm
  | value h h' => exact .value h' h

/-- A violation that lists names, as one of named arguments. -/
def ListsNames (kind : List Value → Violation) : Prop := kind = .missing ∨ kind = .unexpected

theorem Alike.listed {verdict verdict' : Option Violation} (h : Alike verdict verdict')
    {kind : List Value → Violation} (hkind : ListsNames kind) {names : List Value}
    (hlisted : ∃ listed, listed.Perm names ∧ verdict = some (kind listed)) :
    ∃ listed, listed.Perm names ∧ verdict' = some (kind listed) := by
  obtain ⟨listed, hperm, rfl⟩ := hlisted
  rcases hkind with rfl | rfl
  · cases h with
    | missing h => exact ⟨_, h.trans hperm, rfl⟩
    | value h => cases h
  · cases h with
    | unexpected h => exact ⟨_, h.trans hperm, rfl⟩
    | value h => cases h

theorem Alike.ranked {names names' : List Value} (h : names'.Perm names)
    {objection objection' beyond beyond' : Option Violation}
    (rest : Alike (objection.or beyond) (objection'.or beyond')) :
    Alike (ranked names objection beyond) (ranked names' objection' beyond') := by
  cases names with
  | nil =>
    obtain rfl := h.eq_nil
    exact rest
  | cons name names =>
    cases names' with
    | nil => cases h.symm.eq_nil
    | cons => exact .missing h

theorem isOfValue_of_objection {undefinedPasses : Bool} {e : Value × Value} {v? : Option Value}
    {what : Violation} (h : objection? undefinedPasses e v? = some what) : what.IsOfValue := by
  unfold objection? at h
  split at h
  · cases h
  · cases h
  · split at h <;> cases h
    trivial
  · split at h <;> cases h
    trivial

section
variable {entries entries' : List (Value × Value)} (hentries : entries'.Perm entries)
include hentries

theorem requiredNames_perm : (requiredNames entries').Perm (requiredNames entries) :=
  (hentries.filter _).map _

theorem extraNames_perm {t t' : Payload} (hkeys : t'.keys.Perm t.keys) :
    (extraNames entries' t').Perm (extraNames entries t) := by
  have same : extraNames entries' t' = extraNames entries t' := by
    refine List.filter_congr fun k _ => ?_
    rw [hentries.any_eq]
  rw [same]
  exact hkeys.filter _

theorem objection_none_of_perm {f : Value × Value → Option Violation}
    (h : entries.findSome? f = none) : entries'.findSome? f = none := by
  rw [List.findSome?_eq_none_iff] at h ⊢
  exact fun e he => h e (hentries.mem_iff.1 he)

theorem namedVerdict_alike {t t' : Payload} (hkeys : t'.keys.Perm t.keys)
    (hget : ∀ k, t'.get? k = t.get? k) : Alike (namedVerdict entries t) (namedVerdict entries' t') := by
  have missing : ((requiredNames entries').filter fun name => !t'.contains name).Perm
      ((requiredNames entries).filter fun name => !t.contains name) := by
    simp only [Table.contains, hget]
    exact (requiredNames_perm hentries).filter _
  have extras := extraNames_perm hentries hkeys
  refine .ranked missing ?_
  simp only [hget]
  generalize hobject : (fun e : Value × Value => objection? false e (t.get? e.1)) = object
  have ofValue {es : List (Value × Value)} {what : Violation} (h : es.findSome? object = some what) :
      what.IsOfValue := by
    obtain ⟨e, -, he⟩ := List.exists_of_findSome?_eq_some h
    rw [← hobject] at he
    exact isOfValue_of_objection he
  cases ho : entries.findSome? object with
  | some what =>
    cases ho' : entries'.findSome? object with
    | some what' => exact .value (ofValue ho) (ofValue ho')
    | none =>
      rw [objection_none_of_perm hentries.symm ho'] at ho
      cases ho
  | none =>
    rw [objection_none_of_perm hentries ho, Option.none_or, Option.none_or]
    cases hextras : extraNames entries t with
    | nil =>
      rw [hextras] at extras
      rw [extras.eq_nil]
      exact .accepted
    | cons k ks =>
      rw [hextras] at extras
      cases hextras' : extraNames entries' t' with
      | nil =>
        rw [hextras'] at extras
        cases extras.symm.eq_nil
      | cons k' ks' =>
        rw [hextras'] at extras
        exact .unexpected extras

theorem WellFormedEntries.of_perm {P : Value → Prop} (h : WellFormedEntries P entries) :
    WellFormedEntries P entries' where
  texts e he := h.texts e (hentries.mem_iff.1 he)
  declared e he := h.declared e (hentries.mem_iff.1 he)
  apart := h.apart.of_perm (hentries.map _)

end

end Specification

namespace Schema

open Specification

variable {s s' : Schema} {c : Convention} {p p' : Value} {verdict verdict' : Option Violation}

theorem EndsAs.unique (h : s.EndsAs c p verdict) (h' : s.EndsAs c p verdict') :
    verdict = verdict' := by
  cases verdict with
  | none =>
    cases verdict' with
    | none => rfl
    | some what' =>
      obtain ⟨message', h'⟩ := h'
      cases h.symm.trans h'
  | some what =>
    obtain ⟨message, h⟩ := h
    cases verdict' with
    | none => cases h.symm.trans h'
    | some what' =>
      obtain ⟨message', h'⟩ := h'
      cases h.symm.trans h'
      rfl

/-- Named arguments are refused for these names, listed in any order. -/
def RefusesNames (s : Schema) (p : Value) (kind : List Value → Violation) (names : List Value) : Prop :=
  ∃ listed, listed.Perm names ∧ s.EndsAs .named p (some (kind listed))

section
variable (alike : Alike verdict verdict') (ends : s.EndsAs .named p verdict)
  (ends' : s'.EndsAs .named p' verdict')
include alike ends ends'

theorem validate_of_alike (h : s.validate .named p = .ok ()) : s'.validate .named p' = .ok () := by
  have accepted : s.EndsAs .named p none := h
  obtain rfl := ends.unique accepted
  cases alike
  exact ends'

theorem refusesNames_of_alike {kind : List Value → Violation} (hkind : ListsNames kind)
    {names : List Value} (h : s.RefusesNames p kind names) : s'.RefusesNames p' kind names := by
  obtain ⟨listed, hperm, hends⟩ := h
  obtain ⟨listed', hperm', rfl⟩ := alike.listed hkind ⟨listed, hperm, ends.unique hends⟩
  exact ⟨listed', hperm', ends'⟩

end

theorem checkExtra_cases {supplied : Payload} (label : s.name.Shown)
    (shown : ∀ k ∈ supplied.keys, k.Shown) : s.checkExtra supplied = .ok () ∨
      ∃ message extras, s.checkExtra supplied =
        .error (.violation s.name message (.unexpected extras)) := by
  have reports := s.reports_checkExtra supplied
  rw [findExtra] at reports
  cases hextras : supplied.keys.filter fun key => !s.isDeclared key with
  | nil =>
    rw [hextras] at reports
    obtain ⟨_, hok⟩ := reports.isOk_iff.2 rfl
    exact .inl hok
  | cons k ks =>
    rw [hextras] at reports
    have listed : ∀ v ∈ k :: ks, v.Shown := by
      rw [← hextras]
      exact fun v hv => shown v (List.mem_filter.1 hv).1
    obtain ⟨message, hends⟩ := reports.violates (List.forall_mem_cons.2 ⟨label, listed⟩)
    exact .inr ⟨message, _, hends⟩

/-- Apart from undeclared names, the order of a payload makes no difference to its checks. -/
theorem checkNames_of_get? {supplied supplied' : Payload}
    (hget : ∀ k, supplied'.get? k = supplied.get? k) (label : s.name.Shown)
    (shown : ∀ k ∈ supplied.keys, k.Shown) {f : Failure}
    (other : ∀ message extras, f ≠ .violation s.name message (.unexpected extras))
    (h : (s.checkRequired supplied >>= fun _ => s.typecheck supplied true true true) = .error f) :
    (s.checkRequired supplied' >>= fun _ => s.typecheck supplied' true true true) = .error f := by
  have required : s.checkRequired supplied' = s.checkRequired supplied :=
    checkRequired_congr fun name _ => by rw [Table.contains, Table.contains, hget]
  have types : s.checkTypes supplied' true true = s.checkTypes supplied true true :=
    forM_congr fun name _ => by rw [checkParam, checkParam, hget]
  rw [typecheck] at h
  rw [required, typecheck, types]
  cases hrequired : s.checkRequired supplied with
  | error g =>
    rw [hrequired] at h
    exact h
  | ok =>
    cases htypes : s.checkTypes supplied true true with
    | error g =>
      rw [hrequired, htypes] at h
      exact h
    | ok =>
      -- only the undeclared names are left, in their order
      rw [hrequired, htypes] at h
      have h : s.checkExtra supplied = .error f := h
      rcases checkExtra_cases label shown with hok | ⟨message, extras, hends⟩
      · cases hok.symm.trans h
      · exact absurd (Except.error.inj (h.symm.trans hends)) (other message extras)

end Schema

namespace Compiler

open Arguments Specification

variable {spec label : Value} {s : Schema} (h : compile spec label = .ok s)
  {entries : List (Value × Value)} (hspec : spec.entries? = some entries)
include h hspec

theorem compile_of_perm {spec' : Value} {entries' : List (Value × Value)}
    (hspec' : spec'.entries? = some entries') (hentries : entries'.Perm entries) :
    ∃ s', compile spec' label = .ok s' := by
  obtain ⟨hlabel, entries₀, hentries₀, wellFormed⟩ := compile_isOk_iff.1 ⟨s, h⟩
  obtain rfl := Option.some.inj (hspec.symm.trans hentries₀)
  exact compile_isOk_iff.2 ⟨hlabel, entries', hspec', wellFormed.of_perm hentries⟩

/-- Under a contract whose entries stand in another order, and in another arrangement, the same
arguments are accepted, the same names are missing and the same ones undeclared. With the entries in
their order, every other refusal is the same too. -/
theorem named_rearranged (testable : ∀ e ∈ entries, e.2 ≠ .cls .any) {spec' : Value}
    {entries' : List (Value × Value)} (hspec' : spec'.entries? = some entries')
    (hentries : entries'.Perm entries) {es : List (Value × Value)}
    (apart : Table.Apart (es.map Prod.fst)) (shown : ∀ e ∈ es, e.1.Shown ∧ e.2.Shown) {p p' : Value}
    (hp : Arranges p es) (hp' : Arranges p' es) :
    (∃ s', compile spec' label = .ok s' ∧
      (s'.validate .named p' = .ok () ↔ s.validate .named p = .ok ()) ∧
      (∀ names, s'.RefusesNames p' .missing names ↔ s.RefusesNames p .missing names) ∧
      (∀ names, s'.RefusesNames p' .unexpected names ↔ s.RefusesNames p .unexpected names)) ∧
    (∀ f, (∀ message extras, f ≠ .violation label message (.unexpected extras)) →
      (s.validate .named p' = .error f ↔ s.validate .named p = .error f)) := by
  obtain ⟨supplied, hsupplied, named⟩ := hp.named apart
  obtain ⟨supplied', hsupplied', named'⟩ := hp'.named apart
  have hkeys : supplied'.keys.Perm supplied.keys := (hsupplied'.trans hsupplied.symm).map _
  have hget (k : Value) : supplied'.get? k = supplied.get? k :=
    (Table.get?_of_perm hsupplied' apart k).trans (Table.get?_of_perm hsupplied apart k).symm
  have shown₁ : ∀ e ∈ supplied.entries, e.1.Shown ∧ e.2.Shown :=
    fun e he => shown e (hsupplied.mem_iff.1 he)
  have shown₂ : ∀ e ∈ supplied'.entries, e.1.Shown ∧ e.2.Shown :=
    fun e he => shown e (hsupplied'.mem_iff.1 he)
  constructor
  · obtain ⟨s', h'⟩ := compile_of_perm h hspec hspec' hentries
    have testable' : ∀ e ∈ entries', e.2 ≠ .cls .any :=
      fun e he => testable e (hentries.mem_iff.1 he)
    have ends := endsAs_namedVerdict h hspec testable (named s) shown₁
    have ends' := endsAs_namedVerdict h' hspec' testable' (named' s') shown₂
    have alike := namedVerdict_alike hentries hkeys hget
    have names {kind : List Value → Violation} (hkind : ListsNames kind) (names : List Value) :
        s'.RefusesNames p' kind names ↔ s.RefusesNames p kind names :=
      ⟨Schema.refusesNames_of_alike alike.symm ends' ends hkind,
        Schema.refusesNames_of_alike alike ends ends' hkind⟩
    refine ⟨s', h', ?_, names (.inl rfl), names (.inr rfl)⟩
    exact ⟨Schema.validate_of_alike alike.symm ends' ends, Schema.validate_of_alike alike ends ends'⟩
  · intro f other
    obtain ⟨hlabel, compiled⟩ := compiled_of_compile h
    have labelled : s.name.Shown := (compiled.typed hlabel.shown).label
    rw [← compiled.name_eq] at other
    have keys {t : Payload} (shown : ∀ e ∈ t.entries, e.1.Shown ∧ e.2.Shown) :
        ∀ k ∈ t.keys, k.Shown := List.forall_mem_map.2 fun e he => (shown e he).1
    rw [Schema.validate, Schema.validateNamed, Schema.validateNamed, named s, named' s]
    exact ⟨Schema.checkNames_of_get? (fun k => (hget k).symm) labelled (keys shown₂) other,
      Schema.checkNames_of_get? hget labelled (keys shown₁) other⟩

omit h hspec

/-- Two undeclared names among the arguments, which are given at once or in two fragments. -/
theorem named_rearranged_of_fragments : ∃ s s',
    compile (.record [("a", .str "!string"), ("b", .str "number")]) (.str "F") = .ok s ∧
    compile (.record [("b", .str "number"), ("a", .str "!string")]) (.str "F") = .ok s' ∧
    s.RefusesNames (.record [("a", .str "v"), ("x", .int 1), ("y", .int 2)]) .unexpected
      [.str "x", .str "y"] ∧
    s'.RefusesNames (.tuple [.record [("y", .int 2), ("a", .str "v")], .null, .record [("x", .int 1)]])
      .unexpected [.str "x", .str "y"] := by
  obtain ⟨s, h⟩ : ∃ s, compile (.record [("a", .str "!string"), ("b", .str "number")]) (.str "F") =
    .ok s := ⟨_, rfl⟩
  let es : List (Value × Value) := [(.str "a", .str "v"), (.str "x", .int 1), (.str "y", .int 2)]
  have apart : Table.Apart (es.map Prod.fst) := by
    unfold Table.Apart
    decide
  have shown : (Value.mapping .dict es).Shown := ⟨_, rfl⟩
  have hp' : Arranges (.tuple [.record [("y", .int 2), ("a", .str "v")], .null,
      .record [("x", .int 1)]]) es :=
    ⟨rfl, _, rfl, by decide, (List.Perm.swap _ _ _).trans (.cons _ (.swap _ _ _))⟩
  have refused : s.RefusesNames (.mapping .dict es) .unexpected [.str "x", .str "y"] := by
    cases h
    exact ⟨_, .refl _, _, rfl⟩
  have hspec' : (Value.record [("b", .str "number"), ("a", .str "!string")]).entries? =
    some [(.str "b", .str "number"), (.str "a", .str "!string")] := rfl
  obtain ⟨⟨s', h', -, -, unexpected⟩, -⟩ := named_rearranged h rfl (by simp) hspec' (.swap _ _ _)
    apart (shown.entries rfl) (arranges_mapping .dict (.refl es)) hp'
  exact ⟨s, s', h, h', refused, (unexpected _).2 refused⟩

end Compiler

end CallContract
