import CallContract.Proofs.Acceptance
import CallContract.Proofs.TwoRuns

/-!
# Labels and names are opaque

The parameters of two compilations, place by place: those of one specification under two labels, or
those of two specifications with the same declarations under different names. They have the same
positions and expected types, and schemas nested in them differ in the label alone
(`Parameter.Renamed`).

So no outcome depends on what a label or a name looks like (`Compiler.labels_and_names_immaterial`).
-/

namespace CallContract

/-- The two names stand in the same place. -/
def SamePlace (names names' : List Value) (name name' : Value) : Prop :=
  ∃ i : Nat, names[i]? = some name ∧ names'[i]? = some name'

theorem SamePlace.eq {names : List Value} {name name' : Value} (h : SamePlace names names name name') :
    name = name' := by
  obtain ⟨i, hi, hi'⟩ := h
  exact Option.some.inj (hi.symm.trans hi')

theorem mapM_forall₂ {α β γ δ ε : Type} {R : α → γ → Prop} {S : β → δ → Prop} {f : α → Except ε β}
    {g : γ → Except ε δ} {as : List α} {cs : List γ} (h : List.Forall₂ R as cs)
    (hS : ∀ a c b d, R a c → f a = .ok b → g c = .ok d → S b d) {bs : List β} {ds : List δ}
    (hbs : as.mapM f = .ok bs) (hds : cs.mapM g = .ok ds) : List.Forall₂ S bs ds := by
  induction h generalizing bs ds with
  | nil =>
    cases hbs
    cases hds
    exact .nil
  | cons hac _ ih =>
    rw [List.mapM_cons] at hbs hds
    obtain ⟨b, hb, hrest⟩ := bind_eq_ok.1 hbs
    obtain ⟨rest, hbs', hcons⟩ := bind_eq_ok.1 hrest
    obtain ⟨d, hd, hrest'⟩ := bind_eq_ok.1 hds
    obtain ⟨rest', hds', hcons'⟩ := bind_eq_ok.1 hrest'
    cases hcons
    cases hcons'
    exact .cons (hS _ _ _ _ hac hb hd) (ih hbs' hds')

theorem forall₂_mem {α β : Type} {R : α → β → Prop} {as : List α} {bs : List β}
    (h : List.Forall₂ R as bs) : List.Forall₂ (fun a b => a ∈ as ∧ b ∈ bs ∧ R a b) as bs := by
  induction h with
  | nil => exact .nil
  | cons hab _ ih =>
    refine .cons ⟨List.mem_cons_self, List.mem_cons_self, hab⟩ (ih.imp ?_)
    rintro a b ⟨ha, hb, hab⟩
    exact ⟨List.mem_cons_of_mem _ ha, List.mem_cons_of_mem _ hb, hab⟩

namespace Schema

/-- The same parameters listed under two labels, and nothing destructured among them. -/
def Relabelled (label label' : Value) (t t' : Schema) : Prop :=
  ∃ ps, t = listing label ps ∧ t' = listing label' ps ∧ Listed ps ∧ ∀ p ∈ ps, p.expected.Flat

end Schema

/-- The same expected type; a schema nested in it may have another label. -/
inductive Expected.Relabelled (label label' : Value) : Expected → Expected → Prop
  | flat {e : Expected} (h : e.Flat) : Relabelled label label' e e
  | bag {t t' : Schema} (h : t.Relabelled label label' t') :
    Relabelled label label' (.bag t) (.bag t')

theorem Expected.Relabelled.alike {label label' : Value} {e e' : Expected}
    (h : e.Relabelled label label' e') : e.Alike e' := by
  cases h with
  | flat h => exact .flat h
  | bag h => exact .bag _ _

/-- The parameter in the same place under another name, in a schema with another label. -/
structure Parameter.Renamed (labelText labelText' : String) (N : Value → Value → Prop)
    (p p' : Parameter) : Prop where
  name : N p.name p'.name
  position : p'.position = p.position
  required : p'.required = p.required
  expected : p.expected.Relabelled (Schema.bagLabel labelText p.position)
    (Schema.bagLabel labelText' p.position) p'.expected

/-- The parameters that two specifications with the same declarations have, under `names` and under
`names'`. -/
structure Twins (labelText labelText' : String) (names names' : List Value) (ps ps' : List Parameter) :
    Prop where
  listed : Listed ps
  listed' : Listed ps'
  spelled : ps.map (·.name) = names
  spelled' : ps'.map (·.name) = names'
  renamed : List.Forall₂ (Parameter.Renamed labelText labelText' (SamePlace names names')) ps ps'

namespace Specification

/-- What a declaration gives does not depend on where it stands, but for a mapping. -/
theorem readDeclaration_same {label label' name name' declared : Value}
    {nested nested' : List (Value × Value) → Except Failure Expected} {e e' : Expected}
    {required required' : Bool}
    (h : readDeclaration label name declared nested = .ok (e, required))
    (h' : readDeclaration label' name' declared nested' = .ok (e', required')) :
    required' = required ∧ ((e.Flat ∧ e' = e) ∨ ∃ es, nested es = .ok e ∧ nested' es = .ok e') := by
  have text {s : String} (hs : declared.text? = some s) : required' = required ∧ e.Flat ∧ e' = e := by
    cases ht : readTag? s with
    | some tag =>
      rw [readDeclaration_tag hs ht] at h h'
      cases h
      cases h'
      exact ⟨rfl, flat_expectedOfTag tag.1, rfl⟩
    | none =>
      obtain ⟨f, hf, -⟩ := (reports_unknownTag (α := Expected × Bool) label name s).of_some
      rw [readDeclaration_no_tag hs ht, hf] at h
      cases h
  cases declared with
  | str | text =>
    obtain ⟨required, same⟩ := text rfl
    exact ⟨required, .inl same⟩
  | mapping kind es =>
    obtain ⟨_, he, h⟩ := bind_eq_ok.1 h
    obtain ⟨_, he', h'⟩ := bind_eq_ok.1 h'
    cases h
    cases h'
    exact ⟨rfl, .inr ⟨es, he, he'⟩⟩
  | cls c =>
    cases h
    cases h'
    exact ⟨rfl, .inl ⟨.instanceOf c, rfl⟩⟩
  | _ =>
    obtain ⟨f, hf, -⟩ := (reports_unknownDeclaration (α := Expected × Bool) label name _).of_some
    exact absurd (h.symm.trans hf) nofun

theorem compileFlat_relabelled {label label' : Value} {fields : List (Value × Value)} {t t' : Schema}
    (h : compileFlat label fields = .ok t) (h' : compileFlat label' fields = .ok t') :
    t.Relabelled label label' t' := by
  obtain ⟨ps, hps, listed, rfl⟩ := compileEntries_eq_ok h
  obtain ⟨ps', hps', -, rfl⟩ := compileEntries_eq_ok h'
  have same : List.Forall₂ (fun p p' : Parameter => p = p') ps ps' := by
    refine mapM_forall₂ (List.forall₂_same.2 fun _ _ => rfl) ?_ hps hps'
    rintro ⟨e, i⟩ _ p p' rfl hread hread'
    obtain ⟨hname, -, hpos, hdecl⟩ := readParameter_eq_ok hread
    obtain ⟨hname', -, hpos', hdecl'⟩ := readParameter_eq_ok hread'
    obtain ⟨hrequired, hexpected⟩ := readDeclaration_same hdecl hdecl'
    have hexpected : p'.expected = p.expected := by
      rcases hexpected with ⟨-, same⟩ | ⟨es, hes, hes'⟩
      · exact same
      · exact Except.ok.inj (hes'.symm.trans hes)
    cases p
    cases p'
    simp_all
  rw [List.forall₂_eq_eq_eq] at same
  refine ⟨ps, rfl, by rw [same], listed, fun p hp => ?_⟩
  rcases expected_of_read hps hp with flat | ⟨i, es, -, hes⟩
  · exact flat
  · rw [← Except.ok.inj hes]
    exact .primitive .object

section
variable {label label' : Value} {entries entries' : List (Value × Value)} {s s' : Schema}
  (hl : label.display = .ok label.shownText) (hl' : label'.display = .ok label'.shownText)
  (hdeclared : entries.map Prod.snd = entries'.map Prod.snd)

include hdeclared

theorem zipIdx_samePlace :
    List.Forall₂ (fun x x' : (Value × Value) × Nat => x'.2 = x.2 ∧ x'.1.2 = x.1.2 ∧
      SamePlace (entries.map Prod.fst) (entries'.map Prod.fst) x.1.1 x'.1.1)
      entries.zipIdx entries'.zipIdx := by
  have length : entries.length = entries'.length := by simpa using congrArg List.length hdeclared
  refine List.forall₂_iff_get.2 ⟨by simpa using length, fun i hi hi' => ?_⟩
  simp only [List.get_eq_getElem, List.getElem_zipIdx]
  rw [List.length_zipIdx] at hi hi'
  refine ⟨trivial, ?_, i, by simp [hi], by simp [hi']⟩
  have := congrArg (·[i]?) hdeclared
  simpa [hi, hi'] using this.symm

include hl hl'

/-- The same declarations under other names and another label give the same parameters but for
those. -/
theorem compileDeep_renamed
    (h : compileDeep label entries = .ok s) (h' : compileDeep label' entries' = .ok s') :
    ∃ ps ps', s = .listing label ps ∧ s' = .listing label' ps' ∧
      Twins label.shownText label'.shownText (entries.map Prod.fst) (entries'.map Prod.fst) ps ps' := by
  obtain ⟨ps, hps, listed, rfl⟩ := compileEntries_eq_ok h
  obtain ⟨ps', hps', listed', rfl⟩ := compileEntries_eq_ok h'
  refine ⟨ps, ps', rfl, rfl, listed, listed', names_of_read hps, names_of_read hps', ?_⟩
  refine mapM_forall₂ (zipIdx_samePlace hdeclared) ?_ hps hps'
  rintro ⟨⟨name, d⟩, i⟩ ⟨⟨name', d'⟩, j⟩ p p' ⟨hij, hd, place⟩ hread hread'
  obtain ⟨hname, -, hpos, hdecl⟩ := readParameter_eq_ok hread
  obtain ⟨hname', -, hpos', hdecl'⟩ := readParameter_eq_ok hread'
  obtain rfl : j = i := hij
  obtain rfl : d' = d := hd
  obtain ⟨hrequired, hexpected⟩ := readDeclaration_same hdecl hdecl'
  refine ⟨by rwa [hname, hname'], by rw [hpos, hpos'], hrequired, ?_⟩
  rcases hexpected with ⟨flat, same⟩ | ⟨es, hes, hes'⟩
  · rw [same]
    exact .flat flat
  · obtain ⟨text, htext, hrest⟩ := bind_eq_ok.1 hes
    obtain ⟨t, ht, hbag⟩ := bind_eq_ok.1 hrest
    obtain ⟨text', htext', hrest'⟩ := bind_eq_ok.1 hes'
    obtain ⟨t', ht', hbag'⟩ := bind_eq_ok.1 hrest'
    rw [nestedLabel_eq hl] at htext
    rw [nestedLabel_eq hl'] at htext'
    obtain rfl := Except.ok.inj htext
    obtain rfl := Except.ok.inj htext'
    rw [← Except.ok.inj hbag, ← Except.ok.inj hbag', hpos]
    exact .bag (compileFlat_relabelled ht ht')

end

end Specification

namespace Schema

section
variable {label label' : Value} {labelText labelText' : String} {N : Value → Value → Prop}
  {ps ps' : List Parameter} (listed : Listed ps) (listed' : Listed ps')
  (h : List.Forall₂ (Parameter.Renamed labelText labelText' N) ps ps')
include listed listed' h

theorem seenAlike_of_renamed {supplied supplied' : Payload}
    (hget : ∀ p ∈ ps, ∀ p' ∈ ps', p.Renamed labelText labelText' N p' →
      supplied.get? p.name = supplied'.get? p'.name) :
    List.Forall₂ (SeenAlike N (listing label ps) (listing label' ps') supplied supplied')
      (listing label ps).params (listing label' ps').params ∧
    List.Forall₂ (SeenAlike N (listing label ps) (listing label' ps') supplied supplied')
      (listing label ps).required (listing label' ps').required := by
  have seen : List.Forall₂ (fun p p' : Parameter => p'.required = p.required ∧
      SeenAlike N (listing label ps) (listing label' ps') supplied supplied' p.name p'.name)
      ps ps' := by
    refine (forall₂_mem h).imp ?_
    rintro p p' ⟨hp, hp', renamed⟩
    refine ⟨renamed.required, renamed.name, Value.shown_of_text (listed.texts p hp),
      Value.shown_of_text (listed'.texts p' hp'), ?_, hget p hp p' hp' renamed⟩
    exact ⟨_, _, listed.types_get? hp (listed.beq_self hp),
      listed'.types_get? hp' (listed'.beq_self hp'), renamed.expected.alike⟩
  refine ⟨?_, ?_⟩
  · simp only [listing, List.forall₂_map_left_iff, List.forall₂_map_right_iff]
    exact seen.imp fun _ _ hseen => hseen.2
  · simp only [listing, List.forall₂_map_left_iff, List.forall₂_map_right_iff]
    have required := List.rel_filter (p := fun p : Parameter => p.required)
      (q := fun p : Parameter => p.required) (fun p p' hseen => by simp [hseen.1]) seen
    exact required.imp fun _ _ hseen => hseen.2

/-- The value of a parameter stands in its place, under whatever name. -/
theorem seenAlike_pair (vs : List Value) :
    let seen := SeenAlike N (listing label ps) (listing label' ps')
      (Arguments.pair (listing label ps) vs) (Arguments.pair (listing label' ps') vs)
    List.Forall₂ seen (listing label ps).params (listing label' ps').params ∧
    List.Forall₂ seen (listing label ps).required (listing label' ps').required := by
  refine seenAlike_of_renamed listed listed' h fun p hp p' hp' renamed => ?_
  rw [listed.get?_pair label (listed.mem_numbered hp),
    listed'.get?_pair label' (listed'.mem_numbered hp'), renamed.position]

variable {V : Value → Violation → Value → Violation → Prop} (hl : label.Shown) (hl' : label'.Shown)
  (hown : ∀ w w', w.Renamed N w' → V label w label' w')
include hl hl' hown

theorem validateValues_renamed (p : Value) (checkBags : Bool) :
    EndAlike V Eq ((listing label ps).validateValues p checkBags)
      ((listing label' ps').validateValues p checkBags) :=
  validateValues_alike hown hl hl' (fun vs => (seenAlike_pair listed listed' h vs).1)
    (fun vs => (seenAlike_pair listed listed' h vs).2) p checkBags

theorem validateNamed_renamed (hN : ∀ name name', N name name' → name = name')
    (hnull : N .null .null) (p : Value) :
    EndAlike V Eq ((listing label ps).validateNamed p) ((listing label' ps').validateNamed p) := by
  have seen (supplied : Payload) :
      List.Forall₂ (SeenAlike N (listing label ps) (listing label' ps') supplied supplied)
        (listing label ps).params (listing label' ps').params ∧
      List.Forall₂ (SeenAlike N (listing label ps) (listing label' ps') supplied supplied)
        (listing label ps).required (listing label' ps').required :=
    seenAlike_of_renamed listed listed' h fun p _ p' _ renamed => by rw [hN _ _ renamed.name]
  have positions : (ps.map fun p => (p.name, p.position)) =
      ps'.map fun p => (p.name, p.position) := by
    rw [← List.forall₂_eq_eq_eq, List.forall₂_map_left_iff, List.forall₂_map_right_iff]
    exact h.imp fun p p' renamed => by rw [hN _ _ renamed.name, renamed.position]
  refine validateNamed_alike hown hl hl' hnull (fun supplied => (seen supplied).1)
    (fun supplied => (seen supplied).2) (fun key => ?_) p
  simp only [isDeclared, listing, positions]

end

theorem Relabelled.validateNamed {label label' : Value} {t t' : Schema}
    (h : t.Relabelled label label' t') (hl : label.Shown) (hl' : label'.Shown)
    {V : Value → Violation → Value → Violation → Prop} (hV : ∀ w, V label w label' w) (p : Value) :
    EndAlike V Eq (t.validateNamed p) (t'.validateNamed p) := by
  obtain ⟨ps, rfl, rfl, listed, flat⟩ := h
  have same : List.Forall₂ (Parameter.Renamed "" "" Eq) ps ps :=
    List.forall₂_same.2 fun p hp => ⟨rfl, rfl, rfl, .flat (flat p hp)⟩
  refine validateNamed_renamed listed listed same hl hl' (fun w w' renamed => ?_)
    (fun _ _ heq => heq) rfl p
  rw [renamed.eq]
  exact hV w

section
variable {labelText labelText' : String} {N : Value → Value → Prop} {ps ps' : List Parameter}
  (listed : Listed ps) (listed' : Listed ps')
  (h : List.Forall₂ (Parameter.Renamed labelText labelText' N) ps ps')
  {V : Value → Violation → Value → Violation → Prop}
include listed listed' h

theorem hybrids_renamed (label label' : Value) : List.Forall₂ (fun e e' : Int × Schema => e'.1 = e.1 ∧
      e.2.Relabelled (bagLabel labelText e.1) (bagLabel labelText' e.1) e'.2 ∧
      ∃ name name', paramAt? (listing label ps).params e.1 = some name ∧
        paramAt? (listing label' ps').params e.1 = some name' ∧ name.Shown ∧ name'.Shown)
    (listing label ps).hybrids.entries (listing label' ps').hybrids.entries := by
  refine List.rel_filterMap ?_ (forall₂_mem h)
  rintro p p' ⟨hp, hp', renamed⟩
  have expected := renamed.expected
  unfold bagOf?
  generalize p.expected = e at expected
  generalize p'.expected = e' at expected
  cases expected with
  | flat flat => cases flat <;> exact .none
  | bag relabelled =>
    refine .some ⟨renamed.position, relabelled, p.name, p'.name, listed.paramAt? hp, ?_,
      Value.shown_of_text (listed.texts p hp), Value.shown_of_text (listed'.texts p' hp')⟩
    rw [← renamed.position]
    exact listed'.paramAt? hp'

theorem validateHybrid_renamed {label label' : Value} (hl : label.Shown) (hl' : label'.Shown)
    (hown : ∀ w w', w.Renamed N w' → V label w label' w')
    (hnested : ∀ i w, V (bagLabel labelText i) w (bagLabel labelText' i) w)
    (hbag : ∀ i name name' v, paramAt? (ps.map (·.name)) i = some name →
      paramAt? (ps'.map (·.name)) i = some name' →
      V (bagLabel labelText i) (.mismatch name (.str "mapping") v) (bagLabel labelText' i)
        (.mismatch name' (.str "mapping") v)) (p : Value) :
    EndAlike V Eq ((listing label ps).validateHybrid p) ((listing label' ps').validateHybrid p) := by
  refine (validateValues_renamed listed listed' h hl hl' hown p false).bind ?_
  rintro vs _ rfl
  rw [ascending_eq (listed.hybrids_ascend label), ascending_eq (listed'.hybrids_ascend label')]
  refine .forM (hybrids_renamed listed listed' h label label') ?_
  rintro ⟨i, t⟩ ⟨j, t'⟩ ⟨hij, relabelled, name, name', hat, hat', shown, shown'⟩
  obtain rfl : j = i := hij
  have nested (p : Value) : EndAlike V Eq (t.validateNamed p) (t'.validateNamed p) :=
    relabelled.validateNamed ⟨_, rfl⟩ ⟨_, rfl⟩ (hnested j) p
  have nameOf : t.name = bagLabel labelText j ∧ t'.name = bagLabel labelText' j := by
    obtain ⟨qs, ht, ht', -⟩ := relabelled
    exact ⟨congrArg Schema.name ht, congrArg Schema.name ht'⟩
  have mismatch (v : Value) : EndAlike V Eq (t.mismatch name (mappingText v) "mapping" v)
      (t'.mismatch name' (mappingText v) "mapping" v : Except Failure Unit) := by
    refine mismatch_alike ?_ ?_ shown shown' ((Shows.literal v).map _) ?_
    · exact nameOf.1 ▸ ⟨_, rfl⟩
    · exact nameOf.2 ▸ ⟨_, rfl⟩
    · rw [nameOf.1, nameOf.2]
      exact hbag j name name' v hat hat'
  simp only [validateBag, hat, hat', Option.getD_some]
  generalize vs[j.toNat]?.getD .undefined = bag
  cases bag with
  | null | undefined => exact nested _
  | _ =>
    dsimp only
    split
    · exact nested _
    · exact mismatch _


end

end Schema

/-- Two violations under labels that correspond; `own` relates those of the outermost contracts, and
`inside` those of the arguments destructured at a position. -/
inductive Corresponds (label label' : Value) (own : Violation → Violation → Prop)
    (inside : Int → Violation → Violation → Prop) :
    Value → Violation → Value → Violation → Prop
  | own {w w' : Violation} (h : own w w') : Corresponds label label' own inside label w label' w'
  | inside {i : Int} {w w' : Violation} (h : inside i w w') :
    Corresponds label label' own inside (Schema.bagLabel label.shownText i) w
      (Schema.bagLabel label'.shownText i) w'

/-- What a destructured argument violates, where the argument itself has another name. -/
def RenamedAt (names names' : List Value) (i : Int) (w w' : Violation) : Prop :=
  w' = w ∨ ∃ name name' v, Schema.paramAt? names i = some name ∧
    Schema.paramAt? names' i = some name' ∧ w = .mismatch name (.str "mapping") v ∧
    w' = .mismatch name' (.str "mapping") v

namespace Compiler

variable {spec spec' label label' : Value} {s s' : Schema}

theorem compile_renamed {entries entries' : List (Value × Value)}
    (hspec : spec.entries? = some entries) (hspec' : spec'.entries? = some entries')
    (hdeclared : entries.map Prod.snd = entries'.map Prod.snd) (h : compile spec label = .ok s)
    (h' : compile spec' label' = .ok s') :
    label.Shown ∧ label'.Shown ∧
    ∃ ps ps', s = .listing label ps ∧ s' = .listing label' ps' ∧
      Twins label.shownText label'.shownText (entries.map Prod.fst) (entries'.map Prod.fst) ps ps' := by
  obtain ⟨hlabel, es, hes, hdeep⟩ := compileDeep_of_compile h
  obtain ⟨hlabel', es', hes', hdeep'⟩ := compileDeep_of_compile h'
  obtain rfl := Option.some.inj (hspec.symm.trans hes)
  obtain rfl := Option.some.inj (hspec'.symm.trans hes')
  exact ⟨hlabel.shown, hlabel'.shown, Specification.compileDeep_renamed hlabel.display
    hlabel'.display hdeclared hdeep hdeep'⟩

theorem validate_relabelled (h : compile spec label = .ok s) (h' : compile spec label' = .ok s')
    (c : Convention) (p : Value) :
    EndAlike (Corresponds label label' Eq fun _ => Eq) Eq (s.validate c p) (s'.validate c p) := by
  obtain ⟨-, entries, hspec, -⟩ := compileDeep_of_compile h
  obtain ⟨hl, hl', ps, ps', rfl, rfl, listed, listed', spelled, spelled', places⟩ :=
    compile_renamed hspec hspec rfl h h'
  have renamed : List.Forall₂ (Parameter.Renamed label.shownText label'.shownText Eq) ps ps' :=
    places.imp fun p p' r => ⟨r.name.eq, r.position, r.required, r.expected⟩
  have own (w w' : Violation) (hw : w.Renamed Eq w') :
      Corresponds label label' Eq (fun _ => Eq) label w label' w' := .own hw.eq.symm
  cases c with
  | named =>
    exact Schema.validateNamed_renamed listed listed' renamed hl hl' own (fun _ _ heq => heq) rfl p
  | positional =>
    have values := Schema.validateValues_renamed listed listed' renamed hl hl' own p true
    exact values.bind fun _ _ _ => .ok rfl
  | hybrid =>
    refine Schema.validateHybrid_renamed listed listed' renamed hl hl' own (fun i w => .inside rfl)
      (fun i name name' v hat hat' => .inside ?_) p
    rw [spelled] at hat
    rw [spelled'] at hat'
    rw [Option.some.inj (hat.symm.trans hat')]

theorem validate_renamed {entries entries' : List (Value × Value)}
    (hspec : spec.entries? = some entries) (hspec' : spec'.entries? = some entries')
    (hdeclared : entries.map Prod.snd = entries'.map Prod.snd) (h : compile spec label = .ok s)
    (h' : compile spec' label' = .ok s') {c : Convention} (hc : c ≠ .named) (p : Value) :
    EndAlike (Corresponds label label'
        (Violation.Renamed (SamePlace (entries.map Prod.fst) (entries'.map Prod.fst)))
        (RenamedAt (entries.map Prod.fst) (entries'.map Prod.fst)))
      Eq (s.validate c p) (s'.validate c p) := by
  obtain ⟨hl, hl', ps, ps', rfl, rfl, listed, listed', spelled, spelled', renamed⟩ :=
    compile_renamed hspec hspec' hdeclared h h'
  cases c with
  | named => exact absurd rfl hc
  | positional =>
    refine (Schema.validateValues_renamed listed listed' renamed hl hl' (fun w w' => .own) p true).bind
      fun _ _ _ => ?_
    exact .ok rfl
  | hybrid =>
    refine Schema.validateHybrid_renamed listed listed' renamed hl hl' (fun w w' => .own)
      (fun i w => .inside (.inl rfl)) (fun i name name' v hat hat' => .inside (.inr ?_)) p
    rw [spelled] at hat
    rw [spelled'] at hat'
    exact ⟨name, name', v, hat, hat', rfl, rfl⟩

/-- Labels and names are opaque. A specification compiles under two labels or under neither, and its
schemas end every validation alike. Two specifications with the same declarations in the same places
end every positional and every hybrid validation alike, whatever their names. -/
theorem labels_and_names_immaterial :
    (∀ spec label label', IsLabel label → IsLabel label' →
      ((∃ s, compile spec label = .ok s) ↔ ∃ s', compile spec label' = .ok s') ∧
      ∀ s s', compile spec label = .ok s → compile spec label' = .ok s' → ∀ c p,
        EndAlike (Corresponds label label' Eq fun _ => Eq) Eq (s.validate c p) (s'.validate c p)) ∧
    ∀ spec spec' label label' entries entries' s s', spec.entries? = some entries →
      spec'.entries? = some entries' → entries.map Prod.snd = entries'.map Prod.snd →
      compile spec label = .ok s → compile spec' label' = .ok s' → ∀ c, c ≠ .named → ∀ p,
        EndAlike (Corresponds label label'
            (Violation.Renamed (SamePlace (entries.map Prod.fst) (entries'.map Prod.fst)))
            (RenamedAt (entries.map Prod.fst) (entries'.map Prod.fst)))
          Eq (s.validate c p) (s'.validate c p) := by
  refine ⟨fun spec label label' hlabel hlabel' => ⟨?_, fun s s' h h' c p => ?_⟩, ?_⟩
  · rw [compile_isOk_iff, compile_isOk_iff]
    exact and_congr_left fun _ => iff_of_true hlabel hlabel'
  · exact validate_relabelled h h' c p
  · intro spec spec' label label' entries entries' s s' hspec hspec' hdeclared h h' c hc p
    exact validate_renamed hspec hspec' hdeclared h h' hc p

/-- A label that reads like that of a nested schema, and names that read like tags. -/
theorem labels_and_names_immaterial_of_tags :
    let spec := Value.record [("a", .str "!string"), ("b", .record [("x", .str "!number")])]
    let spec' := Value.record [("!any", .str "!string"), ("object", .record [("x", .str "!number")])]
    let other := Value.str "f destructured arg #1"
    ∃ s t s', compile spec (.str "f") = .ok s ∧ compile spec other = .ok t ∧
      compile spec' other = .ok s' ∧
      (∀ c p, EndAlike (Corresponds (.str "f") other Eq fun _ => Eq) Eq (s.validate c p)
        (t.validate c p)) ∧
      (∀ p, EndAlike (Corresponds (.str "f") other
        (Violation.Renamed (SamePlace [.str "a", .str "b"] [.str "!any", .str "object"]))
        (RenamedAt [.str "a", .str "b"] [.str "!any", .str "object"]))
        Eq (s.validate .hybrid p) (s'.validate .hybrid p)) ∧
      (∃ message, s.validate .hybrid (.list []) =
        .error (.violation (.str "f") message (.missing [.str "a"]))) ∧
      ∃ message, s'.validate .hybrid (.list []) =
        .error (.violation other message (.missing [.str "!any"])) := by
  have compiled (label : Value) (hlabel : IsLabel label) : ∃ s, compile
      (.record [("a", .str "!string"), ("b", .record [("x", .str "!number")])]) label = .ok s := by
    rw [← (labels_and_names_immaterial.1 _ (.str "f") label (.inl rfl) hlabel).1]
    exact ⟨_, rfl⟩
  obtain ⟨s, h⟩ := compiled (.str "f") (.inl rfl)
  obtain ⟨t, ht⟩ := compiled (.str "f destructured arg #1") (.inl rfl)
  obtain ⟨s', h'⟩ : ∃ s', compile
      (.record [("!any", .str "!string"), ("object", .record [("x", .str "!number")])])
      (.str "f destructured arg #1") = .ok s' := ⟨_, rfl⟩
  have relabelled :=
    (labels_and_names_immaterial.1 _ _ _ (.inl rfl) (.inl rfl)).2 s t h ht
  have renamed := labels_and_names_immaterial.2 _ _ _ _
    [(.str "a", .str "!string"), (.str "b", .record [("x", .str "!number")])]
    [(.str "!any", .str "!string"), (.str "object", .record [("x", .str "!number")])]
    s s' rfl rfl rfl h h' .hybrid nofun
  cases h
  cases ht
  cases h'
  exact ⟨_, _, _, rfl, rfl, rfl, relabelled, renamed, ⟨_, rfl⟩, ⟨_, rfl⟩⟩

end Compiler

end CallContract
