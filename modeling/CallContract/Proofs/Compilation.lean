import CallContract.Compiler
import CallContract.Proofs.Listing

/-!
# Compiled entries

What a compilation finds to be wrong with the entries of a specification, in their order, and the
schemas that it returns when it finds nothing: the listing of one parameter for each entry
(`compileEntries_eq_ok`), whose expected types are flat except where an entry declares a mapping
(`Compiled`).
-/

namespace CallContract

theorem ascending_eq {α : Type} {t : Table Int α} (h : t.keys.Pairwise (· < ·)) :
    ascending t = t.entries := by
  obtain ⟨es⟩ := t
  induction es with
  | nil => rfl
  | cons e es ih =>
    obtain ⟨hlt, hes⟩ := List.pairwise_cons.1 h
    show insertAscending e (ascending ⟨es⟩) = e :: es
    rw [ih hes]
    cases es with
    | nil => rfl
    | cons f es =>
      have : e.1 < f.1 := hlt f.1 (List.mem_map_of_mem (by simp))
      rw [insertAscending, if_pos (by omega)]

theorem apart_of_ascends {keys : List Int} (h : keys.Pairwise (· < ·)) : Table.Apart keys :=
  h.imp fun {i j} hij => by
    rw [beq_eq_false_iff_ne]
    omega

/-- The expected types other than a destructured mapping that a declaration can give. -/
inductive Expected.Flat : Expected → Prop
  | wildcard : Flat .wildcard
  | instanceOf (c : ClassName) : Flat (.instanceOf c)
  | primitive (t : Tag) : Flat (.primitive t.name)

namespace Specification

section
variable (label name declared : Value)

def findInDeclaration (findNested : List (Value × Value) → Option Finding) : Option Finding :=
  match declared with
  | .mapping _ entries => findNested entries
  | .str s | .text s => if (readTag? s).isSome then none else some (.malformed [name, label])
  | .cls _ => none
  | _ => some (.malformed [declared, name, label])

def findInEntry (findNested : Nat → List (Value × Value) → Option Finding)
    (entry : (Value × Value) × Nat) : Option Finding :=
  if entry.1.1.text?.isNone then some (.malformed [label, entry.1.1])
  else findInDeclaration label entry.1.1 entry.1.2 (findNested entry.2)

/-- What is wrong with the first entry that is wrong, or that two names are equal. -/
def findInEntries (findNested : Nat → List (Value × Value) → Option Finding)
    (entries : List (Value × Value)) : Option Finding :=
  (entries.zipIdx.findSome? (findInEntry label findNested)).or
    (if Schema.hasDuplicates (entries.map Prod.fst) then some (.malformed [label]) else none)

theorem reports_unknownTag {α : Type} (s : String) :
    Reports (some (.malformed [name, label])) (unknownTag label name s : Except Failure α) := by
  have tags : ∃ shown, Value.listLiteral (Tag.all.map fun t => .str t.name) = .ok shown := ⟨_, rfl⟩
  obtain ⟨shown, htags⟩ := tags
  rw [unknownTag, htags]
  refine Reports.showing (.display name) fun shownName => ?_
  exact Reports.throwing (.display label) fun shownLabel => ⟨_, _, _, rfl⟩

theorem reports_unknownDeclaration {α : Type} :
    Reports (some (.malformed [declared, name, label]))
      (unknownDeclaration label name declared : Except Failure α) := by
  refine Reports.showing (.literal declared) fun shown => ?_
  refine Reports.showing (.display name) fun shownName => ?_
  exact Reports.throwing (.display label) fun shownLabel => ⟨_, _, _, rfl⟩

section
variable {label name declared} {nested : List (Value × Value) → Except Failure Expected} {s : String}
  (hs : declared.text? = some s)
include hs

theorem findInDeclaration_text (findNested : List (Value × Value) → Option Finding) :
    findInDeclaration label name declared findNested =
      if (readTag? s).isSome then none else some (.malformed [name, label]) := by
  cases declared with
  | str | text => cases hs; rfl
  | _ => cases hs

theorem readDeclaration_tag {tag : Tag × Bool} (ht : readTag? s = some tag) :
    readDeclaration label name declared nested = .ok (expectedOfTag tag.1, tag.2) := by
  cases declared with
  | str | text => cases hs; simp only [readDeclaration, ht]
  | _ => cases hs

theorem readDeclaration_no_tag (ht : readTag? s = none) :
    readDeclaration label name declared nested = unknownTag label name s := by
  cases declared with
  | str | text => cases hs; simp only [readDeclaration, ht]
  | _ => cases hs

theorem reports_text (findNested : List (Value × Value) → Option Finding) :
    Reports (findInDeclaration label name declared findNested)
      (readDeclaration label name declared nested) := by
  rw [findInDeclaration_text hs]
  cases ht : readTag? s with
  | some tag =>
    rw [readDeclaration_tag hs ht]
    exact .passes _
  | none =>
    rw [readDeclaration_no_tag hs ht]
    exact reports_unknownTag label name s

end

theorem reports_readDeclaration {findNested : List (Value × Value) → Option Finding}
    {nested : List (Value × Value) → Except Failure Expected}
    (h : ∀ entries, Reports (findNested entries) (nested entries)) :
    Reports (findInDeclaration label name declared findNested)
      (readDeclaration label name declared nested) := by
  cases declared with
  | mapping kind entries => exact (h entries).map fun x => (x, false)
  | str | text => exact reports_text rfl findNested
  | cls c => exact .passes _
  | _ => exact reports_unknownDeclaration label name _

end

variable {label : Value} {nested : Nat → List (Value × Value) → Except Failure Expected}

theorem reports_readParameter {findNested : Nat → List (Value × Value) → Option Finding}
    (h : ∀ i entries, Reports (findNested i entries) (nested i entries))
    (entry : (Value × Value) × Nat) :
    Reports (findInEntry label findNested entry) (readParameter label nested entry) := by
  obtain ⟨⟨name, declared⟩, i⟩ := entry
  simp only [findInEntry, readParameter]
  split
  · refine Reports.showing (.display label) fun shown => ?_
    rw [← bind_assoc]
    refine Reports.stop ?_
    exact Reports.throwing (.literal name) fun shown => ⟨_, _, _, rfl⟩
  · exact (reports_readDeclaration label name declared (h i)).map _

theorem flat_expectedOfTag (t : Tag) : (expectedOfTag t).Flat := by
  rw [expectedOfTag]
  split
  · exact .wildcard
  · exact .primitive t

theorem readDeclaration_eq_ok {label name declared : Value}
    {nested : List (Value × Value) → Except Failure Expected} {x : Expected × Bool}
    (h : readDeclaration label name declared nested = .ok x) :
    x.1.Flat ∨ ∃ entries, declared.entries? = some entries ∧ nested entries = .ok x.1 := by
  have text {s : String} (hs : declared.text? = some s) : x.1.Flat := by
    cases ht : readTag? s with
    | some tag =>
      rw [readDeclaration_tag hs ht] at h
      rw [← Except.ok.inj h]
      exact flat_expectedOfTag tag.1
    | none =>
      obtain ⟨f, hf, -⟩ := (reports_unknownTag (α := Expected × Bool) label name s).of_some
      rw [readDeclaration_no_tag hs ht, hf] at h
      cases h
  cases declared with
  | mapping kind entries =>
    obtain ⟨e, he, h⟩ := bind_eq_ok.1 h
    cases h
    exact .inr ⟨entries, rfl, he⟩
  | str | text => exact .inl (text rfl)
  | cls c =>
    cases h
    exact .inl (.instanceOf c)
  | _ =>
    obtain ⟨f, hf, -⟩ := (reports_unknownDeclaration (α := Expected × Bool) label name _).of_some
    exact absurd (h.symm.trans hf) nofun

theorem readParameter_eq_ok {e : Value × Value} {i : Nat} {p : Parameter}
    (h : readParameter label nested (e, i) = .ok p) :
    p.name = e.1 ∧ e.1.text?.isSome ∧ p.position = i ∧
      readDeclaration label e.1 e.2 (nested i) = .ok (p.expected, p.required) := by
  obtain ⟨name, declared⟩ := e
  simp only [readParameter] at h
  split at h
  · obtain ⟨_, -, h⟩ := bind_eq_ok.1 h
    obtain ⟨_, -, h⟩ := bind_eq_ok.1 h
    cases h
  · obtain ⟨x, hx, h⟩ := bind_eq_ok.1 h
    cases h
    refine ⟨rfl, ?_, rfl, hx⟩
    cases hn : name.text? with
    | none => simp [hn] at *
    | some s => rfl

section
variable {entries : List (Value × Value)} {ps : List Parameter}
  (h : entries.zipIdx.mapM (readParameter label nested) = .ok ps)
include h

theorem read_entry {i : Nat} {p : Parameter} (hi : ps[i]? = some p) :
    ∃ e, entries[i]? = some e ∧ readParameter label nested (e, i) = .ok p := by
  obtain ⟨-, hget⟩ := mapM_eq_ok h
  obtain ⟨⟨e, j⟩, he, hread⟩ := hget i p hi
  rw [List.getElem?_zipIdx] at he
  obtain ⟨e', he', heq⟩ := Option.map_eq_some_iff.1 he
  cases heq
  exact ⟨e, he', by simpa using hread⟩

theorem names_of_read : ps.map (·.name) = entries.map Prod.fst := by
  obtain ⟨hlen, -⟩ := mapM_eq_ok h
  refine List.ext_getElem? fun i => ?_
  rw [List.getElem?_map, List.getElem?_map]
  cases hi : ps[i]? with
  | none =>
    have : entries[i]? = none := by
      rw [List.getElem?_eq_none_iff] at hi ⊢
      simpa [hlen] using hi
    rw [this]
    rfl
  | some p =>
    obtain ⟨e, he, hread⟩ := read_entry h hi
    rw [he, Option.map_some, Option.map_some, (readParameter_eq_ok hread).1]

theorem texts_of_read : ∀ p ∈ ps, p.name.text?.isSome := by
  intro p hp
  obtain ⟨i, hi⟩ := List.mem_iff_getElem?.1 hp
  obtain ⟨e, -, hread⟩ := read_entry h hi
  obtain ⟨hname, htext, -, -⟩ := readParameter_eq_ok hread
  rwa [hname]

theorem listed_of_read (apart : Table.Apart (entries.map Prod.fst)) : Listed ps where
  numbered i p hi := by
    obtain ⟨e, -, hread⟩ := read_entry h hi
    exact (readParameter_eq_ok hread).2.2.1
  texts := texts_of_read h
  apart := by rwa [names_of_read h]

end

theorem reports_compileEntries {findNested : Nat → List (Value × Value) → Option Finding}
    (h : ∀ i entries, Reports (findNested i entries) (nested i entries))
    (entries : List (Value × Value)) :
    Reports (findInEntries label findNested entries) (compileEntries label nested entries) := by
  refine (Reports.mapM fun entry _ => reports_readParameter h entry).bind fun ps hps => ?_
  split
  next dup =>
    refine Schema.reports_duplicates (texts_of_read hps) fun apart => ?_
    rw [names_of_read hps, ← Schema.hasDuplicates_eq_false_iff, dup] at apart
    cases apart
  next distinct =>
    have apart := Schema.hasDuplicates_eq_false_iff.1 (Bool.eq_false_iff.2 distinct)
    rw [(listed_of_read hps apart).ofParameters]
    exact .passes _

theorem compileEntries_eq_ok {entries : List (Value × Value)} {s : Schema}
    (h : compileEntries label nested entries = .ok s) :
    ∃ ps, entries.zipIdx.mapM (readParameter label nested) = .ok ps ∧ Listed ps ∧
      s = Schema.listing label ps := by
  obtain ⟨ps, hps, h⟩ := bind_eq_ok.1 h
  by_cases apart : Table.Apart (entries.map Prod.fst)
  · have listed := listed_of_read hps apart
    rw [listed.ofParameters] at h
    exact ⟨ps, hps, listed, (Except.ok.inj h).symm⟩
  · rw [← names_of_read hps] at apart
    obtain ⟨f, hf, -⟩ := (Schema.reports_duplicates (texts_of_read hps) apart).of_some
    exact absurd (h.symm.trans hf) nofun

theorem expected_of_read {entries : List (Value × Value)} {ps : List Parameter}
    (h : entries.zipIdx.mapM (readParameter label nested) = .ok ps) {p : Parameter} (hp : p ∈ ps) :
    p.expected.Flat ∨ ∃ (i : Nat) (es : List (Value × Value)),
      p.position = i ∧ nested i es = .ok p.expected := by
  obtain ⟨i, hi⟩ := List.mem_iff_getElem?.1 hp
  obtain ⟨e, -, hread⟩ := read_entry h hi
  obtain ⟨-, -, hpos, hdecl⟩ := readParameter_eq_ok hread
  rcases readDeclaration_eq_ok hdecl with flat | ⟨es, -, hes⟩
  · exact .inl flat
  · exact .inr ⟨i, es, hpos, hes⟩

end Specification

namespace Schema

/-- The label of the schema nested at a position of the schema labelled `labelText`. -/
def bagLabel (labelText : String) (index : Int) : Value :=
  .str (labelText ++ " destructured arg #" ++ toString index)

/-- A schema without destructured arguments, with its tables in order. -/
def Flat (label : Value) (s : Schema) : Prop :=
  ∃ ps, s = listing label ps ∧ Listed ps ∧ ∀ p ∈ ps, p.expected.Flat

/-- A schema with its tables in order, whose destructured arguments have flat schemas, each under
the label of its position. -/
def Compiled (label : Value) (labelText : String) (s : Schema) : Prop :=
  ∃ ps, s = listing label ps ∧ Listed ps ∧ ∀ p ∈ ps, p.expected.Flat ∨
    ∃ nested, p.expected = .bag nested ∧ nested.Flat (bagLabel labelText p.position)

theorem Flat.name_eq {label : Value} {s : Schema} (h : s.Flat label) : s.name = label := by
  obtain ⟨ps, rfl, -⟩ := h
  rfl

namespace Compiled

variable {label : Value} {labelText : String} {s : Schema} (h : s.Compiled label labelText)
include h

theorem name_eq : s.name = label := by
  obtain ⟨ps, rfl, -⟩ := h
  rfl

theorem hybrids_ascend : s.hybrids.keys.Pairwise (· < ·) := by
  obtain ⟨ps, rfl, listed, -⟩ := h
  exact listed.hybrids_ascend label

theorem nested {entry : Int × Schema} (hentry : entry ∈ s.hybrids.entries) :
    entry.2.Flat (bagLabel labelText entry.1) := by
  obtain ⟨ps, rfl, listed, hexp⟩ := h
  obtain ⟨p, hp, hbag, hpos⟩ := mem_hybrids.1 hentry
  rcases hexp p hp with flat | ⟨nested, hnested, hflat⟩
  · rw [hbag] at flat
    cases flat
  · obtain rfl := Expected.bag.inj (hbag.symm.trans hnested)
    rwa [← hpos]

theorem ascending_hybrids : ascending s.hybrids = s.hybrids.entries :=
  ascending_eq h.hybrids_ascend

end Compiled

end Schema

namespace Specification

def findFlat (label : Value) : List (Value × Value) → Option Finding :=
  findInEntries label fun _ _ => none

def findDeep (label : Value) (labelText : String) : List (Value × Value) → Option Finding :=
  findInEntries label fun index => findFlat (Schema.bagLabel labelText index)

theorem malformed_findInEntries {label : Value}
    {findNested : Nat → List (Value × Value) → Option Finding}
    (h : ∀ i entries, Finding.Always (·.offence = .malformed) (findNested i entries))
    (entries : List (Value × Value)) :
    Finding.Always (·.offence = .malformed) (findInEntries label findNested entries) := by
  refine Finding.Always.or (.findSome? fun entry _ => ?_) ?_
  · rw [findInEntry]
    split
    · exact .some rfl
    · unfold findInDeclaration
      split
      · exact h _ _
      · split
        · exact .none
        · exact .some rfl
      · split
        · exact .none
        · exact .some rfl
      · exact .none
      · exact .some rfl
  · split
    · exact .some rfl
    · exact .none

theorem malformed_findDeep (label : Value) (labelText : String) (entries : List (Value × Value)) :
    Finding.Always (·.offence = .malformed) (findDeep label labelText entries) :=
  malformed_findInEntries (fun _ => malformed_findInEntries fun _ _ => .none) entries

section
open Finding

theorem shown_findInEntries {label : Value}
    {findNested : Nat → List (Value × Value) → Option Finding} {entries : List (Value × Value)}
    (hl : label.Shown) (hentries : ∀ e ∈ entries, e.1.Shown ∧ e.2.Shown)
    (h : ∀ i, ∀ v : Value, v.Shown → ∀ es, v.entries? = some es → Always IsShown (findNested i es)) :
    Always IsShown (findInEntries label findNested entries) := by
  refine Always.or (.findSome? fun entry hentry => ?_) ?_
  · obtain ⟨⟨name, declared⟩, i⟩ := entry
    obtain ⟨hn, hd⟩ := hentries (name, declared) (List.fst_mem_of_mem_zipIdx hentry)
    simp only [findInEntry]
    split
    · exact .some (by simp [malformed, IsShown, hl, hn])
    · unfold findInDeclaration
      split
      · exact h i _ hd _ rfl
      · split
        · exact .none
        · exact .some (by simp [malformed, IsShown, hl, hn])
      · split
        · exact .none
        · exact .some (by simp [malformed, IsShown, hl, hn])
      · exact .none
      · exact .some (by simp [malformed, IsShown, hl, hn, hd])
  · split
    · exact .some (by simp [malformed, IsShown, hl])
    · exact .none

theorem shown_findDeep {label : Value} {labelText : String} {entries : List (Value × Value)}
    (hl : label.Shown) (hentries : ∀ e ∈ entries, e.1.Shown ∧ e.2.Shown) :
    Always IsShown (findDeep label labelText entries) :=
  shown_findInEntries hl hentries fun _ _ hv _ hes =>
    shown_findInEntries ⟨_, rfl⟩ (hv.entries hes) fun _ _ _ _ _ => .none

end

theorem reports_compileFlat (label : Value) (entries : List (Value × Value)) :
    Reports (findFlat label entries) (compileFlat label entries) :=
  reports_compileEntries (fun _ _ => .passes _) entries

theorem compileFlat_eq_ok {label : Value} {entries : List (Value × Value)} {s : Schema}
    (h : compileFlat label entries = .ok s) : s.Flat label := by
  obtain ⟨ps, hps, listed, rfl⟩ := compileEntries_eq_ok h
  refine ⟨ps, rfl, listed, fun p hp => ?_⟩
  rcases expected_of_read hps hp with flat | ⟨i, es, -, hes⟩
  · exact flat
  · rw [← Except.ok.inj hes]
    exact .primitive .object

variable {label : Value} {labelText : String} (hl : label.display = .ok labelText)
include hl

theorem nestedLabel_eq (index : Nat) :
    nestedLabel label index = .ok (labelText ++ " destructured arg #" ++ toString index) := by
  rw [nestedLabel, hl]
  rfl

theorem reports_compileDeep (entries : List (Value × Value)) :
    Reports (findDeep label labelText entries) (compileDeep label entries) := by
  refine reports_compileEntries (fun i es => ?_) entries
  rw [nestedLabel_eq hl]
  exact (reports_compileFlat (Schema.bagLabel labelText i) es).map Expected.bag

theorem compileDeep_eq_ok {entries : List (Value × Value)} {s : Schema}
    (h : compileDeep label entries = .ok s) : s.Compiled label labelText := by
  obtain ⟨ps, hps, listed, rfl⟩ := compileEntries_eq_ok h
  refine ⟨ps, rfl, listed, fun p hp => ?_⟩
  rcases expected_of_read hps hp with flat | ⟨i, es, hpos, hes⟩
  · exact .inl flat
  · obtain ⟨text, htext, hrest⟩ := bind_eq_ok.1 hes
    obtain ⟨nested, hn, hbag⟩ := bind_eq_ok.1 hrest
    rw [nestedLabel_eq hl] at htext
    obtain rfl := Except.ok.inj htext
    rw [hpos]
    exact .inr ⟨nested, (Except.ok.inj hbag).symm, compileFlat_eq_ok hn⟩

end Specification

end CallContract
