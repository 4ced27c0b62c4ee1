import CallContract.Proofs.Acceptance

/-!
# What of a specification matters

A compilation looks into the mappings of a specification and not into the mappings in those, which
declare an object whatever they hold (`Specification.flatten`). It looks at a tag in lower case and
at the entries of a mapping of any kind, so that specifications that are the same in plain
(`Specification.plain`) compile to the same schema. Errors show a specification as it is written,
and the second law is one of successes only.

Both laws replace the declarations of entries one by one, and say that reading a declaration does
not tell the difference. `Except.mapError` forgets of the errors what may differ: nothing for the
first law, everything for the second (`compileEntries_map`).
-/

namespace CallContract

section
variable {ε δ α β : Type} (g : ε → δ)

theorem mapError_bind (x : Except ε α) (k : α → Except ε β) :
    (x >>= k).mapError g = x.mapError g >>= fun a => (k a).mapError g := by
  cases x <;> rfl

theorem mapError_mapM (l : List α) (f : α → Except ε β) :
    (l.mapM f).mapError g = l.mapM fun a => (f a).mapError g := by
  induction l with
  | nil => rfl
  | cons a l ih =>
    rw [List.mapM_cons, List.mapM_cons, mapError_bind]
    refine bind_congr fun b => ?_
    rw [mapError_bind, ih]
    rfl

theorem mapError_id (x : Except ε α) : x.mapError id = x := by
  cases x <;> rfl

variable {g} in
theorem mapError_eq_ok {x : Except ε α} {a : α} : x.mapError g = .ok a ↔ x = .ok a := by
  cases x with
  | ok => exact ⟨fun h => congrArg _ (Except.ok.inj h), fun h => congrArg _ (Except.ok.inj h)⟩
  | error => exact iff_of_false nofun nofun

end

def Failure.forget (_ : Failure) : Unit := ()

namespace Specification

/-- An object in place of a mapping. -/
def cut : Value → Value
  | .mapping _ _ => .str Tag.object.name
  | v => v

/-- A mapping with its values replaced. -/
def mapValues (f : Value → Value) : Value → Value
  | .mapping kind entries => .mapping kind (entries.map (Prod.map id f))
  | v => v

/-- A specification with an object in place of every mapping inside a nested mapping. -/
def flatten (spec : Value) : Value := mapValues (mapValues cut) spec

def lower (s : String) : String := .ofList (s.toList.map Char.toLower)

mutual

/-- A specification with its texts in lower case and with mappings of the plain kind. -/
def plain : Value → Value
  | .mapping _ entries => .mapping .dict (plainEntries entries)
  | .str s => .str (lower s)
  | .text s => .text (lower s)
  | v => v

def plainEntries : List (Value × Value) → List (Value × Value)
  | [] => []
  | (name, declared) :: entries => (name, plain declared) :: plainEntries entries

end

theorem plainEntries_eq (entries : List (Value × Value)) :
    plainEntries entries = entries.map (Prod.map id plain) := by
  induction entries with
  | nil => rfl
  | cons e entries ih => rw [plainEntries, ih]; rfl

theorem toLower_of_le {c : Char} (h : 'a' ≤ c) : c.toLower = c :=
  dif_neg fun upper => absurd (UInt32.le_trans h upper.2) (by decide)

theorem toLower_eq_or_le (c : Char) : c.toLower = c ∨ 'a' ≤ c.toLower := by
  by_cases upper : c.val ≥ 'A'.val ∧ c.val ≤ 'Z'.val
  · have small : c.toLower.val = c.val + 32 := congrArg Char.val (dif_pos upper)
    have hA : 65 ≤ c.val.toNat := UInt32.le_iff_toNat_le.1 upper.1
    have hZ : c.val.toNat ≤ 90 := UInt32.le_iff_toNat_le.1 upper.2
    refine .inr (UInt32.le_iff_toNat_le.2 ?_)
    rw [small]
    show 97 ≤ (c.val.toNat + 32) % 2 ^ 32
    omega
  · exact .inl (dif_neg upper)

theorem toLower_toLower (c : Char) : c.toLower.toLower = c.toLower := by
  rcases toLower_eq_or_le c with same | small
  · rw [same, same]
  · exact toLower_of_le small

theorem toLower_eq_marker {c : Char} : c.toLower = requiredMarker ↔ c = requiredMarker := by
  constructor
  · intro h
    rcases toLower_eq_or_le c with same | small
    · rw [← same, h]
    · rw [h] at small
      exact absurd small (by decide)
  · rintro rfl
    rfl

theorem readTag?_lower (s : String) : readTag? (lower s) = readTag? s := by
  have lowered (cs : List Char) : (cs.map Char.toLower).map Char.toLower = cs.map Char.toLower := by
    rw [List.map_map]
    exact List.map_congr_left fun c _ => toLower_toLower c
  rw [readTag?, readTag?, lower, String.toList_ofList]
  cases s.toList with
  | nil => rfl
  | cons c cs =>
    simp only [List.map_cons, toLower_eq_marker, lowered, toLower_toLower]

section
variable {ε : Type} {g : Failure → ε} {label : Value} {f : Value → Value}

/-- Entries are compiled alike if reading their declarations does not tell them apart. -/
theorem compileEntries_map {nested nested' : Nat → List (Value × Value) → Except Failure Expected}
    (h : ∀ i name declared, (readDeclaration label name (f declared) (nested' i)).mapError g =
      (readDeclaration label name declared (nested i)).mapError g) (entries : List (Value × Value)) :
    (compileEntries label nested' (entries.map (Prod.map id f))).mapError g =
      (compileEntries label nested entries).mapError g := by
  have read (e : (Value × Value) × Nat) :
      (readParameter label nested' (Prod.map (Prod.map id f) id e)).mapError g =
        (readParameter label nested e).mapError g := by
    obtain ⟨⟨name, declared⟩, i⟩ := e
    simp only [readParameter, Prod.map, id]
    split
    · rfl
    · rw [mapError_bind, mapError_bind, h]
  rw [compileEntries, compileEntries, mapError_bind, mapError_bind, mapError_mapM, mapError_mapM,
    List.zipIdx_map, List.mapM_map]
  simp only [Function.comp_def, read]

theorem readDeclaration_cut (name declared : Value) :
    readDeclaration label name (cut declared) (fun _ => .ok (.primitive Tag.object.name)) =
      readDeclaration label name declared fun _ => .ok (.primitive Tag.object.name) := by
  cases declared <;> rfl

theorem compileEntries_map_eq
    {nested nested' : Nat → List (Value × Value) → Except Failure Expected}
    (h : ∀ i name declared, readDeclaration label name (f declared) (nested' i) =
      readDeclaration label name declared (nested i)) (entries : List (Value × Value)) :
    compileEntries label nested' (entries.map (Prod.map id f)) =
      compileEntries label nested entries := by
  have compiled := compileEntries_map (g := id) (fun i name declared => congrArg _ (h i name declared))
    entries
  rwa [mapError_id, mapError_id] at compiled

theorem compileFlat_cut (label : Value) (entries : List (Value × Value)) :
    compileFlat label (entries.map (Prod.map id cut)) = compileFlat label entries :=
  compileEntries_map_eq (fun _ => readDeclaration_cut) entries

theorem compileDeep_flatten (entries : List (Value × Value)) :
    compileDeep label (entries.map (Prod.map id (mapValues cut))) = compileDeep label entries := by
  refine compileEntries_map_eq (fun i name declared => ?_) entries
  cases declared with
  | mapping kind es => simp only [mapValues, readDeclaration, compileFlat_cut]
  | _ => rfl

theorem readDeclaration_plain {name declared : Value}
    {nested nested' : List (Value × Value) → Except Failure Expected}
    (h : ∀ es, (nested' (plainEntries es)).mapError Failure.forget =
      (nested es).mapError Failure.forget) :
    (readDeclaration label name (plain declared) nested').mapError Failure.forget =
      (readDeclaration label name declared nested).mapError Failure.forget := by
  have text {s : String} {v : Value} (hv : v.text? = some (lower s)) (hs : declared.text? = some s) :
      (readDeclaration label name v nested').mapError Failure.forget =
        (readDeclaration label name declared nested).mapError Failure.forget := by
    cases ht : readTag? s with
    | some tag =>
      rw [readDeclaration_tag hs ht, readDeclaration_tag hv (by rw [readTag?_lower, ht])]
    | none =>
      rw [readDeclaration_no_tag hs ht, readDeclaration_no_tag hv (by rw [readTag?_lower, ht])]
      obtain ⟨_, hf, -⟩ := (reports_unknownTag label name s).of_some
      obtain ⟨_, hf', -⟩ := (reports_unknownTag label name (lower s)).of_some
      rw [hf, hf']
      rfl
  cases declared with
  | mapping kind es =>
    simp only [plain, readDeclaration]
    rw [mapError_bind, mapError_bind, h]
  | str s | text s => exact text rfl rfl
  | _ => rfl

theorem compileFlat_plain (label : Value) (entries : List (Value × Value)) :
    (compileFlat label (plainEntries entries)).mapError Failure.forget =
      (compileFlat label entries).mapError Failure.forget := by
  rw [plainEntries_eq]
  exact compileEntries_map (fun _ _ _ => readDeclaration_plain fun _ => rfl) entries

theorem compileDeep_plain (entries : List (Value × Value)) :
    (compileDeep label (plainEntries entries)).mapError Failure.forget =
      (compileDeep label entries).mapError Failure.forget := by
  rw [plainEntries_eq]
  refine compileEntries_map (fun i name declared => readDeclaration_plain fun es => ?_) entries
  refine (mapError_bind _ _ _).trans (Eq.trans ?_ (mapError_bind _ _ _).symm)
  refine bind_congr fun nestedLabel => ?_
  rw [mapError_bind, mapError_bind, compileFlat_plain]

end

theorem entries?_plain (v : Value) : (plain v).entries? = v.entries?.map plainEntries := by
  cases v <;> rfl

theorem entries?_flatten (v : Value) :
    (flatten v).entries? = v.entries?.map fun es => es.map (Prod.map id (mapValues cut)) := by
  cases v <;> rfl

end Specification

namespace Compiler

open Specification

variable {spec label : Value} {entries : List (Value × Value)}

/-- What the compiler asks of the label of a mapping. -/
def checkLabel (label : Value) : Except Failure Unit := do
  if let .null := label then
    refuse (contractLabel ++ " \"label\" cannot be None, did you mean an empty string instead?")
  selfCheck (.record []) label

theorem checkParam_spec_map (hspec : spec.entries? = some entries) :
    contract.checkParam (Arguments.pair contract [spec, label]) false true (.str "spec_map") =
      .ok () := by
  have object : spec.hasTag Tag.object.name = true :=
    Value.hasTag_object_of_entries (by rw [hspec]; rfl)
  have there : spec.IsThere := by
    cases spec with
    | mapping => exact ⟨nofun, nofun⟩
    | _ => cases hspec
  rw [Schema.checkParam_of_value _ _ (supplied_spec_map spec label) there, Schema.expected,
    expects_object]
  show contract.checkValue _ (.primitive Tag.object.name) spec true = .ok ()
  rw [Schema.checkValue, if_pos object]

theorem selfCheck_of_mapping (hspec : spec.entries? = some entries) :
    selfCheck spec label = selfCheck (.record []) label := by
  have required : contract.checkRequired (Arguments.pair contract [spec, label]) =
      contract.checkRequired (Arguments.pair contract [.record [], label]) :=
    Schema.checkRequired_congr (List.forall_mem_cons.2 ⟨rfl, List.forall_mem_singleton.2 rfl⟩)
  have types : contract.checkTypes (Arguments.pair contract [spec, label]) false true =
      contract.checkTypes (Arguments.pair contract [.record [], label]) false true := by
    refine forM_congr (List.forall_mem_cons.2 ⟨?_, List.forall_mem_singleton.2 ?_⟩)
    · have hrecord : (Value.record []).entries? = some [] := rfl
      rw [checkParam_spec_map hspec, checkParam_spec_map hrecord]
    · rw [Schema.checkParam, Schema.checkParam, supplied_label, supplied_label]
  rw [selfCheck, selfCheck, Schema.validatePositional_eq rfl rfl,
    Schema.validatePositional_eq rfl rfl, Schema.checkValues, Schema.checkValues, required,
    Schema.typecheck, Schema.typecheck, types]
  rfl

theorem compile_of_mapping (hspec : spec.entries? = some entries) :
    compile spec label = checkLabel label >>= fun _ => compileDeep label entries := by
  have given : spec ≠ .null := by
    rintro rfl
    cases hspec
  have deep : Specification.compile spec label true = compileDeep label entries := by
    rw [Specification.compile, hspec]
    rfl
  by_cases hlabel : label = .null
  · rw [hlabel]
    rfl
  · have checked : checkLabel label = selfCheck (.record []) label := by
      simp only [checkLabel]
    rw [compile_of_given hlabel given, selfCheck_of_mapping hspec, checked, deep]

/-- What a mapping inside a nested mapping holds does not matter to how a compilation ends. Nor does
the case of letters in tags or the kind of a mapping matter to the schema that is returned, if one
is. -/
theorem presentation_immaterial :
    (∀ spec label, compile (flatten spec) label = compile spec label) ∧
    ∀ spec spec' label s, plain spec' = plain spec → compile spec label = .ok s →
      compile spec' label = .ok s := by
  refine ⟨fun spec label => ?_, fun spec spec' label s hplain h => ?_⟩
  · cases hspec : spec.entries? with
    | none =>
      cases spec with
      | mapping => cases hspec
      | _ => rfl
    | some entries =>
      have hflat := entries?_flatten spec
      rw [hspec] at hflat
      rw [compile_of_mapping hspec, compile_of_mapping hflat, compileDeep_flatten]
  · obtain ⟨-, entries, hspec, -⟩ := compileDeep_of_compile h
    have same := congrArg Value.entries? hplain
    rw [entries?_plain, entries?_plain, hspec] at same
    obtain ⟨entries', hspec', hentries⟩ := Option.map_eq_some_iff.1 same
    rw [compile_of_mapping hspec] at h
    rw [compile_of_mapping hspec']
    obtain ⟨_, hlabel, hdeep⟩ := bind_eq_ok.1 h
    refine bind_eq_ok.2 ⟨_, hlabel, ?_⟩
    rw [← mapError_eq_ok (g := Failure.forget)] at hdeep ⊢
    rw [← compileDeep_plain, hentries, compileDeep_plain, hdeep]

/-- Letters of another case at both levels, and mappings of other kinds at all three. -/
theorem presentation_immaterial_of_kinds : ∃ s,
    compile (.record [("a", .str "!string"), ("b", .record [("x", .str "any"),
      ("y", .record [("deep", .int 1)])])]) (.str "F") = .ok s ∧
    compile (.mapping .proxy [(.str "a", .str "!STRING"), (.str "b", .mapping .ordered
      [(.str "x", .str "Any"), (.str "y", .mapping .env [(.str "deep", .int 1)])])]) (.str "F") =
      .ok s :=
  ⟨_, rfl, presentation_immaterial.2 _ _ _ _ rfl rfl⟩

end Compiler

end CallContract
