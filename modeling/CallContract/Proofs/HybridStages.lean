import CallContract.Proofs.ErrorFamily
import CallContract.Proofs.Pairing

/-!
# The stages of a hybrid validation

A hybrid validation is a sequence of stages: the values by position, with null in place of those at
destructured positions, and then each destructured position in ascending order. It ends as the first
stage does that fails (`Compiler.hybrid_stages`), and the label of a violation tells which stage
that was, since the labels of the nested schemas differ from each other and from that of the schema
itself (`Schema.Compiled.label_unique`).
-/

namespace CallContract

namespace Schema

/-- The values with null in place of those at destructured positions. -/
def masked (s : Schema) (vs : List Value) : List Value :=
  vs.mapIdx fun i v => if s.hybrids.contains (i : Int) then .null else v

end Schema

namespace Listed

variable {ps : List Parameter} (h : Listed ps) (label : Value)
include h

theorem contains_hybrids_iff {i : Nat} {p : Parameter} (hi : ps[i]? = some p) :
    (Schema.listing label ps).hybrids.contains (i : Int) = true ↔
      ∃ nested, p.expected = .bag nested := by
  rw [Table.contains_iff]
  constructor
  · rintro ⟨j, hj, hij⟩
    obtain ⟨e, he, rfl⟩ := List.mem_map.1 hj
    obtain ⟨q, hq, hbag, hpos⟩ := Schema.mem_hybrids.1 he
    have hqi := h.mem_numbered hq
    rw [hpos, ← eq_of_beq hij, Int.toNat_natCast, hi] at hqi
    obtain rfl := Option.some.inj hqi
    exact ⟨e.2, hbag⟩
  · rintro ⟨nested, hbag⟩
    have hmem : ((i : Int), nested) ∈ (Schema.listing label ps).hybrids.entries :=
      Schema.mem_hybrids.2 ⟨p, List.mem_of_getElem? hi, hbag, h.numbered i p hi⟩
    exact ⟨i, List.mem_map_of_mem hmem, beq_self_eq_true _⟩

theorem checkParam_masked {i : Nat} {p : Parameter} (hi : ps[i]? = some p)
    (hexp : p.expected.Flat ∨ ∃ nested, p.expected = .bag nested) (vs : List Value) :
    (Schema.listing label ps).checkParam (Arguments.pair (.listing label ps) vs) false false p.name =
      (Schema.listing label ps).checkParam
        (Arguments.pair (.listing label ps) ((Schema.listing label ps).masked vs)) false true
        p.name := by
  have hp := List.mem_of_getElem? hi
  have hget := h.get?_pair label hi vs
  have hmasked := h.get?_pair label hi ((Schema.listing label ps).masked vs)
  rw [Schema.masked, List.getElem?_mapIdx] at hmasked
  cases hv : vs[i]? with
  | none =>
    rw [hv] at hget hmasked
    simp only [Schema.checkParam, hget, hmasked, Schema.masked, Option.map_none]
  | some v =>
    rw [hv] at hget hmasked
    rcases hexp with flat | ⟨nested, hbag⟩
    · have hno : ¬ (Schema.listing label ps).hybrids.contains (i : Int) = true := by
        rw [h.contains_hybrids_iff label hi]
        rintro ⟨nested, hbag⟩
        rw [hbag] at flat
        cases flat
      rw [Option.map_some, if_neg hno] at hmasked
      rcases v.null_or_undefined_or_there with rfl | rfl | hthere
      · simp only [Schema.checkParam, hget, hmasked, Schema.masked]
      · simp only [Schema.checkParam, hget, hmasked, Schema.masked]
      · rw [Schema.masked, Schema.checkParam_of_value _ _ hget hthere,
          Schema.checkParam_of_value _ _ hmasked hthere, h.expected_eq label hp]
        generalize p.expected = e at flat
        cases flat <;> rfl
    · have hyes := (h.contains_hybrids_iff label hi).2 ⟨nested, hbag⟩
      rw [Option.map_some, if_pos hyes] at hmasked
      rcases v.null_or_undefined_or_there with rfl | rfl | hthere
      · simp only [Schema.checkParam, hget, hmasked, Schema.masked]
      · simp only [Schema.checkParam, hget, hmasked, Schema.masked]
        rfl
      · rw [Schema.checkParam_of_value _ _ hget hthere, h.expected_eq label hp, hbag]
        simp only [Schema.checkParam, hmasked, Schema.masked]
        rfl

end Listed

namespace Schema

variable {s : Schema} {label : Value} {labelText : String}

theorem Compiled.checkValues_masked (h : s.Compiled label labelText) (vs : List Value) :
    s.checkValues vs false = s.checkValues (s.masked vs) true := by
  obtain ⟨ps, rfl, listed, hexp⟩ := h
  have present {p : Parameter} (hp : p ∈ ps) :
      (Arguments.pair (.listing label ps) vs).contains p.name =
        (Arguments.pair (.listing label ps) ((listing label ps).masked vs)).contains p.name := by
    obtain ⟨i, hi⟩ := List.mem_iff_getElem?.1 hp
    rw [listed.contains_pair label hi, listed.contains_pair label hi, masked, List.getElem?_mapIdx,
      Option.isSome_map]
  have required := checkRequired_congr (s := listing label ps) fun name hname => by
    obtain ⟨p, hp, rfl⟩ := List.mem_map.1 hname
    exact present (List.mem_filter.1 hp).1
  have types : (listing label ps).checkTypes (Arguments.pair (.listing label ps) vs) false false =
      (listing label ps).checkTypes
        (Arguments.pair (.listing label ps) ((listing label ps).masked vs)) false true := by
    refine forM_congr fun name hname => ?_
    obtain ⟨p, hp, rfl⟩ := List.mem_map.1 hname
    obtain ⟨i, hi⟩ := List.mem_iff_getElem?.1 hp
    exact listed.checkParam_masked label hi ((hexp p hp).imp_right fun ⟨n, hn, _⟩ => ⟨n, hn⟩) vs
  have length : ((listing label ps).masked vs).length = vs.length := by simp [masked]
  rw [checkValues, checkValues, required, typecheck, typecheck, types, length]
  rfl

end Schema

inductive Stage where
  /-- The values by position. -/
  | values
  /-- The argument destructured at a position. -/
  | bag (index : Int)

namespace Schema

variable (s : Schema)

def stages : List Stage := .values :: s.hybrids.keys.map .bag

/-- How a stage ends: a destructured argument, or `undefined` in place of one that is not there, is
validated by itself along the nested schema, and a value that is no mapping mismatches. -/
def stage (vs : List Value) : Stage → Except Failure Unit
  | .values => s.validatePositional (.list (s.masked vs))
  | .bag index =>
    match s.hybrids.get? index with
    | none => .ok ()
    | some nested =>
      let v := vs[index.toNat]?.getD .undefined
      if v.fragment?.isSome then nested.validateNamed v
      else nested.mismatch ((paramAt? s.params index).getD .null) (mappingText v) "mapping" v

/-- The label under which a stage reports its violations. -/
def stageLabel : Stage → Value
  | .values => s.name
  | .bag index => bagLabel s.name.shownText index

theorem validateNamed_singleton {v : Value} (h : v.fragment?.isSome) :
    s.validateNamed (.list [v]) = s.validateNamed v := by
  have alone : v.fragments? = some [v] ∧ v.interruption? = none := by
    cases v with
    | null | undefined | mapping => exact ⟨rfl, rfl⟩
    | _ => cases h
  have listed : Arguments.named s (.list [v]) = Arguments.mergeFragments s [v] :=
    Arguments.named_of_fragments rfl rfl
  rw [validateNamed, validateNamed, listed, Arguments.named_of_fragments alone.2 alone.1]

theorem validateNamed_nothing {v : Value} (h : v = .null ∨ v = .undefined) :
    s.validateNamed (.list [.record []]) = s.validateNamed v := by
  rcases h with rfl | rfl <;> rfl

variable {s} (h : s.hybrids.keys.Pairwise (· < ·))
include h

theorem validateBag_eq_stage (vs : List Value) {entry : Int × Schema}
    (hentry : entry ∈ s.hybrids.entries) : s.validateBag vs entry = s.stage vs (.bag entry.1) := by
  obtain ⟨index, nested⟩ := entry
  have hget : s.hybrids.get? index = some nested :=
    Table.get?_of_mem (apart_of_ascends h) hentry (beq_self_eq_true index)
  simp only [validateBag, stage, hget, Value.isMapping_eq]
  generalize vs[index.toNat]?.getD .undefined = bag
  cases bag with
  | null => exact nested.validateNamed_nothing (.inl rfl)
  | undefined => exact nested.validateNamed_nothing (.inr rfl)
  | mapping kind entries => exact nested.validateNamed_singleton rfl
  | _ => rfl

theorem validateBags_eq_stages (vs : List Value) :
    (ascending s.hybrids).forM (s.validateBag vs) =
      (s.hybrids.keys.map Stage.bag).forM (s.stage vs) := by
  rw [ascending_eq h, Table.keys, List.map_map, List.forM_eq_forM, List.forM_eq_forM, List.forM_map]
  exact forM_congr fun entry hentry => validateBag_eq_stage h vs hentry

end Schema

theorem toString_injective {m n : Nat} (h : toString m = toString n) : m = n := by
  have digits : Nat.toDigits 10 m = Nat.toDigits 10 n := by
    simpa using congrArg String.toList h
  rw [← Nat.ofDigitChars_ten_toDigits (n := m), digits, Nat.ofDigitChars_ten_toDigits]

namespace Schema

variable {s : Schema} {label : Value} {labelText : String}

theorem bagLabel_beq_iff {i j : Int} (hi : 0 ≤ i) (hj : 0 ≤ j) :
    (bagLabel labelText i == bagLabel labelText j) = true ↔ i = j := by
  obtain ⟨m, rfl⟩ := Int.eq_ofNat_of_zero_le hi
  obtain ⟨n, rfl⟩ := Int.eq_ofNat_of_zero_le hj
  rw [bagLabel, Value.str_beq_iff]
  constructor
  · intro h
    have texts := congrArg String.toList (Option.some.inj h)
    simp only [String.toList_append, List.append_cancel_left_eq, String.toList_inj] at texts
    have digits : toString m = toString n := texts.symm
    rw [toString_injective digits]
  · intro h
    rw [h]
    rfl

theorem bagLabel_ne {i : Int} (hlabel : label.text? = some labelText) :
    (bagLabel labelText i == label) = false := by
  rw [Bool.eq_false_iff, bagLabel, Ne, Value.str_beq_iff, hlabel]
  intro h
  -- the label of a position is the longer one
  have length := congrArg String.length (Option.some.inj h)
  have middle : " destructured arg #".length = 19 := rfl
  rw [String.length_append, String.length_append] at length
  omega

theorem mem_stages {σ : Stage} (hσ : σ ∈ s.stages) :
    σ = .values ∨ ∃ entry ∈ s.hybrids.entries, σ = .bag entry.1 := by
  rcases List.mem_cons.1 hσ with rfl | hσ
  · exact .inl rfl
  · obtain ⟨i, hi, rfl⟩ := List.mem_map.1 hσ
    obtain ⟨entry, hentry, rfl⟩ := List.mem_map.1 hi
    exact .inr ⟨entry, hentry, rfl⟩

namespace Compiled

variable (h : s.Compiled label labelText)
include h

theorem position_nonneg {entry : Int × Schema} (hentry : entry ∈ s.hybrids.entries) :
    0 ≤ entry.1 := by
  obtain ⟨ps, rfl, listed, -⟩ := h
  obtain ⟨p, hp, -, hpos⟩ := mem_hybrids.1 hentry
  rw [← hpos]
  exact listed.position_nonneg hp

theorem paramAt?_text {entry : Int × Schema} (hentry : entry ∈ s.hybrids.entries) :
    ∃ name, paramAt? s.params entry.1 = some name ∧ name.text?.isSome := by
  obtain ⟨ps, rfl, listed, -⟩ := h
  obtain ⟨p, hp, -, hpos⟩ := mem_hybrids.1 hentry
  rw [← hpos]
  exact ⟨p.name, listed.paramAt? hp, listed.texts p hp⟩

theorem validateHybrid_eq_stages (vs : List Value) :
    s.validateHybrid (.list vs) = s.stages.forM (s.stage vs) := by
  rw [validateHybrid_eq rfl rfl, h.checkValues_masked, validateBags_eq_stages h.hybrids_ascend]
  show _ = s.validatePositional _ >>= _
  rw [validatePositional_eq rfl rfl]

/-- No two stages report under the same label. -/
theorem label_unique (hlabel : label.text? = some labelText) {σ τ : Stage} (hσ : σ ∈ s.stages)
    (hτ : τ ∈ s.stages) : (s.stageLabel σ == s.stageLabel τ) = true ↔ τ = σ := by
  have htext : s.name.text? = some labelText := by rw [h.name_eq, hlabel]
  have hshown := Value.shownText_of_text htext
  have values_ne (i : Int) : (bagLabel labelText i == s.name) = false := bagLabel_ne htext
  rcases mem_stages hσ with rfl | ⟨e, he, rfl⟩ <;> rcases mem_stages hτ with rfl | ⟨f, hf, rfl⟩
  · exact ⟨fun _ => rfl, fun _ => Value.beq_self_of_text (by rw [stageLabel, htext]; rfl)⟩
  · simp [stageLabel, hshown, BEq.symm_false (values_ne f.1)]
  · simp [stageLabel, hshown, values_ne e.1]
  · rw [stageLabel, stageLabel, hshown,
      bagLabel_beq_iff (h.position_nonneg he) (h.position_nonneg hf), Stage.bag.injEq]
    exact eq_comm

/-- A violation that ends a stage carries the label of that stage. -/
theorem stage_violation (hlabel : label.text? = some labelText) {vs : List Value} {σ : Stage}
    (hσ : σ ∈ s.stages) {contract : Value} {message : String} {what : Violation}
    (hv : s.stage vs σ = .error (.contract (.violation contract message what))) :
    contract = s.stageLabel σ := by
  have hshown : s.name.shownText = labelText :=
    Value.shownText_of_text (by rw [h.name_eq, hlabel])
  have typed : s.Typed := h.typed (Value.shown_of_text (by rw [hlabel]; rfl))
  rcases mem_stages hσ with rfl | ⟨e, he, rfl⟩
  · have reports : Reports (s.finding .positional (.list (s.masked vs))) (s.stage vs .values) :=
      reports_validate .positional rfl
    obtain ⟨shown, hfound⟩ := reports.of_violation hv
    rcases typed.ordinary_findPositional (p := .list (s.masked vs)) true _ hfound with
      ordinary | ⟨-, -, hnone⟩
    · exact ordinary.contract_eq
    · cases hnone
  · rw [← validateBag_eq_stage h.hybrids_ascend vs he] at hv
    obtain ⟨shown, hfound⟩ := (reports_validateBag vs e).of_violation hv
    have ordinary := (h.nested_typed he).ordinary_findInBag typed _ hfound
    have hname := ordinary.contract_eq
    rw [hname, (h.nested he).name_eq, stageLabel, hshown]

/-- A value that is no mapping mismatches at a destructured position, in the words of the schema
nested there. -/
theorem stage_mismatch {vs : List Value} {e : Int × Schema}
    (he : e ∈ s.hybrids.entries) {v : Value} (hv : vs[e.1.toNat]?.getD .undefined = v)
    (hno : v.fragment? = none) (shown : v.Shown) :
    ∃ name message, s.stage vs (.bag e.1) =
      .error (.violation e.2.name message (.mismatch name (.str "mapping") v)) := by
  obtain ⟨name, hat, htext⟩ := h.paramAt?_text he
  have hget : s.hybrids.get? e.1 = some e.2 :=
    Table.get?_of_mem (apart_of_ascends h.hybrids_ascend) he (beq_self_eq_true e.1)
  have reports : Reports
      (some (.violation e.2.name (.mismatch name (.str "mapping") v) [e.2.name, name, v]))
      (e.2.mismatch name (mappingText v) "mapping" v : Except Failure Unit) :=
    e.2.reports_mismatch ((Shows.literal v).map _)
  obtain ⟨f, hf, ⟨-, message, rfl⟩ | ⟨⟨w, hw, hn⟩, -⟩⟩ := reports.of_some
  · refine ⟨name, message, ?_⟩
    simp only [stage, hget, hv, hno, hat]
    exact hf
  · have all : ∀ w ∈ [e.2.name, name, v], w.Shown := by
      rw [List.forall_mem_cons, List.forall_mem_cons, List.forall_mem_singleton,
        (h.nested he).name_eq]
      exact ⟨⟨_, rfl⟩, Value.shown_of_text htext, shown⟩
    exact absurd (all w hw) hn

end Compiled

end Schema

namespace Compiler

/-- A hybrid validation of a schema that has been compiled under a text ends as the first of its
stages does that fails, in ascending order of the destructured positions. A value that is no mapping
in place of a destructured argument is a mismatch, and the label of a violation is that of the stage
that failed and of no other. -/
theorem hybrid_stages {spec label : Value} {s : Schema} (h : compile spec label = .ok s)
    (hlabel : label.text?.isSome) (vs : List Value) (hvs : ∀ v ∈ vs, v.Shown) :
    s.validateHybrid (.list vs) = s.stages.forM (s.stage vs) ∧
    s.hybrids.keys.Pairwise (· < ·) ∧
    (∀ e ∈ s.hybrids.entries, ∀ v, vs[e.1.toNat]?.getD .undefined = v → v.fragment? = none →
      ∃ name message, s.stage vs (.bag e.1) =
        .error (.violation e.2.name message (.mismatch name (.str "mapping") v))) ∧
    ∀ contract message what,
      s.validateHybrid (.list vs) = .error (.violation contract message what) →
      ∃ before σ after, s.stages = before ++ σ :: after ∧
        (∀ τ ∈ before, s.stage vs τ = .ok ()) ∧
        s.stage vs σ = .error (.violation contract message what) ∧
        ∀ τ ∈ s.stages, (contract == s.stageLabel τ) = true ↔ τ = σ := by
  obtain ⟨-, compiled⟩ := compiled_of_compile h
  obtain ⟨labelText, htext⟩ := Option.isSome_iff_exists.1 hlabel
  rw [Value.shownText_of_text htext] at compiled
  refine ⟨compiled.validateHybrid_eq_stages vs, compiled.hybrids_ascend, fun e he v hv hno => ?_, ?_⟩
  · refine compiled.stage_mismatch he hv hno ?_
    cases hget : vs[e.1.toNat]? with
    | none =>
      rw [hget] at hv
      exact ⟨"UNDEFINED", by rw [← hv]; rfl⟩
    | some w =>
      rw [hget] at hv
      rw [← hv]
      exact hvs w (List.mem_of_getElem? hget)
  · intro contract message what hv
    rw [compiled.validateHybrid_eq_stages] at hv
    obtain ⟨before, σ, after, hstages, hbefore, hσ⟩ := forM_eq_error hv
    have mem : σ ∈ s.stages := by simp [hstages]
    refine ⟨before, σ, after, hstages, hbefore, hσ, fun τ hτ => ?_⟩
    rw [compiled.stage_violation htext mem hσ]
    exact compiled.label_unique htext mem hτ

/-- The second value is destructured and no mapping. -/
theorem hybrid_stages_of_pair : ∃ s,
    compile (.record [("a", .str "!string"), ("b", .record [("x", .str "number")])]) (.str "F") =
      .ok s ∧
    s.validateHybrid (.list [.str "v", .int 1]) = s.stages.forM (s.stage [.str "v", .int 1]) ∧
    ∃ name message, s.stage [.str "v", .int 1] (.bag 1) =
      .error (.violation (.str "F destructured arg #1") message
        (.mismatch name (.str "mapping") (.int 1))) := by
  obtain ⟨s, h⟩ : ∃ s, compile
      (.record [("a", .str "!string"), ("b", .record [("x", .str "number")])]) (.str "F") = .ok s :=
    ⟨_, rfl⟩
  obtain ⟨hstages, -, hmismatch, -⟩ := hybrid_stages h rfl [.str "v", .int 1]
    (List.forall_mem_cons.2 ⟨⟨_, rfl⟩, List.forall_mem_singleton.2 ⟨_, rfl⟩⟩)
  refine ⟨s, h, hstages, ?_⟩
  cases h
  exact hmismatch (1, _) (List.mem_singleton.2 rfl) _ rfl rfl

end Compiler

end CallContract
