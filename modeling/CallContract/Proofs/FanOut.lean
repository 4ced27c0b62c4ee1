import CallContract.Proofs.SinkTrees

/-!
# Fan-out

A composite hands an event to its members one after the other and ends with the first one that
fails. Nested composites make no difference to that: an outlet anywhere in a tree of sinks is handed
an event exactly if no outlet in front of it fails on the event (`Sink.lt_length_called_iff`). So a
run of validations reaches an outlet with all of its events exactly if no outlet in front of it fails
on any of them (`Call.heard_by_each_iff`), and the members behind a failing one lose theirs
(`Call.fan_out_incomplete`).
-/

namespace CallContract

def Outlet.Accepts (o : Outlet) (r : Report) : Prop := (o.record r.inSpan r.event).2 = none

namespace Sink

def Accepts (t : Sink) (r : Report) : Prop := (t.record r.inSpan r.event).2 = none

mutual

/-- The outlets that a report is handed to. -/
def called (r : Report) : Sink → List Outlet
  | .outlet o => [o]
  | .composite members => calledOfAll r members
  | .absent => []

def calledOfAll (r : Report) : List Sink → List Outlet
  | [] => []
  | s :: rest =>
    match (s.record r.inSpan r.event).2 with
    | some _ => s.called r
    | none => s.called r ++ calledOfAll r rest

end

mutual

/-- There is a sink in every place of the tree. -/
def Filled : Sink → Prop
  | .outlet _ => True
  | .composite members => AllFilled members
  | .absent => False

def AllFilled : List Sink → Prop
  | [] => True
  | s :: rest => s.Filled ∧ AllFilled rest

end

@[elab_as_elim]
theorem byMembers {P : Sink → Prop} (outlet : ∀ o, P (.outlet o))
    (composite : ∀ members, (∀ s ∈ members, P s) → P (.composite members)) (absent : P .absent)
    (t : Sink) : P t :=
  match t with
  | .outlet o => outlet o
  | .composite members => composite members fun s _ => byMembers outlet composite absent s
  | .absent => absent

section
variable {r : Report} {s : Sink} {rest : List Sink}

theorem recordAll_of_accepts (h : s.Accepts r) :
    recordAll r.inSpan r.event (s :: rest) =
      ((s.record r.inSpan r.event).1 ++ (recordAll r.inSpan r.event rest).1,
        (recordAll r.inSpan r.event rest).2) := by
  unfold Accepts at h
  rw [recordAll]
  generalize s.record r.inSpan r.event = receipt at h
  obtain ⟨seen, failure⟩ := receipt
  cases h
  rfl

theorem recordAll_of_fails (h : ¬ s.Accepts r) :
    recordAll r.inSpan r.event (s :: rest) = s.record r.inSpan r.event := by
  unfold Accepts at h
  rw [recordAll]
  generalize s.record r.inSpan r.event = receipt at h
  obtain ⟨seen, failure⟩ := receipt
  cases failure with
  | none => exact absurd rfl h
  | some f => rfl

theorem calledOfAll_of_accepts (h : s.Accepts r) :
    calledOfAll r (s :: rest) = s.called r ++ calledOfAll r rest := by
  rw [calledOfAll, h]

theorem calledOfAll_of_fails (h : ¬ s.Accepts r) : calledOfAll r (s :: rest) = s.called r := by
  rw [calledOfAll]
  cases hf : (s.record r.inSpan r.event).2 with
  | none => exact absurd hf h
  | some f => rfl

end

theorem record_eq_flatMap (t : Sink) (r : Report) :
    (t.record r.inSpan r.event).1 =
      (t.called r).flatMap fun o => (o.record r.inSpan r.event).1 := by
  induction t using byMembers with
  | outlet o => simp [record, called]
  | absent => rfl
  | composite members ih =>
    rw [record, called]
    induction members with
    | nil => rfl
    | cons s rest ihrest =>
      have hs := ih s (by simp)
      have hrest := ihrest fun s hs => ih s (by simp [hs])
      by_cases h : s.Accepts r
      · rw [recordAll_of_accepts h, calledOfAll_of_accepts h, List.flatMap_append, ← hs, ← hrest]
      · rw [recordAll_of_fails h, calledOfAll_of_fails h, hs]

theorem called_prefix (t : Sink) (r : Report) :
    t.called r <+: t.outlets ∧ (t.Accepts r → t.called r = t.outlets) := by
  induction t using byMembers with
  | outlet o => exact ⟨List.prefix_rfl, fun _ => rfl⟩
  | absent => exact ⟨List.prefix_rfl, fun _ => rfl⟩
  | composite members ih =>
    rw [Accepts, record, called, outlets]
    induction members with
    | nil => exact ⟨List.prefix_rfl, fun _ => rfl⟩
    | cons s rest ihrest =>
      obtain ⟨hs, hsall⟩ := ih s (by simp)
      obtain ⟨hrest, hrestall⟩ := ihrest fun s hs => ih s (by simp [hs])
      rw [outletsOfAll]
      by_cases h : s.Accepts r
      · rw [calledOfAll_of_accepts h, recordAll_of_accepts h, hsall h]
        exact ⟨(List.prefix_append_right_inj _).2 hrest, fun hall => by rw [hrestall hall]⟩
      · rw [calledOfAll_of_fails h, recordAll_of_fails h]
        exact ⟨hs.trans (List.prefix_append _ _), fun hall => absurd hall h⟩

theorem accepts_iff {t : Sink} (filled : t.Filled) (r : Report) :
    t.Accepts r ↔ ∀ o ∈ t.outlets, o.Accepts r := by
  induction t using byMembers with
  | outlet o => simp [Accepts, record, outlets, Outlet.Accepts]
  | absent => exact filled.elim
  | composite members ih =>
    rw [Accepts, record, outlets]
    rw [Filled] at filled
    induction members with
    | nil => simp [recordAll, outletsOfAll]
    | cons s rest ihrest =>
      rw [AllFilled] at filled
      obtain ⟨hfilled, hfilledrest⟩ := filled
      have hs := ih s (by simp) hfilled
      have hrest := ihrest (fun s hs => ih s (by simp [hs])) hfilledrest
      rw [outletsOfAll, List.forall_mem_append, ← hs, ← hrest]
      by_cases h : s.Accepts r
      · rw [recordAll_of_accepts h]
        exact ⟨fun hall => ⟨h, hall⟩, fun hall => hall.2⟩
      · rw [recordAll_of_fails h]
        exact ⟨fun hall => absurd hall h, fun hall => absurd hall.1 h⟩

/-- The outlet at place `i` is handed a report exactly if no outlet in front of it fails on it. -/
theorem lt_length_called_iff {t : Sink} (filled : t.Filled) (r : Report) (i : Nat) :
    i < (t.called r).length ↔
      i < t.outlets.length ∧ ∀ o ∈ t.outlets.take i, o.Accepts r := by
  induction t using byMembers generalizing i with
  | outlet o =>
    rw [called, outlets]
    cases i with
    | zero => simp
    | succ i => simp
  | absent => exact filled.elim
  | composite members ih =>
    rw [called, outlets]
    rw [Filled] at filled
    induction members generalizing i with
    | nil => simp [calledOfAll, outletsOfAll]
    | cons s rest ihrest =>
      rw [AllFilled] at filled
      obtain ⟨hfilled, hfilledrest⟩ := filled
      have hs := ih s (by simp) hfilled
      have hrest := ihrest (fun s hs => ih s (by simp [hs])) hfilledrest
      rw [outletsOfAll, List.length_append, List.take_append, List.forall_mem_append]
      have inside (hi : i < s.outlets.length) :
          i < s.outlets.length + (outletsOfAll rest).length ∧
            ∀ o ∈ (outletsOfAll rest).take (i - s.outlets.length), o.Accepts r := by
        refine ⟨by omega, fun o ho => ?_⟩
        rw [Nat.sub_eq_zero_of_le (by omega), List.take_zero] at ho
        cases ho
      by_cases h : s.Accepts r
      · have all := (accepts_iff hfilled r).1 h
        have front : ∀ o ∈ s.outlets.take i, o.Accepts r :=
          fun o ho => all o (List.mem_of_mem_take ho)
        rw [calledOfAll_of_accepts h, (s.called_prefix r).2 h, List.length_append]
        by_cases hi : i < s.outlets.length
        · exact ⟨fun _ => ⟨(inside hi).1, front, (inside hi).2⟩, fun _ => by omega⟩
        · have shift (n : Nat) : i < s.outlets.length + n ↔ i - s.outlets.length < n := by omega
          rw [shift, shift, hrest]
          exact ⟨fun ⟨hlt, hall⟩ => ⟨hlt, front, hall⟩, fun ⟨hlt, _, hall⟩ => ⟨hlt, hall⟩⟩
      · rw [calledOfAll_of_fails h, hs]
        by_cases hi : i < s.outlets.length
        · exact ⟨fun ⟨_, hall⟩ => ⟨(inside hi).1, hall, (inside hi).2⟩,
            fun ⟨_, hall, _⟩ => ⟨hi, hall⟩⟩
        · -- the outlet on which `s` fails stands in front
          rw [List.take_of_length_le (by omega), ← accepts_iff hfilled]
          exact ⟨fun ⟨hlt, _⟩ => absurd hlt hi, fun ⟨_, hall, _⟩ => absurd hall h⟩

/-- The events that the outlet at place `i` is handed of a run's reports. -/
def heardAt (t : Sink) (i : Nat) (told : List Report) : List Event :=
  (told.filter fun r => decide (i < (t.called r).length)).map (·.event)

theorem heardAt_eq_iff {t : Sink} (filled : t.Filled) {i : Nat} (hi : i < t.outlets.length)
    (told : List Report) :
    t.heardAt i told = told.map (·.event) ↔ ∀ r ∈ told, ∀ o ∈ t.outlets.take i, o.Accepts r := by
  have reaches (r : Report) :
      i < (t.called r).length ↔ ∀ o ∈ t.outlets.take i, o.Accepts r := by
    rw [lt_length_called_iff filled]
    exact and_iff_right hi
  simp only [← reaches]
  constructor
  · intro h r hr
    -- no event is handed twice, so that as many can only be all
    have hlen := congrArg List.length h
    rw [heardAt, List.length_map, List.length_map, List.length_filter_eq_length_iff] at hlen
    exact of_decide_eq_true (hlen r hr)
  · intro h
    rw [heardAt, List.filter_eq_self.2 fun r hr => decide_eq_true (h r hr)]

end Sink

namespace Call

/-- Of a run of validations that share a sink an outlet is handed every event, once and in their
order, exactly if no outlet in front of it fails on any of them. -/
theorem heard_by_each_iff (sink : SinkHandle) (calls : List Call) (σ : Session)
    (filled : (σ.sinkOf (some sink)).Filled) :
    ∃ τ, Action.attemptAll (calls.map fun c => c.run (some sink)) σ = (calls.map outcome, τ) ∧
      (τ.trace = σ.trace ++ (reports calls).flatMap fun r =>
        ((σ.sinkOf (some sink)).called r).flatMap (fun o => (o.record r.inSpan r.event).1) ++
          (σ.sinkOf (some sink)).warnings r) ∧
      ∀ i < (σ.sinkOf (some sink)).outlets.length,
        (σ.sinkOf (some sink)).heardAt i (reports calls) = (reports calls).map (·.event) ↔
          ∀ r ∈ reports calls, ∀ o ∈ (σ.sinkOf (some sink)).outlets.take i, o.Accepts r := by
  obtain ⟨τ, hrun, hτ⟩ := attemptAll_run sink calls σ
  have left : (σ.sinkOf (some sink)).footprint = fun r =>
      ((σ.sinkOf (some sink)).called r).flatMap (fun o => (o.record r.inSpan r.event).1) ++
        (σ.sinkOf (some sink)).warnings r :=
    funext fun r => by rw [Sink.footprint, Sink.record_eq_flatMap]
  refine ⟨τ, hrun, ?_, fun i hi => Sink.heardAt_eq_iff filled hi _⟩
  rw [hτ.trace_eq, left]

def acceptedCall (s : Schema) : Call := ⟨s, .under .positional, .list [.str "x"], false⟩

/-- Of three outlets, the second of which fails, the first two are handed the event. -/
theorem heard_by_each_of_nested : ∃ sink σ s,
    (Sink.composite [.composite [.outlet (.recording "A"), .outlet (.exploding "down")],
      .outlet (.recording "B")]).build.run.run .fresh = (.ok (some sink), σ) ∧
    Compiler.compile (.record [("a", .str "string")]) (.str "F") = .ok s ∧
    (reports [acceptedCall s]).length = 1 ∧
    (σ.sinkOf (some sink)).heardAt 1 (reports [acceptedCall s]) =
      (reports [acceptedCall s]).map (·.event) ∧
    (σ.sinkOf (some sink)).heardAt 2 (reports [acceptedCall s]) ≠
      (reports [acceptedCall s]).map (·.event) := by
  obtain ⟨sink, σ, s, hbuild, hs, houtlets, filled, hreports⟩ : ∃ sink σ s,
      (Sink.composite [.composite [.outlet (.recording "A"), .outlet (.exploding "down")],
        .outlet (.recording "B")]).build.run.run .fresh = (.ok (some sink), σ) ∧
      Compiler.compile (.record [("a", .str "string")]) (.str "F") = .ok s ∧
      (σ.sinkOf (some sink)).outlets = [.recording "A", .exploding "down", .recording "B"] ∧
      (σ.sinkOf (some sink)).Filled ∧
      reports [acceptedCall s] = [⟨.accepted (.str "F") .positional, false⟩] :=
    ⟨_, _, _, rfl, rfl, rfl, ⟨⟨trivial, trivial, trivial⟩, trivial, trivial⟩, rfl⟩
  obtain ⟨-, -, -, hheard⟩ := heard_by_each_iff sink [acceptedCall s] σ filled
  rw [houtlets, hreports] at hheard
  refine ⟨sink, σ, s, hbuild, hs, ?_⟩
  rw [hreports]
  refine ⟨rfl, (hheard 1 (by decide)).2 ?_, fun hall => ?_⟩
  · intro r hr o ho
    obtain rfl := List.mem_singleton.1 ho
    rfl
  · have fails := (hheard 2 (by decide)).1 hall _ (List.mem_singleton_self _) (.exploding "down")
      (by simp)
    cases fails

/-- A recorder behind an outlet that fails is handed nothing, and only the warning is seen. -/
theorem fan_out_incomplete : ∃ sink σ s,
    (Sink.composite [.outlet (.exploding "down"), .outlet (.recording "R")]).build.run.run .fresh =
      (.ok (some sink), σ) ∧
    Compiler.compile (.record [("a", .str "string")]) (.str "F") = .ok s ∧
    (reports [acceptedCall s]).length = 1 ∧
    (σ.sinkOf (some sink)).outlets = [.exploding "down", .recording "R"] ∧
    (σ.sinkOf (some sink)).heardAt 1 (reports [acceptedCall s]) = [] ∧
    ∃ τ, Action.attemptAll [(acceptedCall s).run (some sink)] σ = ([.ok ()], τ) ∧
      τ.trace = σ.trace ++ [.logged Logger.validator .warning
        "Validation sink CompositeSink failed: down"] :=
  ⟨_, _, _, rfl, rfl, rfl, rfl, rfl, _, rfl, rfl⟩

end Call

end CallContract
