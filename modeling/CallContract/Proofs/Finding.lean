import CallContract.Proofs.Shown

/-!
# Findings

A finding is what a check has found to be wrong, apart from the words in which it is reported: the
offence, and the values whose texts the report puts into its message. `Reports finding? outcome`
ties what a check finds to how it ends. Without a finding it succeeds; with one it ends as the
offence says if every value can be shown, and as a value that cannot be shown otherwise.

The relation is kept by the ways in which checks are put together: one after the other, along a
list, and in front of them the texts for the message. So each check has one lemma, and how a whole
validation can end is read off its finding (`Reports.closed_iff`).
-/

namespace CallContract

inductive Offence where
  /-- A value met a class that has no instances to test for. -/
  | untestable
  /-- A parameter has no entry in the table of types. -/
  | untyped
  /-- A specification or a payload has not the right shape. -/
  | malformed
  /-- The contract labelled `contract` is violated. -/
  | violation (contract : Value) (what : Violation)

structure Finding where
  offence : Offence
  /-- The values that the report shows. -/
  shown : List Value

namespace Offence

/-- The failures that report an offence. -/
def EndsIn : Offence → Failure → Prop
  | .untestable, f => f = .untestableClass
  | .untyped, f => ∃ name, f = .untypedParameter name
  | .malformed, f => ∃ message details cause, f = .contract (.configuration message details cause)
  | .violation contract what, f => ∃ message, f = .contract (.violation contract message what)

/-- The offence is one that the errors of the library report. -/
def InFamily : Offence → Prop
  | .untestable | .untyped => False
  | .malformed | .violation _ _ => True

end Offence

namespace Finding

def EndsIn (x : Finding) (f : Failure) : Prop :=
  (∀ v ∈ x.shown, v.Shown) ∧ x.offence.EndsIn f ∨ (∃ v ∈ x.shown, ¬ v.Shown) ∧ Value.CannotShow f

def IsShown (x : Finding) : Prop := ∀ v ∈ x.shown, v.Shown

/-- The finding ends in an error of the library itself. -/
def Reportable (x : Finding) : Prop := x.offence.InFamily ∧ x.IsShown

def violation (contract : Value) (what : Violation) (shown : List Value) : Finding :=
  ⟨.violation contract what, shown⟩

def malformed (shown : List Value) : Finding := ⟨.malformed, shown⟩

def Always (P : Finding → Prop) (o : Option Finding) : Prop := ∀ x, o = some x → P x

namespace Always

variable {P Q : Finding → Prop} {o o' : Option Finding}

theorem mono (hPQ : ∀ x, P x → Q x) (h : Always P o) : Always Q o := fun x hx => hPQ x (h x hx)

theorem none : Always P none := nofun

theorem some {x : Finding} (h : P x) : Always P (some x) := by
  intro y hy
  cases hy
  exact h

theorem or (h : Always P o) (h' : Always P o') : Always P (o.or o') := by
  cases o with
  | none => exact h'
  | some x => exact h

theorem findSome? {β : Type} {l : List β} {find : β → Option Finding}
    (h : ∀ b ∈ l, Always P (find b)) : Always P (l.findSome? find) := by
  intro x hx
  obtain ⟨b, hb, hx⟩ := List.exists_of_findSome?_eq_some hx
  exact h b hb x hx

end Always

theorem EndsIn.contract_iff {x : Finding} {f : Failure} (h : x.EndsIn f) :
    (∃ e, f = .contract e) ↔ x.Reportable := by
  obtain ⟨o, shown⟩ := x
  rcases h with ⟨hs, ho⟩ | ⟨hn, t, rfl⟩
  · cases o with
    | untestable =>
      obtain rfl : f = .untestableClass := ho
      exact ⟨fun ⟨_, h⟩ => (by cases h), fun h => h.1.elim⟩
    | untyped =>
      obtain ⟨name, rfl⟩ := ho
      exact ⟨fun ⟨_, h⟩ => (by cases h), fun h => h.1.elim⟩
    | malformed =>
      obtain ⟨m, d, c, rfl⟩ := ho
      exact ⟨fun _ => ⟨trivial, hs⟩, fun _ => ⟨_, rfl⟩⟩
    | violation contract what =>
      obtain ⟨m, rfl⟩ := ho
      exact ⟨fun _ => ⟨trivial, hs⟩, fun _ => ⟨_, rfl⟩⟩
  · refine ⟨fun ⟨_, h⟩ => (by cases h), fun h => ?_⟩
    obtain ⟨v, hv, hv'⟩ := hn
    exact absurd (h.2 v hv) hv'

end Finding

/-- The outcome is the one of a check with that finding. -/
inductive Reports {α : Type} : Option Finding → Except Failure α → Prop
  | passes (a : α) : Reports none (.ok a)
  | ends {x : Finding} {f : Failure} (h : x.EndsIn f) : Reports (some x) (.error f)

namespace Reports

variable {α β γ : Type} {o o' : Option Finding} {x : Except Failure α}

theorem isOk_iff (h : Reports o x) : (∃ a, x = .ok a) ↔ o = none := by
  cases h with
  | passes a => exact ⟨fun _ => rfl, fun _ => ⟨a, rfl⟩⟩
  | ends h => exact ⟨fun ⟨_, h⟩ => (by cases h), nofun⟩

theorem error (h : Reports o x) {f : Failure} (hx : x = .error f) : ∃ y, o = some y ∧ y.EndsIn f := by
  subst hx
  cases h with
  | ends h => exact ⟨_, rfl, h⟩

theorem of_some {y : Finding} (h : Reports (some y) x) : ∃ f, x = .error f ∧ y.EndsIn f := by
  cases h with
  | ends h => exact ⟨_, rfl, h⟩

/-- A check ends in success or an error of the library exactly if what it finds can be reported. -/
theorem closed_iff (h : Reports o x) :
    ((∃ a, x = .ok a) ∨ ∃ e, x = .error (.contract e)) ↔ ∀ y, o = some y → y.Reportable := by
  cases h with
  | passes a => exact ⟨fun _ => nofun, fun _ => .inl ⟨a, rfl⟩⟩
  | @ends y f h =>
    refine ⟨fun hc z hz => ?_, fun hr => ?_⟩
    · obtain rfl := Option.some.inj hz
      rcases hc with ⟨_, hc⟩ | ⟨e, hc⟩ <;> cases hc
      exact h.contract_iff.1 ⟨e, rfl⟩
    · obtain ⟨e, rfl⟩ := h.contract_iff.2 (hr y rfl)
      exact .inr ⟨e, rfl⟩

theorem of_violation (h : Reports o x) {c : Value} {m : String} {w : Violation}
    (hx : x = .error (.contract (.violation c m w))) :
    ∃ shown, o = some (.violation c w shown) := by
  obtain ⟨⟨offence, shown⟩, rfl, ⟨-, he⟩ | ⟨-, t, ht⟩⟩ := h.error hx
  · cases offence with
    | untestable => cases he
    | untyped => obtain ⟨_, he⟩ := he; cases he
    | malformed => obtain ⟨_, _, _, he⟩ := he; cases he
    | violation c' w' => obtain ⟨_, he⟩ := he; cases he; exact ⟨shown, rfl⟩
  · cases ht

theorem violates {c : Value} {w : Violation} {shown : List Value}
    (h : Reports (some (.violation c w shown)) x) (hs : ∀ v ∈ shown, v.Shown) :
    ∃ m, x = .error (.contract (.violation c m w)) := by
  obtain ⟨f, rfl, ⟨-, m, rfl⟩ | ⟨⟨v, hv, hn⟩, -⟩⟩ := h.of_some
  · exact ⟨m, rfl⟩
  · exact absurd (hs v hv) hn

theorem throw {offence : Offence} {f : Failure} (h : offence.EndsIn f) :
    Reports (some ⟨offence, []⟩) (.error f : Except Failure α) :=
  .ends (.inl ⟨by simp, h⟩)

theorem showing {offence : Offence} {vs ws : List Value} {text : Except Failure String}
    {k : String → Except Failure α} (h : Shows vs text)
    (hk : ∀ s, Reports (some ⟨offence, ws⟩) (k s)) :
    Reports (some ⟨offence, vs ++ ws⟩) (text >>= k) := by
  by_cases hvs : ∀ v ∈ vs, v.Shown
  · obtain ⟨s, rfl⟩ := h.ok hvs
    show Reports _ (k s)
    obtain ⟨f, hks, he⟩ := (hk s).of_some
    rw [hks]
    rcases he with ⟨hs, he⟩ | ⟨⟨w, hw, hn⟩, he⟩
    · refine .ends (.inl ⟨fun v hv => ?_, he⟩)
      rcases List.mem_append.1 hv with hv | hv
      · exact hvs v hv
      · exact hs v hv
    · exact .ends (.inr ⟨⟨w, by simp [show w ∈ ws from hw], hn⟩, he⟩)
  · obtain ⟨v, hv, hn⟩ : ∃ v ∈ vs, ¬ v.Shown := by simpa using hvs
    obtain ⟨s, rfl⟩ := h.error ⟨v, hv, hn⟩
    exact .ends (.inr ⟨⟨v, by simp [hv], hn⟩, s, rfl⟩)

theorem throwing {offence : Offence} {vs : List Value} {text : Except Failure String}
    {fail : String → Failure} (h : Shows vs text) (hf : ∀ s, offence.EndsIn (fail s)) :
    Reports (some ⟨offence, vs⟩) (text >>= fun s => (.error (fail s) : Except Failure α)) := by
  simpa using showing h fun s => throw (α := α) (hf s)

theorem bind {k : α → Except Failure β} (h : Reports o x) (hk : ∀ a, x = .ok a → Reports o' (k a)) :
    Reports (o.or o') (x >>= k) := by
  cases h with
  | passes a => exact hk a rfl
  | ends h => exact .ends h

theorem map (h : Reports o x) (f : α → β) : Reports o (x >>= fun a => .ok (f a)) := by
  cases h with
  | passes a => exact .passes (f a)
  | ends h => exact .ends h

theorem stop {y : Finding} {k : α → Except Failure β} (h : Reports (some y) x) :
    Reports (some y) (x >>= k) := by
  cases h with
  | ends h => exact .ends h

theorem findSome?_cons (find : β → Option Finding) (b : β) (l : List β) :
    (b :: l).findSome? find = (find b).or (l.findSome? find) := by
  rw [List.findSome?_cons]
  cases find b <;> rfl

theorem forM {l : List β} {find : β → Option Finding} {check : β → Except Failure Unit}
    (h : ∀ b ∈ l, Reports (find b) (check b)) : Reports (l.findSome? find) (l.forM check) := by
  induction l with
  | nil => exact .passes ()
  | cons b l ih =>
    rw [findSome?_cons]
    exact (h b (by simp)).bind fun _ _ => ih fun b' hb' => h b' (by simp [hb'])

theorem foldlM {l : List β} {find : β → Option Finding} {step : α → β → Except Failure α}
    (h : ∀ a, ∀ b ∈ l, Reports (find b) (step a b)) {a : α} :
    Reports (l.findSome? find) (l.foldlM step a) := by
  induction l generalizing a with
  | nil => exact .passes a
  | cons b l ih =>
    rw [findSome?_cons, List.foldlM_cons]
    exact (h a b (by simp)).bind fun a' _ => ih fun a b' hb' => h a b' (by simp [hb'])

theorem mapM {l : List β} {find : β → Option Finding} {read : β → Except Failure γ}
    (h : ∀ b ∈ l, Reports (find b) (read b)) : Reports (l.findSome? find) (l.mapM read) := by
  induction l with
  | nil => exact .passes []
  | cons b l ih =>
    have hl := ih fun b' hb' => h b' (by simp [hb'])
    rw [findSome?_cons, List.mapM_cons]
    refine (h b (by simp)).bind fun c _ => ?_
    exact hl.map (c :: ·)

end Reports

end CallContract
