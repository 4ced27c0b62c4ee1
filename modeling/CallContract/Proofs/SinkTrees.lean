import CallContract.Proofs.Reporting

/-!
# Trees of sinks

A session knows a composite by its number and keeps its members apart, so that the tree behind a
handle has to be put together, and is cut off at the number of sinks made. Nothing is ever cut off a
tree that is built from its leaves up (`Sink.sinkOf_build`): every finite tree of sinks stands behind
a handle, and stays there while other sinks are made.
-/

namespace CallContract

namespace Session

/-- Every sink made in `σ` is still there in `τ`, with the members that it had. -/
structure Extends (σ τ : Session) : Prop where
  sinksMade_le : σ.sinksMade ≤ τ.sinksMade
  members : ∀ id < σ.sinksMade, τ.composites.get? id = σ.composites.get? id

namespace Extends
variable {σ τ υ : Session}

theorem refl (σ : Session) : σ.Extends σ := ⟨Nat.le_refl _, fun _ _ => rfl⟩

theorem trans (h : σ.Extends τ) (h' : τ.Extends υ) : σ.Extends υ := by
  refine ⟨Nat.le_trans h.sinksMade_le h'.sinksMade_le, fun id hid => ?_⟩
  rw [h'.members id (Nat.lt_of_lt_of_le hid h.sinksMade_le), h.members id hid]

end Extends

/-- The sink `t` stands behind the handle, from now on and at every depth that it needs. -/
def Stands (σ : Session) (h : Option SinkHandle) (depth : Nat) (t : Sink) : Prop :=
  ∀ τ, σ.Extends τ → ∀ d, depth ≤ d → τ.sinkTo d h = t

end Session

namespace Sink

mutual

def build : Sink → Action (Option SinkHandle)
  | .outlet o => some <$> SinkHandle.ofOutlet o
  | .composite members => do
    let handles ← buildAll members
    some <$> SinkHandle.ofMembers handles
  | .absent => return none

def buildAll : List Sink → Action (List (Option SinkHandle))
  | [] => return []
  | s :: rest => do
    let h ← s.build
    let handles ← buildAll rest
    return h :: handles

end

mutual

/-- How deep composites are nested in a tree. -/
def height : Sink → Nat
  | .outlet _ | .absent => 0
  | .composite members => heightOfAll members + 1

def heightOfAll : List Sink → Nat
  | [] => 0
  | s :: rest => max s.height (heightOfAll rest)

end

mutual

theorem build_stands : ∀ (t : Sink) (σ : Session), ∃ h τ, t.build.run.run σ = (.ok h, τ) ∧
    σ.Extends τ ∧ σ.sinksMade + t.height ≤ τ.sinksMade ∧ τ.Stands h t.height t
  | .outlet o, σ => by
    obtain ⟨τ, hrun, hmade, hcomposites⟩ : ∃ τ, (outlet o).build.run.run σ =
        (.ok (some ⟨σ.sinksMade, some o⟩), τ) ∧ τ.sinksMade = σ.sinksMade + 1 ∧
          τ.composites = σ.composites := by
      cases o <;> exact ⟨_, rfl, rfl, rfl⟩
    refine ⟨_, τ, hrun, ⟨by omega, fun id _ => by rw [hcomposites]⟩, ?_, fun υ _ d _ => ?_⟩
    · rw [height]
      omega
    · cases d <;> simp only [Session.sinkTo]
  | .composite members, σ => by
    obtain ⟨hs, τ, hrun, hext, hle, hstands⟩ := buildAll_stands members σ
    -- the number of a new composite is none of those given before
    have hmade : τ.Extends { τ with
        sinksMade := τ.sinksMade + 1, composites := τ.composites.insert τ.sinksMade hs } := by
      refine ⟨Nat.le_succ _, fun id hid => ?_⟩
      rw [Table.get?_insert, if_neg (by simpa using Nat.ne_of_lt hid)]
    refine ⟨some ⟨τ.sinksMade, none⟩, _, ?_, hext.trans hmade, ?_, fun υ hυ d hd => ?_⟩
    · rw [build, Action.bind_of_ok hrun]
      rfl
    · rw [height]
      show _ ≤ τ.sinksMade + 1
      omega
    · rw [height] at hd
      obtain ⟨d, rfl⟩ : ∃ d', d = d' + 1 := ⟨d - 1, by omega⟩
      have hmembers : υ.composites.get? τ.sinksMade = some hs := by
        rw [hυ.members τ.sinksMade (Nat.lt_succ_self _), Table.get?_insert, if_pos (by simp)]
      simp only [Session.sinkTo, hmembers, Option.getD_some]
      rw [hstands υ (hmade.trans hυ) d (by omega)]
  | .absent, σ => ⟨none, σ, rfl, .refl σ, Nat.le_refl _, fun τ _ d _ => by
    cases d <;> simp only [Session.sinkTo]⟩

theorem buildAll_stands : ∀ (ts : List Sink) (σ : Session), ∃ hs τ,
    (buildAll ts).run.run σ = (.ok hs, τ) ∧ σ.Extends τ ∧
    σ.sinksMade + heightOfAll ts ≤ τ.sinksMade ∧
    ∀ υ, τ.Extends υ → ∀ d, heightOfAll ts ≤ d → hs.map (υ.sinkTo d) = ts
  | [], σ => ⟨[], σ, rfl, .refl σ, Nat.le_refl _, fun _ _ _ _ => rfl⟩
  | t :: ts, σ => by
    obtain ⟨h, τ, hrun, hext, hle, hstands⟩ := build_stands t σ
    obtain ⟨hs, υ, hruns, hexts, hles, hstandss⟩ := buildAll_stands ts τ
    refine ⟨h :: hs, υ, ?_, hext.trans hexts, ?_, fun ρ hρ d hd => ?_⟩
    · rw [buildAll, Action.bind_of_ok hrun, Action.bind_of_ok hruns]
      rfl
    · rw [heightOfAll]
      have := hexts.sinksMade_le
      omega
    · rw [heightOfAll] at hd
      rw [List.map_cons, hstands ρ (hexts.trans hρ) d (by omega), hstandss ρ hρ d (by omega)]

end

/-- Every finite tree of sinks stands behind the handle that its making returns. -/
theorem sinkOf_build (t : Sink) (σ : Session) :
    ∃ h τ, t.build.run.run σ = (.ok h, τ) ∧ τ.sinkOf h = t := by
  obtain ⟨h, τ, hrun, -, hle, hstands⟩ := t.build_stands σ
  exact ⟨h, τ, hrun, hstands τ (.refl τ) τ.sinksMade (by omega)⟩

end Sink

end CallContract
