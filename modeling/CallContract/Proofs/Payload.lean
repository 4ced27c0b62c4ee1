import CallContract.Proofs.Checks
import CallContract.Validation

/-!
# Payloads

Arguments whose iteration comes to its end are a sequence of values or are not
(`Value.sequence?`), and a sequence of fragments or not (`Value.fragments?`). The positional values
are that sequence, and the payload of named arguments is the table of the entries of all fragments,
each written over the earlier ones (`named_of_fragments`), unless one of them is no fragment.
-/

namespace CallContract

namespace Value

/-- The values of a sequence. Texts and mappings yield items without being one. -/
def sequence? : Value → Option (List Value)
  | .str _ | .text _ | .bytes _ | .mapping _ _ => none
  | v => v.items?

/-- The fragments that named arguments consist of. -/
def fragments? : Value → Option (List Value)
  | v@.null | v@.undefined | v@(.mapping _ _) => some [v]
  | v => v.sequence?

/-- The entries of a fragment: of a mapping its own, of nothing and `undefined` none. -/
def fragment? : Value → Option (List (Value × Value))
  | .null | .undefined => some []
  | .mapping _ entries => some entries
  | _ => none

theorem fragments?_of_sequence {v : Value} {vs : List Value} (h : v.sequence? = some vs) :
    v.fragments? = some vs := by
  cases v with
  | null | undefined | mapping => cases h
  | _ => exact h

theorem Shown.fragment {v : Value} (h : v.Shown) :
    ∀ e ∈ v.fragment?.getD [], e.1.Shown ∧ e.2.Shown := by
  cases v with
  | mapping kind entries => exact h.entries rfl
  | _ => nofun

theorem kept_of_uninterrupted {start stop step : Int}
    (h : (Value.range start stop step).interruption? = none) :
    ¬ keptLimit < progressionLength start stop step := by
  intro hk
  rw [interruption?, interruptionOf?, if_pos hk] at h
  split at h <;> cases h

end Value

namespace Arguments

variable {s : Schema} {p : Value}

theorem mergeFragment_of_fragment {t : Payload} {v : Value} {es : List (Value × Value)}
    (h : v.fragment? = some es) : mergeFragment s t v = .ok (t.insertMany es) := by
  cases v with
  | null | undefined | mapping => cases h; rfl
  | _ => cases h

def merged (fs : List Value) : Payload := .ofList (fs.flatMap fun v => v.fragment?.getD [])

theorem foldlM_mergeFragment {fs : List Value} (h : ∀ v ∈ fs, v.fragment?.isSome) (t : Payload) :
    fs.foldlM (mergeFragment s) t =
      .ok (t.insertMany (fs.flatMap fun v => v.fragment?.getD [])) := by
  induction fs generalizing t with
  | nil => rfl
  | cons v fs ih =>
    obtain ⟨es, hv⟩ := Option.isSome_iff_exists.1 (h v (by simp))
    rw [List.foldlM_cons, mergeFragment_of_fragment hv, List.flatMap_cons, hv,
      Table.insertMany_append]
    exact ih (fun w hw => h w (by simp [hw])) _

theorem mergeFragments_of_fragments {fs : List Value} (h : ∀ v ∈ fs, v.fragment?.isSome) :
    mergeFragments s fs = .ok (merged fs) :=
  foldlM_mergeFragment h .empty

theorem named_of_fragments {fs : List Value} (hp : p.interruption? = none)
    (h : p.fragments? = some fs) : named s p = mergeFragments s fs := by
  cases p with
  | null | undefined | mapping => cases h; rfl
  | str | text | bytes => cases h
  | range start stop step =>
    simp only [Value.fragments?, Value.sequence?, Value.items?,
      if_neg (Value.kept_of_uninterrupted hp)] at h
    rw [← Option.some.inj h, mergeFragments_progression]
    rfl
  | _ =>
    simp only [Value.fragments?, Value.sequence?] at h
    simp only [named, Value.stream?, hp, h, Option.map_some, Stream.finish]
    cases mergeFragments s fs <;> rfl

theorem named_of_no_fragments (h : p.fragments? = none) : named s p = notFragments s p := by
  cases p with
  | null | undefined | mapping => cases h
  | str | text | bytes => rfl
  | range => cases h
  | _ =>
    simp only [Value.fragments?, Value.sequence?] at h
    simp only [named, Value.stream?, h, Option.map_none]

theorem positionalValues_of_sequence {vs : List Value} (hp : p.interruption? = none)
    (h : p.sequence? = some vs) : positionalValues s p = .ok vs := by
  cases p with
  | null | str | text | bytes | mapping => cases h
  | _ =>
    simp only [Value.sequence?] at h
    simp only [positionalValues, Value.stream?, hp, h, Option.map_some, Stream.finish]
    rfl

end Arguments

end CallContract
