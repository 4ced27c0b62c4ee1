import CallContract.Compiler
import CallContract.Proofs.TableMerge
import CallContract.Proofs.Validation
import Mathlib.Logic.Relation

/-!
# Merging fragments

The payload of fragments followed by others is the payload of the former with that of the latter
written to it (`Arguments.merged_append`). So it does not matter how entries are spread over
fragments that come one after the other: a run of fragments can be merged beforehand and an empty
one be left out (`Regroups`), as often as one likes and in either direction, and the payload keeps
its entries, their order and the spelling of their keys (`mergeFragments_of_regrouped`).
-/

namespace CallContract

namespace Arguments

variable {s : Schema} {p : Value} {fs gs : List Value}

/-- The iteration comes to its end and gives these fragments. A mapping, nothing and `undefined`
carry themselves, like a sequence with them alone. -/
structure Carries (p : Value) (fs : List Value) : Prop where
  uninterrupted : p.interruption? = none
  fragments : p.fragments? = some fs

/-- The entries that fragments have, in their order. -/
def occurring (fs : List Value) : List (Value × Value) := fs.flatMap fun v => v.fragment?.getD []

/-- One step from fragments to others that are grouped differently. -/
inductive Regroups : List Value → List Value → Prop where
  /-- A mapping of any kind stands for a run of fragments that have been merged beforehand. -/
  | merge {s : Schema} {p : Value} {run : List Value} {t : Payload} (carries : Carries p run)
    (merged : named s p = .ok t) (kind : MappingKind) (before behind : List Value) :
    Regroups (before ++ run ++ behind) (before ++ .mapping kind t.entries :: behind)
  | drop {v : Value} (empty : v = .null ∨ v = .undefined) (before behind : List Value) :
    Regroups (before ++ v :: behind) (before ++ behind)

theorem Carries.named_eq (h : Carries p fs) : named s p = mergeFragments s fs :=
  named_of_fragments h.uninterrupted h.fragments

theorem carries_list (fs : List Value) : Carries (.list fs) fs := ⟨rfl, rfl⟩

theorem carries_self {v : Value} (h : v.fragment?.isSome) : Carries v [v] := by
  cases v with
  | null | undefined | mapping => exact ⟨rfl, rfl⟩
  | _ => cases h

theorem merged_append (fs gs : List Value) : merged (fs ++ gs) = (merged fs).merge (merged gs) := by
  show Table.ofList (occurring (fs ++ gs)) = Table.merge _ (Table.ofList (occurring gs))
  rw [Table.merge_ofList, occurring, List.flatMap_append, Table.ofList, Table.insertMany_append]
  rfl

theorem Regroups.mergeFragments_eq (h : Regroups fs gs) :
    mergeFragments s fs = mergeFragments s gs := by
  -- what stands before the change gives some payload, to which the rest is written
  cases h with
  | @merge s' p run t carries merged kind before behind =>
    rw [carries.named_eq] at merged
    have fragments := Schema.fragments_of_findInFragment
      ((Schema.reports_mergeFragments run).isOk_iff.1 ⟨t, merged⟩)
    obtain rfl := Schema.mergeFragments_eq_ok merged
    have same (u : Payload) : run.foldlM (mergeFragment s) u =
        mergeFragment s u (.mapping kind (Arguments.merged run).entries) := by
      rw [foldlM_mergeFragment fragments, mergeFragment_of_fragment rfl, ← Table.merge_ofList]
      rfl
    simp only [mergeFragments, List.foldlM_append, List.foldlM_cons, bind_assoc, same]
  | @drop v empty before behind =>
    have same (u : Payload) : mergeFragment s u v = .ok u := by
      rcases empty with rfl | rfl <;> rfl
    simp only [mergeFragments, List.foldlM_append, List.foldlM_cons, same]
    rfl

theorem mergeFragments_of_regrouped (h : Relation.EqvGen Regroups fs gs) :
    mergeFragments s fs = mergeFragments s gs := by
  induction h with
  | rel fs gs h => exact h.mergeFragments_eq
  | refl fs => rfl
  | symm fs gs _ ih => exact ih.symm
  | trans fs gs hs _ _ ih ih' => exact ih.trans ih'

/-- Fragments followed by others are merged as the payload of the former to which that of the latter
is written. This condenses the entries of all of them, and it is the same however the fragments are
regrouped, a single one with or without a sequence around it. The keys are equal as values: `1` in
any spelling is one key, a text is the key of its characters, and a frozen set that of its items. -/
theorem merging_homomorphic (s : Schema) {xs ys : List Value}
    (fragments : ∀ v ∈ xs ++ ys, v.fragment?.isSome)
    (keys : ∀ e ∈ occurring (xs ++ ys), e.1.keyDefect? = none) {p q r : Value} (hp : Carries p xs)
    (hq : Carries q ys) (hr : Carries r (xs ++ ys)) :
    ∃ t u : Payload, named s p = .ok t ∧ named s q = .ok u ∧ named s r = .ok (t.merge u) ∧
      (t.merge u).Condenses (occurring (xs ++ ys)) ∧
      (∀ zs r', Relation.EqvGen Regroups (xs ++ ys) zs → Carries r' zs →
        named s r' = .ok (t.merge u)) ∧
      (∀ v ∈ xs ++ ys, ∀ w, Carries w [v] → named s w = named s v) ∧
      (∀ x y, [Value.int 1, .bool true, .float x "1.0", .decimal y "1"].Pairwise
        fun v w => (v == w) = true) ∧
      (∀ c, (Value.str c == .text c) = true) ∧
      ∀ vs ws, (Value.frozenset vs == .frozenset ws) = true ↔
        (∀ v ∈ vs, ∃ w ∈ ws, (v == w) = true) ∧ ∀ w ∈ ws, ∃ v ∈ vs, (w == v) = true := by
  obtain ⟨hxs, hys⟩ := List.forall_mem_append.1 fragments
  have all : mergeFragments s (xs ++ ys) = .ok ((merged xs).merge (merged ys)) := by
    rw [← merged_append, mergeFragments_of_fragments fragments]
  refine ⟨merged xs, merged ys, ?_, ?_, ?_, ?_, ?_, ?_, ?_, ?_, ?_⟩
  · rw [hp.named_eq, mergeFragments_of_fragments hxs]
  · rw [hq.named_eq, mergeFragments_of_fragments hys]
  · rw [hr.named_eq, all]
  · rw [← merged_append]
    exact Table.condenses_ofList fun e he => Value.beq_self_iff.2 (keys e he)
  · intro zs r' regrouped hr'
    rw [hr'.named_eq, ← mergeFragments_of_regrouped regrouped, all]
  · intro v hv w hw
    rw [hw.named_eq, (carries_self (fragments v hv)).named_eq]
  · intro x y
    have one : ∀ v ∈ [Value.int 1, .bool true, .float x "1.0", .decimal y "1"],
        v.key? = some (.ofInt 1) := by
      simp only [List.forall_mem_cons]
      exact ⟨rfl, rfl, rfl, rfl, nofun⟩
    exact List.pairwise_of_forall_mem_list fun v hv w hw =>
      Value.beq_iff.2 ⟨_, _, one v hv, one w hw, Key.same_refl _⟩
  · exact fun c => Value.str_beq_iff.2 rfl
  · exact fun vs ws => Value.frozenset_beq_iff

/-- One number in four spellings and one text in two, with what comes later merged beforehand and
the empty fragments dropped. -/
theorem merging_homomorphic_of_spellings : ∃ s,
    Compiler.compile (.record [("k", .str "any")]) (.str "F") = .ok s ∧ ∃ supplied : Payload,
      supplied.entries = [(.int 1, .str "d"), (.str "k", .null)] ∧
      named s (.generator 0 [.mapping .dict [(.int 1, .str "a"), (.str "k", .int 5)], .null,
        .mapping .env [(.float 0 "1.0", .str "b")], .undefined,
        .mapping .bag [(.text "k", .null), (.decimal 1 "1", .str "c")],
        .mapping .dict [(.bool true, .str "d")]] none) = .ok supplied ∧
      named s (.tuple [.mapping .dict [(.int 1, .str "a"), (.str "k", .int 5)],
        .mapping .ordered [(.float 0 "1.0", .str "d"), (.text "k", .null)]]) = .ok supplied := by
  obtain ⟨s, h⟩ : ∃ s, Compiler.compile (.record [("k", .str "any")]) (.str "F") = .ok s := ⟨_, rfl⟩
  let first : Value := .mapping .dict [(.int 1, .str "a"), (.str "k", .int 5)]
  let ys : List Value := [.mapping .env [(.float 0 "1.0", .str "b")], .undefined,
    .mapping .bag [(.text "k", .null), (.decimal 1 "1", .str "c")],
    .mapping .dict [(.bool true, .str "d")]]
  let later : Value := .mapping .ordered [(.float 0 "1.0", .str "d"), (.text "k", .null)]
  have mergedLater : Regroups ([first, .null] ++ ys ++ []) [first, .null, later] :=
    .merge (carries_list ys) (show named s (.list ys) = _ from rfl) .ordered [first, .null] []
  have dropped : Regroups [first, .null, later] [first, later] := .drop (.inl rfl) [first] [later]
  obtain ⟨t, u, ht, hu, hr, -, regroup, -⟩ := merging_homomorphic s (by decide) (by decide)
    (carries_list [first, .null]) (carries_list ys)
    (r := .generator 0 ([first, .null] ++ ys) none) ⟨rfl, rfl⟩
  refine ⟨s, h, t.merge u, ?_, hr, ?_⟩
  · obtain rfl := Except.ok.inj ht
    obtain rfl := Except.ok.inj hu
    rfl
  · exact regroup _ _ (.trans _ _ _ (.rel _ _ mergedLater) (.rel _ _ dropped)) ⟨rfl, rfl⟩

end Arguments

namespace Schema

variable {s : Schema} {p q : Value} {fs gs : List Value}

/-- How named arguments are grouped decides nothing, neither acceptance nor what is objected to. -/
theorem validateNamed_of_regrouped (h : Relation.EqvGen Arguments.Regroups fs gs)
    (hp : Arguments.Carries p fs) (hq : Arguments.Carries q gs) :
    s.validateNamed p = s.validateNamed q := by
  rw [validateNamed, validateNamed, hp.named_eq, hq.named_eq,
    Arguments.mergeFragments_of_regrouped h]

end Schema

end CallContract
