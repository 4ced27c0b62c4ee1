import CallContract.Proofs.Table

/-!
# Merging tables

Tables whose keys are apart are merged associatively (`Table.merge_assoc`), with the places and the
spellings of the keys: of two writes under equal keys the earlier one gives place and spelling and
the later one the value (`insert_insert`), and a write under a key that is there already goes past
writes under other keys (`insertMany_insert`). So it is the same to write entries to a table one by
one and to write the table that they make for themselves (`merge_ofList`).

That table is a condensed form of the entries (`condenses_ofList`): each class of equal keys has one
entry in it, in the place and spelling of its first occurrence and with the value of its last.
-/

namespace CallContract

namespace Table

variable {κ α : Type} [BEq κ] {t u : Table κ α} {k : κ} {v : α} {es : List (κ × α)}

/-- Has one entry for each class of equal keys among those of the entries. -/
structure Condenses (t : Table κ α) (es : List (κ × α)) : Prop where
  one : ∀ e ∈ es, t.keys.countP (e.1 == ·) = 1
  /-- The keys are the first ones of their classes, in their order. -/
  first : t.keys = (es.map Prod.fst).eraseDups
  /-- The values are those of the last entries under their keys. -/
  last : ∀ f ∈ t.entries, es.reverse.lookup f.1 = some f.2

/-- A table is known by the entries that it condenses. -/
theorem Condenses.unique (ht : t.Condenses es) (hu : u.Condenses es) : t = u := by
  have written {t : Table κ α} (h : t.Condenses es) : t.entries.map (fun f => (f.1, some f.2)) =
      (es.map Prod.fst).eraseDups.map fun k => (k, es.reverse.lookup k) := by
    rw [← h.first, keys, List.map_map]
    refine List.map_congr_left fun f hf => ?_
    rw [Function.comp, h.last f hf]
  have apart (f g : κ × α) (h : (f.1, some f.2) = (g.1, some g.2)) : f = g :=
    Prod.ext (Prod.mk.inj h).1 (Option.some.inj (Prod.mk.inj h).2)
  exact congrArg Table.mk ((List.map_inj_right apart).1 ((written ht).trans (written hu).symm))

theorem contains_cons (e : κ × α) (es : List (κ × α)) (k : κ) :
    (⟨e :: es⟩ : Table κ α).contains k = (k == e.1 || (⟨es⟩ : Table κ α).contains k) := by
  rw [contains, get?_cons]
  cases k == e.1 <;> rfl

theorem insertEntry_cons (e : κ × α) (es : List (κ × α)) (k : κ) (v : α) :
    insertEntry (e :: es) k v = if k == e.1 then (e.1, v) :: es else e :: insertEntry es k v := rfl

theorem keys_insert (t : Table κ α) (k : κ) (v : α) :
    (t.insert k v).keys = if t.contains k then t.keys else t.keys ++ [k] := by
  obtain ⟨es⟩ := t
  simp only [keys, insert]
  induction es with
  | nil => rfl
  | cons e es ih =>
    rw [contains_cons, insertEntry_cons]
    by_cases hk : (k == e.1) = true
    · simp [hk]
    · rw [if_neg hk, List.map_cons, ih]
      simp only [Bool.not_eq_true] at hk
      rw [hk, Bool.false_or]
      split <;> rfl

variable [PartialEquivBEq κ]

/-! ### Two writes -/

/-- The later of two writes under equal keys gives the value only. -/
theorem insert_insert {a : κ} (h : (k == a) = true) (b : α) :
    (t.insert a b).insert k v = t.insert a v := by
  obtain ⟨es⟩ := t
  simp only [insert]
  congr 1
  induction es with
  | nil => simp [insertEntry, h]
  | cons e es ih =>
    have same : (k == e.1) = (a == e.1) := BEq.congr_left h
    rw [insertEntry_cons, insertEntry_cons]
    by_cases ha : (a == e.1) = true
    · rw [if_pos ha, if_pos ha, insertEntry_cons, same, if_pos ha]
    · rw [if_neg ha, if_neg ha, insertEntry_cons, same, if_neg ha, ih]

/-- A write under a key that is there already leaves all places, so it goes past another one. -/
theorem insert_comm {k' : κ} (hk : t.contains k = true) (h : (k == k') = false) (v' : α) :
    (t.insert k' v').insert k v = (t.insert k v).insert k' v' := by
  obtain ⟨es⟩ := t
  simp only [insert]
  congr 1
  induction es with
  | nil => cases hk
  | cons e es ih =>
    by_cases ha : (k == e.1) = true
    · have hb : (k' == e.1) = false := BEq.symm_false (BEq.neq_of_beq_of_neq (BEq.symm ha) h)
      simp [insertEntry_cons, ha, hb]
    · rw [contains_cons, Bool.or_eq_true] at hk
      by_cases hb : (k' == e.1) = true
      · simp [insertEntry_cons, ha, hb]
      · simp [insertEntry_cons, ha, hb, ih (hk.resolve_left ha)]

theorem insertMany_insert (hk : t.contains k = true) (h : ∀ e ∈ es, (k == e.1) = false) :
    (t.insertMany es).insert k v = (t.insert k v).insertMany es := by
  induction es generalizing t with
  | nil => rfl
  | cons e es ih =>
    obtain ⟨he, hes⟩ := List.forall_mem_cons.1 h
    have still : (t.insert e.1 e.2).contains k = true := by rw [contains_insert, hk, Bool.or_true]
    rw [insertMany_cons, ih still hes, insert_comm hk he, insertMany_cons]

/-! ### Merging -/

theorem Apart.insert (h : Apart t.keys) (k : κ) (v : α) : Apart (t.insert k v).keys := by
  rw [keys_insert]
  cases hk : t.contains k with
  | true => exact h
  | false =>
    refine List.pairwise_append.2 ⟨h, List.pairwise_singleton _ _, fun a ha b hb => ?_⟩
    obtain rfl := List.mem_singleton.1 hb
    refine Bool.eq_false_iff.2 fun hab => ?_
    rw [contains_iff.2 ⟨a, ha, BEq.symm hab⟩] at hk
    cases hk

theorem Apart.insertMany (h : Apart t.keys) (es : List (κ × α)) : Apart (t.insertMany es).keys := by
  induction es generalizing t with
  | nil => exact h
  | cons e es ih => exact ih (h.insert e.1 e.2)

theorem apart_ofList (es : List (κ × α)) : Apart (ofList es).keys :=
  Apart.insertMany (t := empty) List.Pairwise.nil es

theorem merge_insert (h : Apart u.keys) : t.merge (u.insert k v) = (t.merge u).insert k v := by
  obtain ⟨es⟩ := u
  show t.insertMany (insertEntry es k v) = (t.insertMany es).insert k v
  induction es generalizing t with
  | nil => rfl
  | cons e es ih =>
    obtain ⟨hlt, hes⟩ := List.pairwise_cons.1 h
    rw [insertEntry_cons, insertMany_cons]
    by_cases hk : (k == e.1) = true
    · -- the keys behind are not those of `e`, so the later value can be written in its place
      have behind : ∀ f ∈ es, (k == f.1) = false := fun f hf =>
        BEq.neq_of_beq_of_neq hk (hlt f.1 (List.mem_map_of_mem hf))
      have there : (t.insert e.1 e.2).contains k = true := by
        rw [contains_insert, hk, Bool.true_or]
      rw [if_pos hk, insertMany_cons, insertMany_insert there behind, insert_insert hk]
    · rw [if_neg hk, insertMany_cons]
      exact ih hes

theorem merge_insertMany (h : Apart u.keys) (es : List (κ × α)) :
    t.merge (u.insertMany es) = (t.merge u).insertMany es := by
  induction es generalizing u with
  | nil => rfl
  | cons e es ih => rw [insertMany_cons, ih (h.insert e.1 e.2), merge_insert h, insertMany_cons]

theorem merge_assoc (h : Apart u.keys) (w : Table κ α) :
    (t.merge u).merge w = t.merge (u.merge w) :=
  (merge_insertMany h w.entries).symm

theorem merge_ofList (t : Table κ α) (es : List (κ × α)) : t.merge (ofList es) = t.insertMany es :=
  merge_insertMany (u := empty) List.Pairwise.nil es

/-! ### Condensed entries -/

theorem keys_insertMany (t : Table κ α) (es : List (κ × α)) :
    (t.insertMany es).keys =
      t.keys ++ ((es.map Prod.fst).filter fun k => !t.contains k).eraseDups := by
  induction es generalizing t with
  | nil => simp
  | cons e es ih =>
    have others : (es.map Prod.fst).filter (fun k => !(t.insert e.1 e.2).contains k) =
        ((es.map Prod.fst).filter fun k => !t.contains k).filter fun k => !k == e.1 := by
      simp only [List.filter_filter, contains_insert, Bool.not_or]
    rw [insertMany_cons, ih, others, keys_insert, List.map_cons]
    cases hk : t.contains e.1 with
    | true =>
      -- what equals the key of `e` is there already too
      have drop : ∀ k ∈ (es.map Prod.fst).filter fun k => !t.contains k, (!k == e.1) = true := by
        intro k hmem
        have new := (List.mem_filter.1 hmem).2
        cases hke : k == e.1 with
        | false => rfl
        | true => rw [contains, get?_congr hke, ← contains, hk] at new; cases new
      rw [List.filter_eq_self.2 drop, List.filter_cons_of_neg (by simp [hk])]
      rfl
    | false =>
      rw [List.filter_cons_of_pos (by simp [hk]), List.eraseDups_cons]
      simp

theorem keys_ofList (es : List (κ × α)) : (ofList es).keys = (es.map Prod.fst).eraseDups := by
  have new : (es.map Prod.fst).filter (fun k => !(empty : Table κ α).contains k) = es.map Prod.fst :=
    List.filter_eq_self.2 fun _ _ => rfl
  rw [ofList, keys_insertMany, new]
  rfl

theorem get?_insertMany (t : Table κ α) (es : List (κ × α)) (k : κ) :
    (t.insertMany es).get? k = (es.reverse.lookup k).or (t.get? k) := by
  induction es generalizing t with
  | nil => rfl
  | cons e es ih =>
    rw [insertMany_cons, ih, get?_insert, List.reverse_cons, List.lookup_append, Option.or_assoc]
    congr 1
    rw [List.lookup_cons]
    cases k == e.1 <;> rfl

theorem get?_ofList (es : List (κ × α)) (k : κ) : (ofList es).get? k = es.reverse.lookup k := by
  rw [ofList, get?_insertMany, get?_empty, Option.or_none]

theorem Apart.countP_eq_one {keys : List κ} (h : Apart keys) (hk : ∃ k' ∈ keys, (k == k') = true) :
    keys.countP (k == ·) = 1 := by
  induction keys with
  | nil => obtain ⟨k', hk', -⟩ := hk; cases hk'
  | cons a keys ih =>
    obtain ⟨hlt, hkeys⟩ := List.pairwise_cons.1 h
    by_cases ha : (k == a) = true
    · have behind : keys.countP (k == ·) = 0 := List.countP_eq_zero.2 fun k' hk' =>
        Bool.eq_false_iff.1 (BEq.neq_of_beq_of_neq ha (hlt k' hk'))
      rw [List.countP_cons_of_pos ha, behind]
    · rw [List.countP_cons_of_neg ha]
      obtain ⟨k', hk', heq⟩ := hk
      rcases List.mem_cons.1 hk' with rfl | hk'
      · exact absurd heq ha
      · exact ih hkeys ⟨k', hk', heq⟩

/-- Entries whose keys are equal to themselves make a table that condenses them. -/
theorem condenses_ofList (keys : ∀ e ∈ es, (e.1 == e.1) = true) : (ofList es).Condenses es where
  one e he := (apart_ofList es).countP_eq_one (contains_iff.1 (contains_ofList.2 ⟨e, he, keys e he⟩))
  first := keys_ofList es
  last f hf := by
    have self := (forall_ofList (P := fun k => (k == k) = true) (Q := fun _ => True)
      (fun e he => ⟨keys e he, trivial⟩) f hf).1
    rw [← get?_ofList, get?_of_mem (apart_ofList es) hf self]

end Table

end CallContract
