import CallContract.Table

/-!
# Tables whose keys are apart

`Table.Apart`: no key is equal to a later one. Entries whose keys are apart stay as they are when
they are written to the empty table (`entries_ofList`), and each of them is found under every key
that is equal to its own (`get?_of_mem`). What is found in a table is always one of its entries, and
what a table comes to hold is among what it held or was given (`forall_insertMany`).
-/

namespace CallContract

namespace Table

variable {κ α : Type} [BEq κ]

/-- No key is equal to a later one. -/
def Apart (keys : List κ) : Prop := keys.Pairwise fun a b => (a == b) = false

theorem get?_cons (e : κ × α) (es : List (κ × α)) (k : κ) :
    (⟨e :: es⟩ : Table κ α).get? k = if k == e.1 then some e.2 else (⟨es⟩ : Table κ α).get? k := by
  obtain ⟨a, v⟩ := e
  simp only [get?, List.lookup_cons]
  cases k == a <;> rfl

theorem mem_of_get? {t : Table κ α} {k : κ} {v : α} (h : t.get? k = some v) :
    ∃ e ∈ t.entries, (k == e.1) = true ∧ e.2 = v := by
  obtain ⟨es⟩ := t
  induction es with
  | nil => cases h
  | cons e es ih =>
    rw [get?_cons] at h
    split at h
    · exact ⟨e, by simp, ‹_›, Option.some.inj h⟩
    · obtain ⟨e', he', hk, hv⟩ := ih h
      exact ⟨e', by simp [he'], hk, hv⟩

theorem contains_iff {t : Table κ α} {k : κ} :
    t.contains k = true ↔ ∃ k' ∈ t.keys, (k == k') = true := by
  obtain ⟨es⟩ := t
  induction es with
  | nil => simp [contains, get?, keys]
  | cons e es ih =>
    rw [contains, get?_cons]
    by_cases hk : (k == e.1) = true
    · simp [hk, keys]
    · rw [if_neg hk]
      simpa [contains, keys, hk] using ih

theorem erase_of_absent {t : Table κ α} {k : κ} (h : t.contains k = false) : t.erase k = t := by
  have kept : t.entries.filter (fun e => !(k == e.1)) = t.entries := by
    refine List.filter_eq_self.2 fun e he => ?_
    cases hk : k == e.1 with
    | false => rfl
    | true =>
      rw [contains_iff.2 ⟨e.1, List.mem_map_of_mem he, hk⟩] at h
      cases h
  rw [erase, kept]

theorem insertEntry_of_new {es : List (κ × α)} {k : κ} (v : α)
    (h : ∀ e ∈ es, (k == e.1) = false) : insertEntry es k v = es ++ [(k, v)] := by
  induction es with
  | nil => rfl
  | cons e es ih =>
    have hk : (k == e.1) = false := h e (by simp)
    rw [insertEntry, hk, ih fun e' he' => h e' (by simp [he'])]
    rfl

theorem forall_insertEntry {P : κ → Prop} {Q : α → Prop} {es : List (κ × α)} {k : κ} {v : α}
    (h : ∀ e ∈ es, P e.1 ∧ Q e.2) (hk : P k) (hv : Q v) :
    ∀ e ∈ insertEntry es k v, P e.1 ∧ Q e.2 := by
  induction es with
  | nil =>
    intro e he
    obtain rfl := List.mem_singleton.1 he
    exact ⟨hk, hv⟩
  | cons a es ih =>
    obtain ⟨ha, hes⟩ := List.forall_mem_cons.1 h
    rw [insertEntry]
    split
    · -- the key stays and gets another value
      exact List.forall_mem_cons.2 ⟨⟨ha.1, hv⟩, hes⟩
    · exact List.forall_mem_cons.2 ⟨ha, ih hes⟩

theorem forall_insertMany {P : κ → Prop} {Q : α → Prop} {t : Table κ α} {es : List (κ × α)}
    (ht : ∀ e ∈ t.entries, P e.1 ∧ Q e.2) (h : ∀ e ∈ es, P e.1 ∧ Q e.2) :
    ∀ e ∈ (t.insertMany es).entries, P e.1 ∧ Q e.2 := by
  induction es generalizing t with
  | nil => exact ht
  | cons e es ih =>
    obtain ⟨he, hes⟩ := List.forall_mem_cons.1 h
    exact ih (forall_insertEntry ht he.1 he.2) hes

theorem forall_ofList {P : κ → Prop} {Q : α → Prop} {es : List (κ × α)}
    (h : ∀ e ∈ es, P e.1 ∧ Q e.2) : ∀ e ∈ (ofList es).entries, P e.1 ∧ Q e.2 :=
  forall_insertMany (t := empty) nofun h

variable [PartialEquivBEq κ]

theorem entries_insertMany {t : Table κ α} {es : List (κ × α)}
    (h : Apart (t.keys ++ es.map Prod.fst)) : (t.insertMany es).entries = t.entries ++ es := by
  induction es generalizing t with
  | nil => simp
  | cons e es ih =>
    have hnew : ∀ e' ∈ t.entries, (e.1 == e'.1) = false := fun e' he' =>
      BEq.symm_false ((List.pairwise_append.1 h).2.2 e'.1 (List.mem_map_of_mem he') e.1 (by simp))
    have hins : (t.insert e.1 e.2).entries = t.entries ++ [e] := insertEntry_of_new e.2 hnew
    rw [insertMany_cons, ih ?_, hins, List.append_assoc, List.singleton_append]
    simpa [keys, hins] using h

theorem entries_ofList {es : List (κ × α)} (h : Apart (es.map Prod.fst)) :
    (ofList es).entries = es :=
  entries_insertMany (t := empty) h

theorem ofList_of_apart {es : List (κ × α)} (h : Apart (es.map Prod.fst)) :
    ofList es = ⟨es⟩ :=
  congrArg Table.mk (entries_ofList h)

theorem contains_insertMany {t : Table κ α} {es : List (κ × α)} {k : κ} :
    (t.insertMany es).contains k = true ↔ t.contains k = true ∨ ∃ e ∈ es, (k == e.1) = true := by
  induction es generalizing t with
  | nil => simp
  | cons e es ih =>
    rw [insertMany_cons, ih, contains_insert, Bool.or_eq_true]
    simp only [List.mem_cons, exists_eq_or_imp]
    rw [or_comm (a := (k == e.1) = true), or_assoc]

theorem contains_ofList {es : List (κ × α)} {k : κ} :
    (ofList es).contains k = true ↔ ∃ e ∈ es, (k == e.1) = true := by
  rw [ofList, contains_insertMany]
  simp [contains]

theorem get?_of_mem {t : Table κ α} (h : Apart t.keys) {e : κ × α} (he : e ∈ t.entries) {k : κ}
    (hk : (k == e.1) = true) : t.get? k = some e.2 := by
  obtain ⟨es⟩ := t
  induction es with
  | nil => cases he
  | cons a es ih =>
    obtain ⟨hlt, hes⟩ := List.pairwise_cons.1 h
    rw [get?_cons]
    rcases List.mem_cons.1 he with rfl | he
    · rw [if_pos hk]
    · -- an earlier key equal to `k` would be equal to that of `e`
      have hne : (a.1 == e.1) = false := hlt e.1 (List.mem_map_of_mem he)
      rw [if_neg, ih hes he]
      intro hka
      rw [PartialEquivBEq.trans (BEq.symm hka) hk] at hne
      cases hne

theorem get?_congr {t : Table κ α} {k k' : κ} (h : (k == k') = true) : t.get? k = t.get? k' := by
  obtain ⟨es⟩ := t
  induction es with
  | nil => rfl
  | cons e es ih =>
    have : (k == e.1) = (k' == e.1) := BEq.congr_left h
    rw [get?_cons, get?_cons, this, ih]

theorem get?_erase (t : Table κ α) (k k' : κ) :
    (t.erase k).get? k' = if k == k' then none else t.get? k' := by
  obtain ⟨es⟩ := t
  simp only [erase]
  induction es with
  | nil => simp [get?]
  | cons e es ih =>
    rw [get?_cons]
    cases he : k == e.1 with
    | true =>
      rw [List.filter_cons_of_neg (by simp [he]), ih]
      split
      next => rfl
      next hk =>
        -- a key that is equal to the erased one is equal to `k` too
        rw [if_neg fun he' => hk (PartialEquivBEq.trans he (BEq.symm he'))]
    | false =>
      rw [List.filter_cons_of_pos (by simp [he]), get?_cons, ih]
      split
      next he' =>
        rw [if_neg]
        intro hk
        rw [PartialEquivBEq.trans hk he'] at he
        cases he
      next => rfl

theorem contains_erase (t : Table κ α) (k k' : κ) :
    (t.erase k).contains k' = (!(k == k') && t.contains k') := by
  rw [contains, get?_erase, contains]
  cases k == k' <;> rfl

/-- The table holds exactly these entries, in any order and under any spelling of their keys. -/
def Holds (t : Table κ α) (es : List (κ × α)) : Prop :=
  (∀ e ∈ es, t.get? e.1 = some e.2) ∧ ∀ k ∈ t.keys, ∃ e ∈ es, (k == e.1) = true

/-- A table is known by the entries that it holds. -/
theorem Holds.get?_eq {t : Table κ α} {es : List (κ × α)} (h : t.Holds es)
    (apart : Apart (es.map Prod.fst)) (k : κ) : t.get? k = (⟨es⟩ : Table κ α).get? k := by
  cases hes : (⟨es⟩ : Table κ α).get? k with
  | some v =>
    obtain ⟨e, he, hk, rfl⟩ := mem_of_get? hes
    rw [get?_congr hk, h.1 e he]
  | none =>
    cases ht : t.get? k with
    | none => rfl
    | some v =>
      obtain ⟨f, hf, hkf, -⟩ := mem_of_get? ht
      obtain ⟨e, he, hfe⟩ := h.2 f.1 (List.mem_map_of_mem hf)
      have : (⟨es⟩ : Table κ α).get? k = some e.2 :=
        get?_of_mem apart he (PartialEquivBEq.trans hkf hfe)
      rw [hes] at this
      cases this

end Table

end CallContract
