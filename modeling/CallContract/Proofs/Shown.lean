import CallContract.Check
import CallContract.Proofs.Outcome

/-!
# Values that can be shown

`Value.Shown`: the literal form of a value exists. A value that is not shown fails as one that
cannot be printed and in no other way (`literal_error`), and the texts of running text exist for
exactly the values that have a literal form (`display_of_literal`).

`Shows vs text` says of a text that is put together from the texts of `vs` that it exists if they
do and otherwise fails as they do.
-/

namespace CallContract

namespace Value

/-- The literal form of the value exists. -/
def Shown (v : Value) : Prop := ∃ s, v.literal = .ok s

/-- The failure of a value that cannot be shown. -/
def CannotShow (f : Failure) : Prop := ∃ s, f = .unprintable s

theorem speciesLiteral_error {s : Species} {text : String} {f : Failure}
    (h : s.literal text = .error f) : CannotShow f := by
  cases s with
  | mute => exact ⟨_, (Except.error.inj h).symm⟩
  | _ => cases h

mutual

theorem literal_error : ∀ {v : Value} {f : Failure}, v.literal = .error f → CannotShow f
  | .list items, f, h | .stack items, f, h | .tuple items, f, h | .set items, f, h
  | .frozenset items, f, h => by
    rcases bind_eq_error.1 h with h | ⟨_, -, h⟩
    · exact literals_error h
    · cases h
  | .point x y, f, h => by
    rcases bind_eq_error.1 h with h | ⟨_, -, h⟩
    · exact literal_error h
    · rcases bind_eq_error.1 h with h | ⟨_, -, h⟩
      · exact literal_error h
      · cases h
  | .mapping _ entries, f, h => by
    rcases bind_eq_error.1 h with h | ⟨_, -, h⟩
    · exact entryLiterals_error h
    · cases h
  | .creature _ species _, f, h => speciesLiteral_error h
  | .null, _, h | .undefined, _, h | .bool _, _, h | .int _, _, h | .count _, _, h
  | .float _ _, _, h | .complex _ _, _, h | .decimal _ _, _, h | .fraction _, _, h | .str _, _, h
  | .text _, _, h | .bytes _, _, h | .bytearray _, _, h | .range _ _ _, _, h
  | .generator _ _ _, _, h | .datetime _, _, h | .date _, _, h | .cls _, _, h
  | .builtin _, _, h | .function _ _, _, h | .convention _, _, h => by cases h

theorem literals_error : ∀ {vs : List Value} {f : Failure}, literals vs = .error f → CannotShow f
  | [], _, h => by cases h
  | v :: vs, f, h => by
    rcases bind_eq_error.1 h with h | ⟨_, -, h⟩
    · exact literal_error h
    · rcases bind_eq_error.1 h with h | ⟨_, -, h⟩
      · exact literals_error h
      · cases h

theorem entryLiterals_error : ∀ {es : List (Value × Value)} {f : Failure},
    entryLiterals es = .error f → CannotShow f
  | [], _, h => by cases h
  | (k, v) :: es, f, h => by
    rcases bind_eq_error.1 h with h | ⟨_, -, h⟩
    · exact literal_error h
    · rcases bind_eq_error.1 h with h | ⟨_, -, h⟩
      · exact literal_error h
      · rcases bind_eq_error.1 h with h | ⟨_, -, h⟩
        · exact entryLiterals_error h
        · cases h

end

theorem shown_or_error (v : Value) : v.Shown ∨ ∃ s, v.literal = .error (.unprintable s) := by
  rcases h : v.literal with f | s
  · obtain ⟨s, rfl⟩ := literal_error h
    exact .inr ⟨s, rfl⟩
  · exact .inl ⟨s, h⟩

theorem not_shown_iff {v : Value} :
    ¬ v.Shown ↔ ∃ s, v.literal = .error (.unprintable s) := by
  refine ⟨(shown_or_error v).resolve_left, fun ⟨_, h⟩ ⟨_, hs⟩ => ?_⟩
  rw [h] at hs
  cases hs

theorem literals_isOk_iff {vs : List Value} :
    (∃ shown, literals vs = .ok shown) ↔ ∀ v ∈ vs, v.Shown := by
  induction vs with
  | nil => exact ⟨fun _ => by simp, fun _ => ⟨[], rfl⟩⟩
  | cons v vs ih =>
    rw [List.forall_mem_cons]
    constructor
    · rintro ⟨_, h⟩
      obtain ⟨s, hs, h⟩ := bind_eq_ok.1 h
      obtain ⟨ss, hss, -⟩ := bind_eq_ok.1 h
      exact ⟨⟨s, hs⟩, ih.1 ⟨ss, hss⟩⟩
    · rintro ⟨⟨s, hs⟩, hvs⟩
      obtain ⟨ss, hss⟩ := ih.2 hvs
      exact ⟨_, bind_eq_ok.2 ⟨s, hs, bind_eq_ok.2 ⟨ss, hss, rfl⟩⟩⟩

theorem shown_list_iff {vs : List Value} : (Value.list vs).Shown ↔ ∀ v ∈ vs, v.Shown := by
  rw [← literals_isOk_iff]
  constructor
  · rintro ⟨_, h⟩
    obtain ⟨ss, hss, -⟩ := bind_eq_ok.1 h
    exact ⟨ss, hss⟩
  · rintro ⟨ss, hss⟩
    exact ⟨_, bind_eq_ok.2 ⟨ss, hss, rfl⟩⟩

theorem entryLiterals_shown {es : List (Value × Value)} {shown : List (String × String)}
    (h : entryLiterals es = .ok shown) : ∀ e ∈ es, e.1.Shown ∧ e.2.Shown := by
  induction es generalizing shown with
  | nil => simp
  | cons e es ih =>
    obtain ⟨k, hk, h⟩ := bind_eq_ok.1 h
    obtain ⟨v, hv, h⟩ := bind_eq_ok.1 h
    obtain ⟨rest, hrest, -⟩ := bind_eq_ok.1 h
    rw [List.forall_mem_cons]
    exact ⟨⟨⟨k, hk⟩, ⟨v, hv⟩⟩, ih hrest⟩

theorem Shown.entries {v : Value} (h : v.Shown) {es : List (Value × Value)}
    (hes : v.entries? = some es) : ∀ e ∈ es, e.1.Shown ∧ e.2.Shown := by
  cases v with
  | mapping kind entries =>
    cases hes
    obtain ⟨_, h⟩ := h
    obtain ⟨shown, h, -⟩ := bind_eq_ok.1 h
    exact entryLiterals_shown h
  | _ => cases hes

theorem shown_of_text {v : Value} (h : v.text?.isSome) : v.Shown := by
  cases v with
  | str | text => exact ⟨_, rfl⟩
  | _ => cases h

theorem display_of_literal (v : Value) :
    (∃ s t, v.literal = .ok s ∧ v.display = .ok t) ∨
      ∃ f, v.literal = .error f ∧ v.display = .error f := by
  have same : v.display = v.literal → (∃ s t, v.literal = .ok s ∧ v.display = .ok t) ∨
      ∃ f, v.literal = .error f ∧ v.display = .error f := fun h => by
    rw [h]
    cases v.literal with
    | error f => exact .inr ⟨f, rfl, rfl⟩
    | ok s => exact .inl ⟨s, s, rfl, rfl⟩
  cases v with
  | str | text | decimal | fraction | convention | datetime | date => exact .inl ⟨_, _, rfl, rfl⟩
  | mapping kind entries =>
    cases kind with
    | proxy =>
      simp only [literal, display]
      cases entryLiterals entries with
      | error f => exact .inr ⟨f, rfl, rfl⟩
      | ok s => exact .inl ⟨_, _, rfl, rfl⟩
    | _ => exact same rfl
  | _ => exact same rfl

end Value

/-- The text exists if all of `vs` are shown, and fails as they do otherwise. -/
structure Shows (vs : List Value) (text : Except Failure String) : Prop where
  ok : (∀ v ∈ vs, v.Shown) → ∃ s, text = .ok s
  error : (∃ v ∈ vs, ¬ v.Shown) → ∃ s, text = .error (.unprintable s)

namespace Shows

theorem literal (v : Value) : Shows [v] v.literal where
  ok h := h v (by simp)
  error := by simpa using Value.not_shown_iff.1

theorem display (v : Value) : Shows [v] v.display := by
  rcases v.display_of_literal with ⟨s, t, hs, ht⟩ | ⟨f, hf, ht⟩
  · exact ⟨fun _ => ⟨t, ht⟩, fun ⟨w, hw, hn⟩ => absurd ⟨s, by rwa [List.mem_singleton.1 hw]⟩ hn⟩
  · obtain ⟨text, rfl⟩ := Value.literal_error hf
    refine ⟨fun h => ?_, fun _ => ⟨text, ht⟩⟩
    obtain ⟨s, hs⟩ := h v (by simp)
    rw [hf] at hs
    cases hs

theorem pure (s : String) : Shows [] (.ok s) := ⟨fun _ => ⟨s, rfl⟩, by simp⟩

variable {vs ws : List Value} {x : Except Failure String}

theorem bind {k : String → Except Failure String} (h : Shows vs x) (hk : ∀ s, Shows ws (k s)) :
    Shows (vs ++ ws) (x >>= k) := by
  by_cases hvs : ∀ v ∈ vs, v.Shown
  · obtain ⟨s, rfl⟩ := h.ok hvs
    refine ⟨fun hall => (hk s).ok fun w hw => hall w (by simp [hw]), fun ⟨w, hw, hn⟩ => ?_⟩
    rcases List.mem_append.1 hw with hw | hw
    · exact absurd (hvs w hw) hn
    · exact (hk s).error ⟨w, hw, hn⟩
  · obtain ⟨v, hv, hn⟩ : ∃ v ∈ vs, ¬ v.Shown := by simpa using hvs
    obtain ⟨s, rfl⟩ := h.error ⟨v, hv, hn⟩
    exact ⟨fun hall => absurd (hall v (by simp [hv])) hn, fun _ => ⟨s, rfl⟩⟩

theorem map (h : Shows vs x) (f : String → String) : Shows vs (x >>= fun s => .ok (f s)) := by
  simpa using h.bind fun s => pure (f s)

end Shows

theorem mapM_display (names : List Value) :
    (∀ v ∈ names, v.Shown) ∧ (∃ ss, names.mapM Value.display = .ok ss) ∨
      (∃ v ∈ names, ¬ v.Shown) ∧ ∃ s, names.mapM Value.display = .error (.unprintable s) := by
  induction names with
  | nil => exact .inl ⟨by simp, [], rfl⟩
  | cons v vs ih =>
    rw [List.mapM_cons]
    by_cases hv : v.Shown
    · obtain ⟨t, ht⟩ := (Shows.display v).ok (by simpa using hv)
      rw [ht]
      rcases ih with ⟨hall, ss, hss⟩ | ⟨⟨w, hw, hn⟩, s, hs⟩
      · exact .inl ⟨by simpa [hv] using hall, t :: ss, by rw [hss]; rfl⟩
      · exact .inr ⟨⟨w, by simp [hw], hn⟩, s, by rw [hs]; rfl⟩
    · obtain ⟨s, hs⟩ := (Shows.display v).error ⟨v, by simp, hv⟩
      exact .inr ⟨⟨v, by simp, hv⟩, s, by rw [hs]; rfl⟩

theorem Shows.quotedNames (names : List Value) : Shows names (CallContract.quotedNames names) := by
  rw [CallContract.quotedNames]
  rcases mapM_display names with ⟨hall, ss, hss⟩ | ⟨hex, s, hs⟩
  · rw [hss]
    exact ⟨fun _ => ⟨_, rfl⟩, fun ⟨v, hv, hn⟩ => absurd (hall v hv) hn⟩
  · rw [hs]
    exact ⟨fun hall => let ⟨v, hv, hn⟩ := hex; absurd (hall v hv) hn, fun _ => ⟨s, rfl⟩⟩

end CallContract
