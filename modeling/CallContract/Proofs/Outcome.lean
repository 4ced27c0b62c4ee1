/-!
# Outcomes

How computations that can fail end when they are put together: one after the other, and along a
list, where the first failure ends the whole.
-/

namespace CallContract

theorem bind_eq_ok {ε α β : Type} {x : Except ε α} {k : α → Except ε β} {b : β} :
    x >>= k = .ok b ↔ ∃ a, x = .ok a ∧ k a = .ok b := by
  cases x with
  | error e => exact ⟨fun h => (by cases h), fun ⟨_, h, _⟩ => by cases h⟩
  | ok a => exact ⟨fun h => ⟨a, rfl, h⟩, fun ⟨_, h, hk⟩ => by cases h; exact hk⟩

theorem bind_eq_error {ε α β : Type} {x : Except ε α} {k : α → Except ε β} {e : ε} :
    x >>= k = .error e ↔ x = .error e ∨ ∃ a, x = .ok a ∧ k a = .error e := by
  cases x with
  | error e' =>
    refine ⟨fun h => .inl (by cases h; rfl), fun h => ?_⟩
    rcases h with h | ⟨_, h, _⟩ <;> cases h
    rfl
  | ok a =>
    refine ⟨fun h => .inr ⟨a, rfl, h⟩, fun h => ?_⟩
    rcases h with h | ⟨_, h, hk⟩ <;> cases h
    exact hk

theorem forM_eq_ok {ε α : Type} {l : List α} {f : α → Except ε Unit} (h : ∀ a ∈ l, f a = .ok ()) :
    l.forM f = .ok () := by
  induction l with
  | nil => rfl
  | cons a l ih =>
    show f a >>= (fun _ => l.forM f) = .ok ()
    rw [h a (by simp)]
    exact ih fun a ha => h a (by simp [ha])

theorem forM_congr {ε α : Type} {l : List α} {f g : α → Except ε Unit} (h : ∀ a ∈ l, f a = g a) :
    l.forM f = l.forM g := by
  induction l with
  | nil => rfl
  | cons a l ih =>
    show f a >>= (fun _ => l.forM f) = g a >>= fun _ => l.forM g
    rw [h a (by simp), ih fun a ha => h a (by simp [ha])]

theorem forM_eq_error {ε α : Type} {l : List α} {f : α → Except ε Unit} {e : ε}
    (h : l.forM f = .error e) :
    ∃ before a after, l = before ++ a :: after ∧ (∀ b ∈ before, f b = .ok ()) ∧ f a = .error e := by
  induction l with
  | nil => cases h
  | cons a l ih =>
    have h : f a >>= (fun _ => l.forM f) = .error e := h
    rcases bind_eq_error.1 h with ha | ⟨_, ha, hl⟩
    · exact ⟨[], a, l, rfl, nofun, ha⟩
    · obtain ⟨before, b, after, rfl, hbefore, hb⟩ := ih hl
      refine ⟨a :: before, b, after, rfl, fun c hc => ?_, hb⟩
      rcases List.mem_cons.1 hc with rfl | hc
      · exact ha
      · exact hbefore c hc

theorem forM_stops {ε α : Type} {before after : List α} {a : α} {f : α → Except ε Unit} {e : ε}
    (h : ∀ b ∈ before, f b = .ok ()) (ha : f a = .error e) :
    (before ++ a :: after).forM f = .error e := by
  induction before with
  | nil =>
    show f a >>= (fun _ => after.forM f) = .error e
    rw [ha]
    rfl
  | cons b before ih =>
    show f b >>= (fun _ => (before ++ a :: after).forM f) = .error e
    rw [h b (by simp)]
    exact ih fun b hb => h b (by simp [hb])

theorem mapM_eq_ok {ε α β : Type} {f : α → Except ε β} {l : List α} {bs : List β}
    (h : l.mapM f = .ok bs) :
    bs.length = l.length ∧
      ∀ (i : Nat) (b : β), bs[i]? = some b → ∃ a, l[i]? = some a ∧ f a = .ok b := by
  induction l generalizing bs with
  | nil =>
    cases h
    exact ⟨rfl, fun i b hi => by simp at hi⟩
  | cons a l ih =>
    rw [List.mapM_cons] at h
    obtain ⟨b, hb, h⟩ := bind_eq_ok.1 h
    obtain ⟨bs, hbs, h⟩ := bind_eq_ok.1 h
    cases h
    obtain ⟨hlen, hget⟩ := ih hbs
    refine ⟨by simp [hlen], fun i c hi => ?_⟩
    cases i with
    | zero => exact ⟨a, rfl, by cases hi; exact hb⟩
    | succ i => exact hget i c hi

end CallContract
