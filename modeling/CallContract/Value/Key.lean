import CallContract.Number.Extended
import CallContract.Value.Stream

/-!
# Keys

A key is put together from atoms by tuples and frozen sets. Tuples are the same key when their items
are one by one, frozen sets when each item of either is the same key as some item of the other, in
whatever order. This is an equivalence (`Key.same_refl`, `Key.same_symm`, `Key.same_trans`).
-/

namespace CallContract

/-- The part of a key that is not put together from others. -/
inductive Key.Atom where
  | null
  | undefined
  | number (re im : Extended)
  | text (s : String)
  | bytes (data : List UInt8)
  | range (length : Nat) (first : Option Int) (step : Option Int)
  | datetime (t : DateTime)
  | date (d : Date)
  | cls (c : ClassName)
  | builtin (name : String)
  | ref (ref : Nat)
  | convention (c : Convention)
deriving DecidableEq

inductive Key where
  | atom (a : Key.Atom)
  | tuple (items : List Key)
  | frozenset (items : List Key)

namespace Key

mutual

def same : Key → Key → Bool
  | .atom a, .atom b => a = b
  | .tuple as, .tuple bs => sameItems as bs
  | .frozenset as, .frozenset bs => within as bs && bs.all fun b => holds as b
  | _, _ => false
termination_by structural a => a

/-- Whether the keys are the same one by one. -/
def sameItems : List Key → List Key → Bool
  | [], [] => true
  | a :: as, b :: bs => a.same b && sameItems as bs
  | _, _ => false
termination_by structural as => as

/-- Whether every one of the keys is the same as one of `bs`. -/
def within : List Key → List Key → Bool
  | [], _ => true
  | a :: as, bs => (bs.any fun b => a.same b) && within as bs
termination_by structural as => as

/-- Whether one of the keys is the same as `b`. -/
def holds : List Key → Key → Bool
  | [], _ => false
  | a :: as, b => a.same b || holds as b
termination_by structural as => as

end

/-- Keys are put together from keys. -/
@[induction_eliminator]
theorem induct {P : Key → Prop} (atom : ∀ a, P (.atom a))
    (tuple : ∀ items, (∀ k ∈ items, P k) → P (.tuple items))
    (frozenset : ∀ items, (∀ k ∈ items, P k) → P (.frozenset items)) (k : Key) : P k :=
  Key.rec (motive_1 := P) (motive_2 := fun items => ∀ k ∈ items, P k) atom tuple frozenset
    (List.forall_mem_nil P) (fun _ _ hk hks => List.forall_mem_cons.2 ⟨hk, hks⟩) k

section
variable {as bs cs : List Key}

theorem same_atom_iff {a : Atom} {k : Key} : (atom a).same k = true ↔ k = .atom a := by
  cases k <;> simp [same, eq_comm]

theorem within_iff : within as bs = true ↔ ∀ a ∈ as, ∃ b ∈ bs, a.same b = true := by
  induction as with
  | nil => simp [within]
  | cons a as ih => simp [within, ih]

theorem holds_iff {b : Key} : holds as b = true ↔ ∃ a ∈ as, a.same b = true := by
  induction as with
  | nil => simp [holds]
  | cons a as ih => simp [holds, ih]

theorem same_frozenset_iff_holds : (frozenset as).same (frozenset bs) = true ↔
    (∀ a ∈ as, ∃ b ∈ bs, a.same b = true) ∧ ∀ b ∈ bs, ∃ a ∈ as, a.same b = true := by
  simp only [same, Bool.and_eq_true, within_iff, List.all_eq_true, holds_iff]

theorem sameItems_refl (h : ∀ a ∈ as, a.same a = true) : sameItems as as = true := by
  induction as with
  | nil => rfl
  | cons a as ih =>
    obtain ⟨ha, has⟩ := List.forall_mem_cons.1 h
    rw [sameItems, ha, ih has, Bool.and_self]

theorem sameItems_symm (h : ∀ a ∈ as, ∀ b, a.same b = true → b.same a = true)
    (hab : sameItems as bs = true) : sameItems bs as = true := by
  induction as generalizing bs with
  | nil => cases bs <;> trivial
  | cons a as ih =>
    cases bs with
    | nil => cases hab
    | cons b bs =>
      obtain ⟨ha, has⟩ := List.forall_mem_cons.1 h
      rw [sameItems, Bool.and_eq_true] at hab ⊢
      exact ⟨ha b hab.1, ih has hab.2⟩

theorem sameItems_trans
    (h : ∀ a ∈ as, ∀ b c, a.same b = true → b.same c = true → a.same c = true)
    (hab : sameItems as bs = true) (hbc : sameItems bs cs = true) : sameItems as cs = true := by
  induction as generalizing bs cs with
  | nil =>
    cases bs with
    | nil => exact hbc
    | cons b bs => cases hab
  | cons a as ih =>
    cases bs with
    | nil => cases hab
    | cons b bs =>
      cases cs with
      | nil => cases hbc
      | cons c cs =>
        obtain ⟨ha, has⟩ := List.forall_mem_cons.1 h
        rw [sameItems, Bool.and_eq_true] at hab hbc ⊢
        exact ⟨ha b c hab.1 hbc.1, ih has hab.2 hbc.2⟩

end

theorem same_refl (k : Key) : k.same k = true := by
  induction k with
  | atom a => exact same_atom_iff.2 rfl
  | tuple items ih => exact sameItems_refl ih
  | frozenset items ih =>
    exact same_frozenset_iff_holds.2 ⟨fun k hk => ⟨k, hk, ih k hk⟩, fun k hk => ⟨k, hk, ih k hk⟩⟩

theorem same_symm {a b : Key} (h : a.same b = true) : b.same a = true := by
  induction a generalizing b with
  | atom a =>
    obtain rfl := same_atom_iff.1 h
    exact h
  | tuple as ih =>
    cases b with
    | tuple bs => exact sameItems_symm (fun a ha b => ih a ha) h
    | _ => cases h
  | frozenset as ih =>
    cases b with
    | frozenset bs =>
      obtain ⟨hab, hba⟩ := same_frozenset_iff_holds.1 h
      refine same_frozenset_iff_holds.2 ⟨fun b hb => ?_, fun a ha => ?_⟩
      · obtain ⟨a, ha, same⟩ := hba b hb
        exact ⟨a, ha, ih a ha same⟩
      · obtain ⟨b, hb, same⟩ := hab a ha
        exact ⟨b, hb, ih a ha same⟩
    | _ => cases h

/-- Frozen sets of keys are the same when either is within the other. -/
theorem same_frozenset_iff {as bs : List Key} : (frozenset as).same (frozenset bs) = true ↔
    (∀ a ∈ as, ∃ b ∈ bs, a.same b = true) ∧ ∀ b ∈ bs, ∃ a ∈ as, b.same a = true := by
  rw [same_frozenset_iff_holds]
  refine and_congr_right fun _ => forall₂_congr fun b _ => exists_congr fun a => ?_
  exact and_congr_right fun _ => ⟨same_symm, same_symm⟩

theorem same_trans {a b c : Key} (hab : a.same b = true) (hbc : b.same c = true) :
    a.same c = true := by
  induction a generalizing b c with
  | atom a =>
    obtain rfl := same_atom_iff.1 hab
    exact hbc
  | tuple as ih =>
    cases b with
    | tuple bs =>
      cases c with
      | tuple cs => exact sameItems_trans (fun a ha b c => ih a ha) hab hbc
      | _ => cases hbc
    | _ => cases hab
  | frozenset as ih =>
    cases b with
    | frozenset bs =>
      cases c with
      | frozenset cs =>
        obtain ⟨hab, hba⟩ := same_frozenset_iff_holds.1 hab
        obtain ⟨hbc, hcb⟩ := same_frozenset_iff_holds.1 hbc
        refine same_frozenset_iff_holds.2 ⟨fun a ha => ?_, fun c hc => ?_⟩
        · obtain ⟨b, hb, same⟩ := hab a ha
          obtain ⟨c, hc, same'⟩ := hbc b hb
          exact ⟨c, hc, ih a ha same same'⟩
        · obtain ⟨b, hb, same'⟩ := hcb c hc
          obtain ⟨a, ha, same⟩ := hba b hb
          exact ⟨a, ha, ih a ha same same'⟩
      | _ => cases hbc
    | _ => cases hab

/-- The key of what is written like a number: that of the number, if it is one. -/
def ofWritten (ref : Nat) : Option (Extended × Extended) → Key
  | some (re, im) => .atom (.number re im)
  | none => .atom (.ref ref)

theorem ofWritten_ne_text (ref : Nat) (number? : Option (Extended × Extended)) (s : String) :
    ofWritten ref number? ≠ .atom (.text s) := by
  cases number? <;> nofun

def ofReal (x : Extended) : Key := .atom (.number x .zero)

def ofInt (n : Int) : Key := ofReal (.ofInt n)

/-- A progression is the same key as another with the same terms, so the step counts only from the
second term on. -/
def ofRange (start stop step : Int) : Key :=
  let n := progressionLength start stop step
  .atom (.range n (if n = 0 then none else some start) (if n < 2 then none else some step))

end Key

end CallContract
