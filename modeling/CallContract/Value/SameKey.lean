import CallContract.Value.Key

/-!
# Values as keys

What can be a key has a `Key`, and two values are the same key when their `Key`s are the same.
Numbers are the same key when they are equal as numbers, of whatever class, and what is written like
a number but is none is the same key as itself alone; a text is the same key as a text of the class
`Text` with the same characters; a point is the same key as the tuple of its coordinates; frozen
sets are the same key when they have the same items (`Value.frozenset_beq_iff`). So being the same
key is symmetric and transitive (`PartialEquivBEq`), and reflexive on the values that can be a key
(`Value.beq_self_iff`).
-/

namespace CallContract

/-- Why a value cannot be a key. -/
inductive KeyDefect where
  /-- It is of the class `typeName`, whose values change. -/
  | unhashable (typeName : String)
  | signalingNaN
deriving DecidableEq

namespace KeyDefect

def message : KeyDefect → String
  | .unhashable typeName => "unhashable type: '" ++ typeName ++ "'"
  | .signalingNaN => "Cannot hash a signaling NaN value"

end KeyDefect

namespace Value

/-- Whether a written decimal is a NaN that refuses every use. -/
def isSignalingNaN (written : String) : Bool :=
  (Numeral.splitSign written.toList).2.take 4 == "sNaN".toList

mutual

def key? : Value → Option Key
  | .null => some (.atom .null)
  | .undefined => some (.atom .undefined)
  | .bool b => some (.ofInt (if b then 1 else 0))
  | .int n | .count n => some (.ofInt n)
  | .float ref s => some (.ofWritten ref ((Extended.ofDouble? s.toList).map (·, .zero)))
  | .complex ref s => some (.ofWritten ref (Extended.ofComplex? s))
  | .decimal ref s =>
    if isSignalingNaN s then none
    else some (.ofWritten ref ((Extended.ofDecimal? s).map (·, .zero)))
  | .fraction q => some (.ofReal (.ofRat q))
  | .str s | .text s => some (.atom (.text s))
  | .bytes data => some (.atom (.bytes data))
  | .tuple items => (keys? items).map .tuple
  | .point x y => x.key?.bind fun a => y.key?.map fun b => .tuple [a, b]
  | .frozenset items => (keys? items).map .frozenset
  | .range start stop step => some (.ofRange start stop step)
  | .generator ref _ _ => some (.atom (.ref ref))
  | .datetime t => some (.atom (.datetime t))
  | .date d => some (.atom (.date d))
  | .cls c => some (.atom (.cls c))
  | .builtin name => some (.atom (.builtin name))
  | .function ref _ => some (.atom (.ref ref))
  | .creature ref _ _ => some (.atom (.ref ref))
  | .convention c => some (.atom (.convention c))
  | .bytearray _ | .list _ | .stack _ | .set _ | .mapping _ _ => none

def keys? : List Value → Option (List Key)
  | [] => some []
  | v :: vs => v.key?.bind fun a => (keys? vs).map fun as => a :: as

end

mutual

/-- Why a value cannot be a key, as its first part says that cannot be one. -/
def keyDefect? : Value → Option KeyDefect
  | .tuple items | .frozenset items => itemDefect? items
  | .point x y => x.keyDefect? <|> y.keyDefect?
  | .decimal _ s => if isSignalingNaN s then some .signalingNaN else none
  | v@(.bytearray _) | v@(.list _) | v@(.stack _) | v@(.set _) | v@(.mapping _ _) =>
    some (.unhashable v.fullTypeName)
  | _ => none

def itemDefect? : List Value → Option KeyDefect
  | [] => none
  | v :: vs => v.keyDefect? <|> itemDefect? vs

end

/-- Whether two values are the same key. -/
def sameKey (v w : Value) : Bool :=
  match v.key?, w.key? with
  | some a, some b => a.same b
  | _, _ => false

instance : BEq Value := ⟨sameKey⟩

theorem beq_iff {v w : Value} :
    (v == w) = true ↔ ∃ a b, v.key? = some a ∧ w.key? = some b ∧ a.same b = true := by
  show sameKey v w = true ↔ _
  unfold sameKey
  cases v.key? <;> cases w.key? <;> simp

instance : PartialEquivBEq Value where
  symm h := by
    obtain ⟨a, b, ha, hb, same⟩ := beq_iff.mp h
    exact beq_iff.mpr ⟨b, a, hb, ha, Key.same_symm same⟩
  trans h h' := by
    obtain ⟨a, b, ha, hb, same⟩ := beq_iff.mp h
    obtain ⟨b', c, hb', hc, same'⟩ := beq_iff.mp h'
    obtain rfl := Option.some.inj (hb.symm.trans hb')
    exact beq_iff.mpr ⟨a, c, ha, hc, Key.same_trans same same'⟩

mutual

/-- A value can be a key, or there is a reason why it cannot. -/
theorem isSome_key?_iff : ∀ v : Value, v.key?.isSome = true ↔ v.keyDefect? = none
  | .tuple items | .frozenset items => by simp [key?, keyDefect?, isSome_keys?_iff items]
  | .point x y => by
    rw [keyDefect?, Option.orElse_eq_orElse, Option.orElse_eq_or, Option.or_eq_none_iff,
      ← isSome_key?_iff x, ← isSome_key?_iff y, key?]
    cases x.key? <;> simp
  | .decimal _ s => by
    simp only [key?, keyDefect?]
    split <;> simp
  | .null | .undefined | .bool _ | .int _ | .count _ | .float _ _ | .complex _ _ | .fraction _
  | .str _ | .text _ | .bytes _ | .range _ _ _ | .generator _ _ _ | .datetime _ | .date _ | .cls _
  | .builtin _ | .function _ _ | .creature _ _ _ | .convention _ => by simp [key?, keyDefect?]
  | .bytearray _ | .list _ | .stack _ | .set _ | .mapping _ _ => by simp [key?, keyDefect?]

theorem isSome_keys?_iff : ∀ vs : List Value, (keys? vs).isSome = true ↔ itemDefect? vs = none
  | [] => by simp [keys?, itemDefect?]
  | v :: vs => by
    rw [itemDefect?, Option.orElse_eq_orElse, Option.orElse_eq_or, Option.or_eq_none_iff,
      ← isSome_key?_iff v, ← isSome_keys?_iff vs, keys?]
    cases v.key? <;> simp

end

theorem beq_self_iff {v : Value} : (v == v) = true ↔ v.keyDefect? = none := by
  rw [beq_iff, ← isSome_key?_iff, Option.isSome_iff_exists]
  constructor
  · rintro ⟨a, -, ha, -⟩
    exact ⟨a, ha⟩
  · rintro ⟨a, ha⟩
    exact ⟨a, a, ha, ha, a.same_refl⟩

theorem key?_eq_text_iff {s : String} {v : Value} :
    v.key? = some (.atom (.text s)) ↔ v.text? = some s := by
  cases v <;> simp [key?, text?, Key.ofWritten_ne_text, Key.ofInt, Key.ofReal, Key.ofRange,
    Option.bind_eq_some_iff]

/-- A text is the same key as exactly the texts with its characters. -/
theorem str_beq_iff {s : String} {v : Value} : (Value.str s == v) = true ↔ v.text? = some s := by
  rw [beq_iff, ← key?_eq_text_iff]
  constructor
  · rintro ⟨a, b, ha, hb, same⟩
    cases ha
    rw [hb, Key.same_atom_iff.1 same]
  · intro h
    exact ⟨_, _, rfl, h, Key.same_refl _⟩

section
variable {vs ws : List Value} {ks ls : List Key}

theorem keys?_eq_some_iff : keys? vs = some ks ↔ vs.map key? = ks.map some := by
  induction vs generalizing ks with
  | nil => cases ks <;> simp [keys?]
  | cons v vs ih => cases ks <;> simp [keys?, Option.bind_eq_some_iff, ih]

theorem mem_keys?_iff (h : keys? vs = some ks) {k : Key} :
    k ∈ ks ↔ ∃ v ∈ vs, v.key? = some k := by
  rw [← List.mem_map, keys?_eq_some_iff.1 h]
  simp

theorem exists_key?_of_mem (h : keys? vs = some ks) {v : Value} (hv : v ∈ vs) :
    ∃ k ∈ ks, v.key? = some k := by
  have mem : v.key? ∈ ks.map some := keys?_eq_some_iff.1 h ▸ List.mem_map_of_mem hv
  obtain ⟨k, hk, heq⟩ := List.mem_map.1 mem
  exact ⟨k, hk, heq.symm⟩

theorem exists_keys? (h : ∀ v ∈ vs, v.keyDefect? = none) : ∃ ks, keys? vs = some ks := by
  induction vs with
  | nil => exact ⟨[], rfl⟩
  | cons v vs ih =>
    obtain ⟨hv, hvs⟩ := List.forall_mem_cons.1 h
    obtain ⟨k, hk⟩ := Option.isSome_iff_exists.1 ((isSome_key?_iff v).2 hv)
    obtain ⟨ks, hks⟩ := ih hvs
    exact ⟨k :: ks, by rw [keys?, hk, hks]; rfl⟩

theorem forall_exists_beq_iff (hks : keys? vs = some ks) (hls : keys? ws = some ls) :
    (∀ v ∈ vs, ∃ w ∈ ws, (v == w) = true) ↔ ∀ k ∈ ks, ∃ l ∈ ls, k.same l = true := by
  constructor
  · intro h k hk
    obtain ⟨v, hv, hvk⟩ := (mem_keys?_iff hks).1 hk
    obtain ⟨w, hw, hvw⟩ := h v hv
    obtain ⟨k', l, hvk', hwl, same⟩ := beq_iff.1 hvw
    obtain rfl := Option.some.inj (hvk.symm.trans hvk')
    exact ⟨l, (mem_keys?_iff hls).2 ⟨w, hw, hwl⟩, same⟩
  · intro h v hv
    obtain ⟨k, hk, hvk⟩ := exists_key?_of_mem hks hv
    obtain ⟨l, hl, same⟩ := h k hk
    obtain ⟨w, hw, hwl⟩ := (mem_keys?_iff hls).1 hl
    exact ⟨w, hw, beq_iff.2 ⟨k, l, hvk, hwl, same⟩⟩

/-- Frozen sets are the same key when they have the same items, in whatever order. -/
theorem frozenset_beq_iff : (Value.frozenset vs == .frozenset ws) = true ↔
    (∀ v ∈ vs, ∃ w ∈ ws, (v == w) = true) ∧ ∀ w ∈ ws, ∃ v ∈ vs, (w == v) = true := by
  have keyed {xs ys : List Value} (h : ∀ x ∈ xs, ∃ y ∈ ys, (x == y) = true) :
      ∃ ks, keys? xs = some ks := by
    refine exists_keys? fun x hx => ?_
    obtain ⟨y, -, hxy⟩ := h x hx
    exact beq_self_iff.1 (PartialEquivBEq.trans hxy (BEq.symm hxy))
  have same {ks ls : List Key} (hks : keys? vs = some ks) (hls : keys? ws = some ls) :
      (Key.frozenset ks).same (.frozenset ls) = true ↔
        (∀ v ∈ vs, ∃ w ∈ ws, (v == w) = true) ∧ ∀ w ∈ ws, ∃ v ∈ vs, (w == v) = true := by
    rw [Key.same_frozenset_iff, forall_exists_beq_iff hks hls, forall_exists_beq_iff hls hks]
  constructor
  · intro h
    obtain ⟨a, b, ha, hb, hab⟩ := beq_iff.1 h
    obtain ⟨ks, hks, rfl⟩ := Option.map_eq_some_iff.1 ha
    obtain ⟨ls, hls, rfl⟩ := Option.map_eq_some_iff.1 hb
    exact (same hks hls).1 hab
  · intro h
    obtain ⟨ks, hks⟩ := keyed h.1
    obtain ⟨ls, hls⟩ := keyed h.2
    exact beq_iff.2 ⟨.frozenset ks, .frozenset ls, by rw [key?, hks]; rfl, by rw [key?, hls]; rfl,
      (same hks hls).2 h⟩

end

end Value

end CallContract
