/-!
# Tables

A table maps keys to values and remembers the order in which its keys came. Writing to a key that
the table has already keeps the key's place and its first spelling, and changes the value. The
laws of `get?` and `insert` need no reflexivity: a key that is not equal to itself is never found.
-/

namespace CallContract

structure Table (κ α : Type) where
  entries : List (κ × α)

namespace Table

variable {κ α β : Type}

def empty : Table κ α := ⟨[]⟩

def keys (t : Table κ α) : List κ := t.entries.map Prod.fst

def map (f : α → β) (t : Table κ α) : Table κ β := ⟨t.entries.map fun (k, v) => (k, f v)⟩

variable [BEq κ]

def get? (t : Table κ α) (k : κ) : Option α := t.entries.lookup k

def contains (t : Table κ α) (k : κ) : Bool := (t.get? k).isSome

def insertEntry : List (κ × α) → κ → α → List (κ × α)
  | [], k, v => [(k, v)]
  | (k', v') :: es, k, v => if k == k' then (k', v) :: es else (k', v') :: insertEntry es k v

def insert (t : Table κ α) (k : κ) (v : α) : Table κ α := ⟨insertEntry t.entries k v⟩

def erase (t : Table κ α) (k : κ) : Table κ α := ⟨t.entries.filter fun e => !(k == e.1)⟩

def insertMany (t : Table κ α) (es : List (κ × α)) : Table κ α :=
  es.foldl (fun t (k, v) => t.insert k v) t

def ofList (es : List (κ × α)) : Table κ α := empty.insertMany es

/-- `t` with the entries of `u` written to it, in their order. -/
def merge (t u : Table κ α) : Table κ α := t.insertMany u.entries

@[simp] theorem get?_empty (k : κ) : (empty : Table κ α).get? k = none := rfl

@[simp] theorem insertMany_nil (t : Table κ α) : t.insertMany [] = t := rfl

@[simp] theorem insertMany_cons (t : Table κ α) (e : κ × α) (es : List (κ × α)) :
    t.insertMany (e :: es) = (t.insert e.1 e.2).insertMany es := rfl

theorem insertMany_append (t : Table κ α) (es fs : List (κ × α)) :
    t.insertMany (es ++ fs) = (t.insertMany es).insertMany fs :=
  List.foldl_append

variable [PartialEquivBEq κ]

theorem get?_insert (t : Table κ α) (k k' : κ) (v : α) :
    (t.insert k v).get? k' = if k' == k then some v else t.get? k' := by
  obtain ⟨es⟩ := t
  simp only [insert, get?]
  induction es with
  | nil => simp only [insertEntry, List.lookup_cons, List.lookup_nil]; split <;> simp_all
  | cons e es ih =>
    obtain ⟨a, b⟩ := e
    simp only [insertEntry]
    by_cases hk : (k == a) = true
    · rw [if_pos hk]
      simp only [List.lookup_cons]
      by_cases h : (k' == k) = true
      · simp [h, PartialEquivBEq.trans h hk]
      · have : (k' == a) = false := by
          simpa using fun ha => h (PartialEquivBEq.trans ha (BEq.symm hk))
        simp [h, this]
    · rw [if_neg hk]
      simp only [List.lookup_cons]
      by_cases ha : (k' == a) = true
      · have : (k' == k) = false := by
          simpa using fun h => hk (PartialEquivBEq.trans (BEq.symm h) ha)
        simp [ha, this]
      · simp only [Bool.not_eq_true] at ha
        simp only [ha]
        exact ih

theorem contains_insert (t : Table κ α) (k k' : κ) (v : α) :
    (t.insert k v).contains k' = (k' == k || t.contains k') := by
  simp only [contains, get?_insert]
  split <;> simp_all

end Table

end CallContract
