import ObjectPascal.Key

/-!
Tables from names to data that keep the order in which names were first put in.
-/

namespace ObjectPascal

/-- Entries by key, in order of first insertion. -/
structure Table (α : Type) where
  entries : List (Key × α) := []
  deriving Inhabited, DecidableEq

namespace Table

variable {α β : Type}

def findIn (k : Key) : List (Key × α) → Option α
  | [] => none
  | (k', a) :: es => if k' = k then some a else findIn k es

/-- Replaces the entry of `k` where it stands, or adds one at the end. -/
def insertIn (k : Key) (a : α) : List (Key × α) → List (Key × α)
  | [] => [(k, a)]
  | (k', a') :: es => if k' = k then (k', a) :: es else (k', a') :: insertIn k a es

def find? (t : Table α) (k : Key) : Option α :=
  findIn k t.entries

def contains (t : Table α) (k : Key) : Bool :=
  (t.find? k).isSome

def insert (t : Table α) (k : Key) (a : α) : Table α :=
  ⟨insertIn k a t.entries⟩

def keys (t : Table α) : List Key :=
  t.entries.map Prod.fst

def map (f : α → β) (t : Table α) : Table β :=
  ⟨t.entries.map fun (k, a) => (k, f a)⟩

theorem findIn_insertIn (k k' : Key) (a : α) (es : List (Key × α)) :
    findIn k' (insertIn k a es) = if k' = k then some a else findIn k' es := by
  induction es with
  | nil => simp [insertIn, findIn, eq_comm]
  | cons e es ih =>
    obtain ⟨k₁, a₁⟩ := e
    by_cases h₁ : k₁ = k <;> by_cases h : k' = k <;> by_cases h₂ : k₁ = k' <;>
      simp_all [insertIn, findIn]

@[simp]
theorem find?_insert_self (t : Table α) (k : Key) (a : α) : (t.insert k a).find? k = some a := by
  simp [find?, insert, findIn_insertIn]

theorem find?_insert_of_ne (t : Table α) {k k' : Key} (a : α) (h : k' ≠ k) :
    (t.insert k a).find? k' = t.find? k' := by
  simp [find?, insert, findIn_insertIn, h]

/-- Putting a known name in again keeps every name in its place. -/
theorem keys_insert_of_contains (t : Table α) {k : Key} (a : α) (h : t.contains k) :
    (t.insert k a).keys = t.keys := by
  obtain ⟨es⟩ := t
  simp only [contains, find?, keys, insert] at h ⊢
  induction es with
  | nil => simp [findIn] at h
  | cons e es ih =>
    obtain ⟨k₁, a₁⟩ := e
    by_cases h₁ : k₁ = k
    · simp [insertIn, h₁]
    · simp only [findIn, h₁, if_false] at h
      simp [insertIn, h₁, ih h]

end Table

end ObjectPascal
