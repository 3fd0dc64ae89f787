/-
Symbols stand for file names. An interner hands out one symbol for each name, numbered in the
order in which the names first came, and gives the name back for a symbol. A negative index
counts from the newest name. Two tables, from numbers to names and from names to numbers, are kept
inverse to each other.
-/

namespace ScriptSyntax

structure Symbol where
  index : Int
deriving DecidableEq, Repr

def Symbol.text (s : Symbol) : String := "Symbol(" ++ toString s.index ++ ")"

/-- Does the second table say where each name stands in the first one? -/
def Interner.Inverse (names : List String) (numbers : List (String × Nat)) : Prop :=
  ∀ name i, numbers.lookup name = some i ↔ names[i]? = some name

structure Interner where
  /-- The names that have symbols, the oldest first. -/
  names : List String
  /-- The number of each name. -/
  numbers : List (String × Nat)
  inverse : Interner.Inverse names numbers
deriving DecidableEq

namespace Interner

/-- A symbol outside the names of an interner. -/
structure UnknownSymbol where
  symbol : Symbol
deriving DecidableEq, Repr

def UnknownSymbol.message (e : UnknownSymbol) : String :=
  "symbol not issued by this interner: " ++ e.symbol.text

theorem Inverse.nil : Inverse [] [] := fun _ _ => by simp

theorem getElem?_concat_eq_some_iff {names : List String} {name other : String} {i : Nat} :
    (names ++ [name])[i]? = some other ↔
      names[i]? = some other ∨ i = names.length ∧ name = other := by
  rcases Nat.lt_trichotomy i names.length with hi | rfl | hi
  · rw [List.getElem?_append_left hi]
    simp [Nat.ne_of_lt hi]
  · simp
  · have hend : (names ++ [name]).length ≤ i := by
      simp
      omega
    simp [List.getElem?_eq_none hend, List.getElem?_eq_none (Nat.le_of_lt hi), Nat.ne_of_gt hi]

/-- A new name stands behind the others. -/
theorem Inverse.concat {names : List String} {numbers : List (String × Nat)} {name : String}
    (h : Inverse names numbers) (hnew : numbers.lookup name = none) :
    Inverse (names ++ [name]) ((name, names.length) :: numbers) := by
  intro other i
  rw [getElem?_concat_eq_some_iff, ← h other i, List.lookup_cons]
  by_cases hname : other = name
  · subst hname
    simp [hnew, eq_comm]
  · simp [beq_eq_false_iff_ne.2 hname, Ne.symm hname]

def empty : Interner := ⟨[], [], .nil⟩

def size (t : Interner) : Nat := t.names.length

/-- The symbol of a name, a new one if the name has none. -/
def intern (t : Interner) (name : String) : Symbol × Interner :=
  match h : t.numbers.lookup name with
  | some i => (⟨i⟩, t)
  | none => (⟨t.size⟩, ⟨t.names ++ [name], (name, t.size) :: t.numbers, t.inverse.concat h⟩)

def resolve? (t : Interner) (s : Symbol) : Option String :=
  if 0 ≤ s.index then t.names[s.index.toNat]?
  else if -s.index ≤ t.size then t.names[(t.size + s.index).toNat]?
  else none

def resolve (t : Interner) (s : Symbol) : Except UnknownSymbol String :=
  match t.resolve? s with
  | some name => .ok name
  | none => .error ⟨s⟩

end Interner

end ScriptSyntax
