/-
Sources of random choices. A generator asks for two things only: a fraction of the unit interval in
steps of `2 ^ -53`, and a natural number up to a bound. Whatever answers, a generator built on
these is a function of the answers.
-/
import ScriptSyntax.Number.Binary64

namespace ScriptSyntax.Corpus

/-- A source of random choices with states of type `σ`. -/
structure Draws (σ : Type) where
  /-- The numerator of a fraction over `2 ^ 53`. -/
  fraction : StateM σ Nat
  /-- A number from zero to `n`. -/
  upTo (n : Nat) : StateM σ (Fin (n + 1))

namespace Draws

variable {σ : Type}

/-- Is a fraction below the binary64 number nearest to `chance`? -/
def below (chance : Decimal) (fraction : Nat) : Bool :=
  let (num, den) := Binary64.ratio (Binary64.ofDecimal chance).magnitude
  fraction * den < num * Nat.pow 2 53

/-- True with a chance. -/
def happens (d : Draws σ) (chance : Decimal) : StateM σ Bool := below chance <$> d.fraction

/-- One of a list that begins with `x`. -/
def oneOf {α : Type} (d : Draws σ) (x : α) (xs : List α) : StateM σ α := do
  let i ← d.upTo xs.length
  return (x :: xs).get i

end Draws

end ScriptSyntax.Corpus
