/-
Binary64 floating-point numbers, as a sign and a magnitude. The magnitude is the place of the
absolute value among the nonnegative ones in increasing order: zero, the subnormal numbers, the
normal numbers, infinity, and the NaNs above it. It is also the number that the low 63 bits of the
interchange format spell. Rounding a quotient to the nearest number, with ties to the even one, is
computed in exact natural arithmetic.
-/
import ScriptSyntax.Number.Decimal

namespace ScriptSyntax

structure Binary64 where
  negative : Bool
  magnitude : Nat
  magnitude_lt : magnitude < Nat.pow 2 63
deriving DecidableEq

namespace Binary64

/-- The magnitude of infinity. -/
def infinityMagnitude : Nat := 2047 * Nat.pow 2 52

/-- A magnitude, or infinity in place of all above it. -/
def ofMagnitude (negative : Bool) (n : Nat) : Binary64 :=
  ⟨negative, min n infinityMagnitude, by
    have := Nat.min_le_right n infinityMagnitude
    have : infinityMagnitude < Nat.pow 2 63 := by decide
    omega⟩

def ofBits (w : UInt64) : Binary64 :=
  ⟨Nat.pow 2 63 ≤ w.toNat, w.toNat % Nat.pow 2 63, Nat.mod_lt _ (by decide)⟩

def isInfinite (x : Binary64) : Bool := x.magnitude = infinityMagnitude

def isFinite (x : Binary64) : Bool := x.magnitude < infinityMagnitude

def abs (x : Binary64) : Binary64 := { x with negative := false }

def neg (x : Binary64) : Binary64 := { x with negative := !x.negative }

/-- The absolute value of a finite magnitude is `significand · 2 ^ power`. -/
def significand (n : Nat) : Nat :=
  if n < Nat.pow 2 52 then n else Nat.pow 2 52 + n % Nat.pow 2 52

def power (n : Nat) : Int := if n < Nat.pow 2 52 then -1074 else (n / Nat.pow 2 52 : Nat) - 1075

/-- Numerator and denominator of the absolute value of a finite magnitude. -/
def ratio (n : Nat) : Nat × Nat :=
  if 0 ≤ power n then (significand n * Nat.pow 2 (power n).toNat, 1)
  else (significand n, Nat.pow 2 (-power n).toNat)

/-- A quotient rounded to the nearest natural number, a tie to the even one. -/
def divNearest (a b : Nat) : Nat :=
  let q := a / b
  let r := a % b
  if 2 * r < b then q else if b < 2 * r then q + 1 else q + q % 2

/-- Numerator and denominator of `num / den` in units of `2 ^ q`. -/
def scaled (num den : Nat) (q : Int) : Nat × Nat :=
  if 0 ≤ q then (num, den * Nat.pow 2 q.toNat) else (num * Nat.pow 2 (-q).toNat, den)

/-- The power of two of the last place of numbers near `num / den`: the least that leaves it below
`2 ^ 53` units, but none below that of the subnormal numbers. -/
def unitPower (num den : Nat) : Int :=
  let low : Int := max ((num.log2 : Int) - den.log2 - 53) (-1074)
  let (a, b) := scaled num den low
  if a / b < Nat.pow 2 53 then low else low + 1

/-- The magnitude nearest to a quotient, possibly above infinity. -/
def roundRatio (num den : Nat) : Nat :=
  let q := unitPower num den
  let (a, b) := scaled num den q
  (q + 1074).toNat * Nat.pow 2 52 + divNearest a b

def ofRatio (negative : Bool) (num den : Nat) : Binary64 :=
  ofMagnitude negative (if num = 0 then 0 else roundRatio num den)

/-- The number nearest to a decimal. -/
def ofDecimal (d : Decimal) : Binary64 := ofRatio false d.ratio.1 d.ratio.2

/-- The number nearest to an integer. -/
def ofInt (n : Int) : Binary64 := ofRatio (n < 0) n.natAbs 1

end Binary64

end ScriptSyntax
