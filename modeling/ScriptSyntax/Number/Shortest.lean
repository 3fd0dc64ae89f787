/-
The shortest decimal that reads back as a given binary64 number. For one to seventeen digits, the
two decimals of so many digits around the number are tried; the first count at which one of them
reads back wins, of two that do the nearer, and of two equally near the even one. Should none read
back, the number's exact decimal stands in, which every finite number has.
-/
import ScriptSyntax.Number.Binary64

namespace ScriptSyntax.Binary64

/-- The exact decimal of a finite magnitude. -/
def exactDecimal (n : Nat) : Decimal :=
  if 0 ≤ power n then ⟨significand n * Nat.pow 2 (power n).toNat, 0⟩
  else ⟨significand n * Nat.pow 5 (-power n).toNat, power n⟩

/-- The power of ten of the first digit of `num / den`. -/
def leadingPower (num den : Nat) : Int :=
  let t : Int := (Nat.toDigits 10 num).length - (Nat.toDigits 10 den).length
  let reached := if 0 ≤ t then Nat.pow 10 t.toNat * den ≤ num else den ≤ num * Nat.pow 10 (-t).toNat
  if reached then t else t - 1

/-- Does the decimal read back as the magnitude? -/
def readsBack (n : Nat) (d : Decimal) : Bool := (ofDecimal d).magnitude = n

/-- The decimal in units of `10 ^ e` that reads back as the magnitude, if there is one; of two the
nearer. -/
def onGrid? (n : Nat) (e : Int) : Option Decimal :=
  let (num, den) := ratio n
  let (a, b) := if 0 ≤ e then (num, den * Nat.pow 10 e.toNat) else (num * Nat.pow 10 (-e).toNat, den)
  let low : Decimal := ⟨a / b, e⟩
  let high : Decimal := ⟨a / b + 1, e⟩
  let lowNearer := 2 * (a % b) < b || (2 * (a % b) == b && a / b % 2 == 0)
  if readsBack n low then
    if readsBack n high && !lowNearer then some high else some low
  else if readsBack n high then some high
  else none

/-- The first hit on the grids of `count`, `count + 1`, … digits, `tries` of them. -/
def firstOnGrids? (n : Nat) (leading : Int) : (tries count : Nat) → Option Decimal
  | 0, _ => none
  | tries + 1, count =>
    match onGrid? n (leading + 1 - count) with
    | some d => some d
    | none => firstOnGrids? n leading tries (count + 1)

/-- The shortest decimal of a finite magnitude. -/
def shortest (n : Nat) : Decimal :=
  if n = 0 then ⟨0, 0⟩
  else match firstOnGrids? n (leadingPower (ratio n).1 (ratio n).2) 17 1 with
    | some d => d.normal
    | none => exactDecimal n

def sign (x : Binary64) : List Char := if x.negative then ['-'] else []

/-- The name of a number that has no digits. -/
def specialName (x : Binary64) : List Char :=
  if x.isInfinite then x.sign ++ ['i', 'n', 'f'] else ['n', 'a', 'n']

/-- The shortest digits, with a point and no exponent. -/
def positional (x : Binary64) : List Char := x.sign ++ (shortest x.magnitude).positional

/-- The shortest digits, with an exponent where the point would fall far from them. -/
def compact (x : Binary64) : List Char :=
  if x.isFinite then
    let d := shortest x.magnitude
    x.sign ++ d.compact
  else x.specialName

end ScriptSyntax.Binary64
