/-
Decimals: a natural number of units of a power of ten, their reading from digits, and the two
ways of writing one. The positional text has a digit on both sides of its point. The compact text
is positional where the point falls near the digits and has an exponent elsewhere.
-/

namespace ScriptSyntax

/-- The number `digits · 10 ^ exponent`. -/
structure Decimal where
  digits : Nat
  exponent : Int
deriving DecidableEq, Repr

def digitValue (c : Char) : Nat := c.toNat - 48

/-- The number that decimal digits write. -/
def natOfDigits (cs : List Char) : Nat := cs.foldl (fun n c => n * 10 + digitValue c) 0

namespace Decimal

/-- The decimal written by the digits before and behind a point. -/
def ofParts (whole fraction : List Char) : Decimal :=
  ⟨natOfDigits (whole ++ fraction), -(fraction.length : Int)⟩

/-- Numerator and denominator of the number. -/
def ratio (d : Decimal) : Nat × Nat :=
  if 0 ≤ d.exponent then (d.digits * Nat.pow 10 d.exponent.toNat, 1)
  else (d.digits, Nat.pow 10 (-d.exponent).toNat)

/-- The same number in larger units, at most `n` times ten. -/
def shorten : Nat → Decimal → Decimal
  | 0, d => d
  | n + 1, d => if d.digits % 10 = 0 then shorten n ⟨d.digits / 10, d.exponent + 1⟩ else d

/-- The same number in the largest units that keep it whole; zero has the unit one. -/
def normal (d : Decimal) : Decimal :=
  if d.digits = 0 then ⟨0, 0⟩ else shorten (Nat.toDigits 10 d.digits).length d

def zeros (n : Nat) : List Char := List.replicate n '0'

/-- All digits, with the point in its place and at least one digit on both sides of it. -/
def positional (d : Decimal) : List Char :=
  let cs := Nat.toDigits 10 d.digits
  if 0 ≤ d.exponent then cs ++ zeros d.exponent.toNat ++ ['.', '0']
  else
    let places := (-d.exponent).toNat
    let padded := zeros (places + 1 - cs.length) ++ cs
    padded.take (padded.length - places) ++ '.' :: padded.drop (padded.length - places)

/-- One digit before the point, the others behind it, and the power of ten with its sign and at
least two digits. -/
def scientific (d : Decimal) : List Char :=
  let cs := Nat.toDigits 10 d.digits
  let power : Int := d.exponent + cs.length - 1
  let shown := Nat.toDigits 10 power.natAbs
  let fraction := if cs.length = 1 then [] else '.' :: cs.drop 1
  cs.take 1 ++ fraction ++ 'e' :: (if power < 0 then '-' else '+') :: zeros (2 - shown.length) ++ shown

/-- Positional where the first digit is worth at least a ten-thousandth and less than ten to the
sixteenth. -/
def compact (d : Decimal) : List Char :=
  let point : Int := d.exponent + (Nat.toDigits 10 d.digits).length
  if d.digits = 0 ∨ (-4 < point ∧ point ≤ 16) then positional d else scientific d

end Decimal

end ScriptSyntax
