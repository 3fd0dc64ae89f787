/-
Numbers in lower-case hexadecimal with a fixed count of digits, as escapes write code points.
-/

namespace ScriptSyntax.Text

def hexDigit (n : Nat) : Char :=
  if n < 10 then Char.ofNat (48 + n) else Char.ofNat (87 + n)

/-- The last `width` hexadecimal digits of a number, the highest first. -/
def hexDigits : Nat → Nat → List Char
  | 0, _ => []
  | width + 1, n => hexDigits width (n / 16) ++ [hexDigit (n % 16)]

theorem hexDigits_length (width n : Nat) : (hexDigits width n).length = width := by
  induction width generalizing n with
  | zero => rfl
  | succ width ih => simp [hexDigits, ih]

example : hexDigits 4 0x2a9 = ['0', '2', 'a', '9'] := by decide

end ScriptSyntax.Text
