/-
Strict reading of UTF-8: every byte belongs to the shortest form of a code point that is no
surrogate, or the whole text is refused. A refusal names the bytes at fault: a byte that starts
no form; the bytes of a form up to the first that does not continue it; or the bytes of a form
that the end of the text cuts off. The bytes are read one at a time, with the form that is open.
-/
import ScriptSyntax.Text.Hexadecimal

namespace ScriptSyntax.Text

namespace Utf8

/-- A form whose first byte has been read. -/
structure Form where
  /-- Bytes still to come. -/
  missing : Nat
  /-- Bounds of the next byte. -/
  low : Nat
  high : Nat
  /-- The bits read so far. -/
  bits : Nat
deriving DecidableEq, Repr

/-- The form that a first byte from 128 on opens. The narrower bounds of the second byte shut out
longer forms of small code points, surrogates, and code points past the last one. -/
def Form.ofByte? (b : Nat) : Option Form :=
  if 0xC2 ≤ b ∧ b ≤ 0xDF then some ⟨1, 0x80, 0xBF, b - 0xC0⟩
  else if b = 0xE0 then some ⟨2, 0xA0, 0xBF, 0⟩
  else if b = 0xED then some ⟨2, 0x80, 0x9F, 0xD⟩
  else if 0xE1 ≤ b ∧ b ≤ 0xEF then some ⟨2, 0x80, 0xBF, b - 0xE0⟩
  else if b = 0xF0 then some ⟨3, 0x90, 0xBF, 0⟩
  else if 0xF1 ≤ b ∧ b ≤ 0xF3 then some ⟨3, 0x80, 0xBF, b - 0xF0⟩
  else if b = 0xF4 then some ⟨3, 0x80, 0x8F, 4⟩
  else none

inductive Fault where
  | invalidStart
  | invalidContinuation
  | unexpectedEnd
deriving DecidableEq, Repr

/-- Why a text is no UTF-8, and which of its bytes say so. -/
structure Refusal where
  fault : Fault
  /-- The first byte at fault. -/
  first : Nat
  start : Nat
  /-- The position of the last byte at fault. -/
  last : Nat
deriving DecidableEq, Repr

def Fault.message : Fault → String
  | .invalidStart => "invalid start byte"
  | .invalidContinuation => "invalid continuation byte"
  | .unexpectedEnd => "unexpected end of data"

def Refusal.message (r : Refusal) : String :=
  if r.start = r.last then
    "'utf-8' codec can't decode byte 0x" ++ String.ofList (hexDigits 2 r.first)
      ++ s!" in position {r.start}: " ++ r.fault.message
  else
    s!"'utf-8' codec can't decode bytes in position {r.start}-{r.last}: " ++ r.fault.message

mutual

/-- Reads from position `i`, where no form is open. -/
def decodeFrom (i : Nat) : List UInt8 → Except Refusal (List Char)
  | [] => .ok []
  | b :: bs =>
    if b.toNat < 0x80 then (Char.ofNat b.toNat :: ·) <$> decodeFrom (i + 1) bs
    else match Form.ofByte? b.toNat with
      | none => .error ⟨.invalidStart, b.toNat, i, i⟩
      | some form => decodeForm i b.toNat form (i + 1) bs

/-- Reads from position `i`, inside a form that byte `first` opened at `start`. -/
def decodeForm (start first : Nat) (form : Form) (i : Nat) : List UInt8 → Except Refusal (List Char)
  | [] => .error ⟨.unexpectedEnd, first, start, i - 1⟩
  | b :: bs =>
    if b.toNat < form.low || form.high < b.toNat then
      .error ⟨.invalidContinuation, first, start, i - 1⟩
    else
      let bits := form.bits * 64 + (b.toNat - 0x80)
      if form.missing = 1 then (Char.ofNat bits :: ·) <$> decodeFrom (i + 1) bs
      else decodeForm start first ⟨form.missing - 1, 0x80, 0xBF, bits⟩ (i + 1) bs

end

def decode (bytes : List UInt8) : Except Refusal (List Char) := decodeFrom 0 bytes

end Utf8

/-- A return, with or without a newline behind it, is read as a newline. -/
def unifyNewlines : List Char → List Char
  | [] => []
  | '\r' :: '\n' :: cs => '\n' :: unifyNewlines cs
  | c :: cs => (if c = '\r' then '\n' else c) :: unifyNewlines cs

example : unifyNewlines ['a', '\r', '\r', '\n', '\n'] = ['a', '\n', '\n', '\n'] := by decide

end ScriptSyntax.Text
