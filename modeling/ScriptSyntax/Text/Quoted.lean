/-
The quoted form of a text, as messages and token listings show it. The mark is a single quote,
or a double one where the text holds a single quote and no double one. Backslashes, the mark,
newlines, returns and tabs are escaped by a letter, all other unprintable characters by their
code point; every other character stands for itself.
-/
import ScriptSyntax.Text.Hexadecimal
import ScriptSyntax.Text.Printable

namespace ScriptSyntax.Text

namespace Quoted

/-- The quote that stands on both sides of a text. -/
def mark (cs : List Char) : Char :=
  if cs.contains '\'' && !cs.contains '"' then '"' else '\''

/-- A code point behind a backslash, in the narrowest of three widths that holds it. -/
def codePoint (c : Char) : List Char :=
  let n := c.toNat
  if n < 0x100 then '\\' :: 'x' :: hexDigits 2 n
  else if n < 0x10000 then '\\' :: 'u' :: hexDigits 4 n
  else '\\' :: 'U' :: hexDigits 8 n

/-- One character between marks `m`. -/
def escape (m c : Char) : List Char :=
  if c = '\\' || c = m then ['\\', c]
  else if c = '\n' then ['\\', 'n']
  else if c = '\r' then ['\\', 'r']
  else if c = '\t' then ['\\', 't']
  else if isPrintable c then [c]
  else codePoint c

def encode (cs : List Char) : List Char :=
  mark cs :: cs.flatMap (escape (mark cs)) ++ [mark cs]

end Quoted

def quoted (s : String) : String := String.ofList (Quoted.encode s.toList)

def quotedChar (c : Char) : String := String.ofList (Quoted.encode [c])

example : Quoted.encode ['i', 't', '\'', 's'] = ['"', 'i', 't', '\'', 's', '"'] := by decide +kernel

end ScriptSyntax.Text
