/-
JSON values and their text: two blanks of indentation for each level, members in the order in which
they stand, and ASCII alone. Other characters are escaped by their UTF-16 units.
-/
import ScriptSyntax.Number.Shortest
import ScriptSyntax.Text.Hexadecimal

namespace ScriptSyntax

inductive Json where
  | int (n : Int)
  | float (x : Binary64)
  | bool (b : Bool)
  | string (s : String)
  | object (members : List (String × Json))

namespace Json

def unitChars (n : Nat) : List Char := '\\' :: 'u' :: Text.hexDigits 4 n

/-- One character between quotes. -/
def charChars (c : Char) : List Char :=
  match c with
  | '"' => ['\\', '"']
  | '\\' => ['\\', '\\']
  | '\n' => ['\\', 'n']
  | '\r' => ['\\', 'r']
  | '\t' => ['\\', 't']
  | '\x08' => ['\\', 'b']
  | '\x0c' => ['\\', 'f']
  | c =>
    let n := c.toNat
    if 0x20 ≤ n ∧ n < 0x7F then [c]
    else if n < 0x10000 then unitChars n
    else unitChars (0xD800 + (n - 0x10000) / 0x400) ++ unitChars (0xDC00 + (n - 0x10000) % 0x400)

def stringChars (cs : List Char) : List Char := '"' :: cs.flatMap charChars ++ ['"']

/-- A new line at a level. -/
def newline (level : Nat) : List Char := '\n' :: List.replicate (2 * level) ' '

mutual

/-- The text of a value whose line stands at a level, written in front of more text. Each character
is written once, however deep its value stands. -/
def charsOnto (level : Nat) : Json → List Char → List Char
  | .int n, rest => (toString n).toList ++ rest
  | .float x, rest => x.compact ++ rest
  | .bool true, rest => 't' :: 'r' :: 'u' :: 'e' :: rest
  | .bool false, rest => 'f' :: 'a' :: 'l' :: 's' :: 'e' :: rest
  | .string s, rest => stringChars s.toList ++ rest
  | .object [], rest => '{' :: '}' :: rest
  | .object (m :: ms), rest =>
    '{' :: (newline (level + 1) ++ memberOnto (level + 1) m
      (membersOnto (level + 1) ms (newline level ++ '}' :: rest)))

/-- A member of an object. -/
def memberOnto (level : Nat) : String × Json → List Char → List Char
  | (name, v), rest => stringChars name.toList ++ ':' :: ' ' :: charsOnto level v rest

/-- The members behind the first one. -/
def membersOnto (level : Nat) : List (String × Json) → List Char → List Char
  | [], rest => rest
  | m :: ms, rest => ',' :: (newline level ++ memberOnto level m (membersOnto level ms rest))

end

def text (v : Json) : String := String.ofList (v.charsOnto 0 [])

end Json

end ScriptSyntax
