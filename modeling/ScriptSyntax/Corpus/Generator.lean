/-
Random sources of scripts, each a valid expression: literals, names, prefix and binary operators and
parentheses, nested to a chosen depth, now and then with comments and line breaks around them.
-/
import ScriptSyntax.Corpus.Draws
import ScriptSyntax.Operator

namespace ScriptSyntax.Corpus

variable {σ : Type}

def lowerCase : List Char := "abcdefghijklmnopqrstuvwxyz".toList

def letters : List Char := lowerCase ++ lowerCase.map Char.toUpper

def digits : List Char := "0123456789".toList

/-- The characters of names behind the first, of strings, and the escapes of strings. -/
def nameChars : List Char := letters ++ digits ++ ['_']

def stringChars : List Char := letters ++ digits ++ "_-/.,".toList

def stringEscapes : List (List Char) := [['\\', 'n'], ['\\', 't'], ['\\', '\\'], ['\\', '"']]

/-- The texts of `n` draws, one behind the other. -/
def repeated (g : StateM σ (List Char)) : Nat → StateM σ (List Char)
  | 0 => return []
  | n + 1 => do
    let cs ← g
    let rest ← repeated g n
    return cs ++ rest

namespace Draws

variable (d : Draws σ)

/-- One of a list of characters; the list may not be empty. -/
def char (cs : List Char) : StateM σ Char :=
  match cs with
  | [] => return ' '
  | c :: cs => d.oneOf c cs

def number (n : Nat) : StateM σ (List Char) := do
  return Nat.toDigits 10 (← d.upTo n)

/-- A name; a keyword gets an underscore behind it. -/
def name : StateM σ (List Char) := do
  let head ← d.char (letters ++ ['_'])
  let count ← d.upTo 8
  let tail ← repeated (do return [← d.char nameChars]) count
  let cs := head :: tail
  return if cs = "true".toList ∨ cs = "false".toList then cs ++ ['_'] else cs

/-- A character of a string, or an escape. -/
def stringPart : StateM σ (List Char) := do
  if ← d.happens ⟨1, -1⟩ then d.oneOf ['\\', 'n'] stringEscapes.tail
  else return [← d.char stringChars]

def literal : StateM σ (List Char) := do
  let k ← d.fraction
  if below ⟨4, -1⟩ k then d.number 10000
  else if below ⟨6, -1⟩ k then
    let whole ← d.number 999
    let fraction ← d.number 999
    return whole ++ '.' :: fraction
  else if below ⟨85, -2⟩ k then
    let count ← d.upTo 12
    let parts ← repeated d.stringPart count
    return '"' :: parts ++ ['"']
  else d.oneOf "true".toList ["false".toList]

/-- A literal or a name. -/
def leaf : StateM σ (List Char) := do
  if ← d.happens ⟨5, -1⟩ then d.literal else d.name

/-- An expression nested at most so deep. -/
def expression : Nat → StateM σ (List Char)
  | 0 => do
    let _ ← d.fraction
    d.leaf
  | depth + 1 => do
    let k ← d.fraction
    if below ⟨3, -1⟩ k then d.leaf
    else if below ⟨45, -2⟩ k then
      let op ← d.oneOf UnaryOp.neg UnaryOp.all.tail
      let glued ← d.happens ⟨5, -1⟩
      let operand ← expression depth
      return op.mark.chars ++ (if glued then [] else [' ']) ++ operand
    else if below ⟨6, -1⟩ k then
      let inner ← expression depth
      return '(' :: inner ++ [')']
    else
      let op ← d.oneOf BinaryOp.add BinaryOp.all.tail
      let lhs ← expression depth
      let rhs ← expression depth
      return lhs ++ ' ' :: op.mark.chars ++ ' ' :: rhs

/-- The text with its first blank turned into a newline. -/
def breakFirstBlank : List Char → List Char
  | [] => []
  | c :: cs => if c = ' ' then '\n' :: cs else c :: breakFirstBlank cs

/-- A source: an expression, with or without comments and line breaks. -/
def source : StateM σ (List Char) := do
  let depth ← d.upTo 6
  let body ← d.expression depth
  let body ← if ← d.happens ⟨1, -1⟩ then
    pure ("/* ".toList ++ (← d.name) ++ " */ ".toList ++ body) else pure body
  let body ← if ← d.happens ⟨1, -1⟩ then
    pure (body ++ " // ".toList ++ (← d.name)) else pure body
  let body ← if ← d.happens ⟨2, -1⟩ then pure (breakFirstBlank body) else pure body
  return if ← d.happens ⟨5, -1⟩ then body ++ ['\n'] else body

def sources : Nat → StateM σ (List String)
  | 0 => return []
  | n + 1 => do
    let cs ← d.source
    let rest ← sources n
    return String.ofList cs :: rest

end Draws

end ScriptSyntax.Corpus
