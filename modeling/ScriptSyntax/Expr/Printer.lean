/-
Two texts of an expression. The canonical source text reads back as the same expression: operands
stand in parentheses only where they would be read differently, and a prefix operator keeps a
blank before another one. The dump writes every operator before its operands, in parentheses.
Some literals have no text: floats that are not finite, and integers past the digit limit. And a tree
may be too deep to be printed: a printer calls itself for every operand, and each call takes a frame of
the stack.
-/
import ScriptSyntax.Expr.Basic
import ScriptSyntax.Number.Shortest
import ScriptSyntax.Token.Lexeme

namespace ScriptSyntax

/-- Why an expression is not printed. -/
inductive PrintError where
  | noSourceForm (x : Binary64)
  | tooManyDigits
  /-- No frame of the stack is left for one more call. -/
  | tooDeep
deriving DecidableEq

def PrintError.message : PrintError → String
  | .noSourceForm x => "float literal has no source form: " ++ String.ofList x.specialName
  | .tooManyDigits => "Exceeds the limit (4300 digits) for integer string conversion; " ++
      "use sys.set_int_max_str_digits() to increase the limit"
  | .tooDeep => "maximum recursion depth exceeded"

namespace Literal

def boolChars : Bool → List Char
  | true => ['t', 'r', 'u', 'e']
  | false => ['f', 'a', 'l', 's', 'e']

def intChars (n : Int) : List Char :=
  (if n < 0 then ['-'] else []) ++ Nat.toDigits 10 n.natAbs

/-- One character of a string literal. -/
def charChars (c : Char) : List Char :=
  match escapeLetter? c with
  | some e => ['\\', e]
  | none => [c]

def stringChars (cs : List Char) : List Char := '"' :: cs.flatMap charChars ++ ['"']

/-- The text of a literal that has one. -/
def chars : Literal → List Char
  | .int n => intChars n
  | .float x => x.positional
  | .string s => stringChars s.toList
  | .bool b => boolChars b

/-- Has the literal a text? -/
def check : Literal → Except PrintError Unit
  | .int n => if n.natAbs < Nat.pow 10 maxIntDigits then .ok () else .error .tooManyDigits
  | .float x => if x.isFinite then .ok () else .error (.noSourceForm x)
  | _ => .ok ()

end Literal

namespace Expr

variable {α : Type}

/-- Have all literals a text? The first that has none counts. -/
def check : Expr α → Except PrintError Unit
  | .literal _ v => v.check
  | .identifier _ _ => .ok ()
  | .unary _ _ e | .grouping _ e => e.check
  | .binary _ _ l r => do l.check; r.check

def parenthesized (cs : List Char) : List Char := '(' :: cs ++ [')']

/-- Parentheses around an operand that needs them. -/
def wrap (needed : Bool) (cs : List Char) : List Char := if needed then parenthesized cs else cs

/-- Does the left operand of an operator need parentheses? -/
def wrapsLeft (op : BinaryOp) (lhs : Expr α) : Bool :=
  lhs.rank < op.precedence.rank || (lhs.rank == op.precedence.rank && op.isAssignment)

/-- Does the right operand of an operator need parentheses? -/
def wrapsRight (op : BinaryOp) (rhs : Expr α) : Bool :=
  rhs.rank < op.precedence.rank || (rhs.rank == op.precedence.rank && !op.isAssignment)

/-- Does the operand of a prefix operator need parentheses? -/
def wrapsOperand (e : Expr α) : Bool := e.rank < Precedence.unary.rank

def isUnary : Expr α → Bool
  | .unary _ _ _ => true
  | _ => false

/-- The canonical source text. -/
def sourceChars : Expr α → List Char
  | .literal _ v => v.chars
  | .identifier _ n => n.toList
  | .unary _ op e =>
    op.mark.chars ++ (if e.isUnary then [' '] else []) ++ wrap (wrapsOperand e) e.sourceChars
  | .binary _ op l r =>
    wrap (wrapsLeft op l) l.sourceChars ++ ' ' :: op.mark.chars ++
      ' ' :: wrap (wrapsRight op r) r.sourceChars
  | .grouping _ e => parenthesized e.sourceChars

/-- The dump. -/
def dumpChars : Expr α → List Char
  | .literal _ v => v.chars
  | .identifier _ n => n.toList
  | .unary _ op e => parenthesized (op.mark.chars ++ ' ' :: e.dumpChars)
  | .binary _ op l r =>
    parenthesized (op.mark.chars ++ ' ' :: l.dumpChars ++ ' ' :: r.dumpChars)
  | .grouping _ e => parenthesized ("group ".toList ++ e.dumpChars)

/-! ## Writing in front of more text

Both texts, written in front of a text that is there already. Each character is written once, so a
long run of operators takes no longer than its text. -/

/-- Writes in front of `rest`, in parentheses where they are needed. -/
def wrapOnto (needed : Bool) (write : List Char → List Char) (rest : List Char) : List Char :=
  if needed then '(' :: write (')' :: rest) else write rest

def sourceOnto : Expr α → List Char → List Char
  | .literal _ v, rest => v.chars ++ rest
  | .identifier _ n, rest => n.toList ++ rest
  | .unary _ op e, rest =>
    op.mark.chars ++ ((if e.isUnary then [' '] else []) ++
      wrapOnto (wrapsOperand e) e.sourceOnto rest)
  | .binary _ op l r, rest =>
    wrapOnto (wrapsLeft op l) l.sourceOnto
      (' ' :: (op.mark.chars ++ ' ' :: wrapOnto (wrapsRight op r) r.sourceOnto rest))
  | .grouping _ e, rest => '(' :: e.sourceOnto (')' :: rest)

def dumpOnto : Expr α → List Char → List Char
  | .literal _ v, rest => v.chars ++ rest
  | .identifier _ n, rest => n.toList ++ rest
  | .unary _ op e, rest => '(' :: (op.mark.chars ++ ' ' :: e.dumpOnto (')' :: rest))
  | .binary _ op l r, rest =>
    '(' :: (op.mark.chars ++ ' ' :: l.dumpOnto (' ' :: r.dumpOnto (')' :: rest)))
  | .grouping _ e, rest => '(' :: ("group ".toList ++ e.dumpOnto (')' :: rest))

theorem wrapOnto_eq (needed : Bool) {write : List Char → List Char} {cs : List Char}
    (h : ∀ rest, write rest = cs ++ rest) (rest : List Char) :
    wrapOnto needed write rest = wrap needed cs ++ rest := by
  cases needed <;> simp [wrapOnto, wrap, parenthesized, h]

theorem sourceOnto_eq (e : Expr α) (rest : List Char) :
    e.sourceOnto rest = e.sourceChars ++ rest := by
  induction e generalizing rest with
  | literal | identifier => rfl
  | unary _ op e ih => simp [sourceOnto, sourceChars, wrapOnto_eq _ ih]
  | binary _ op l r ihl ihr => simp [sourceOnto, sourceChars, wrapOnto_eq _ ihl, wrapOnto_eq _ ihr]
  | grouping _ e ih => simp [sourceOnto, sourceChars, parenthesized, ih]

theorem dumpOnto_eq (e : Expr α) (rest : List Char) : e.dumpOnto rest = e.dumpChars ++ rest := by
  induction e generalizing rest with
  | literal | identifier => rfl
  | unary _ op e ih => simp [dumpOnto, dumpChars, parenthesized, ih]
  | binary _ op l r ihl ihr => simp [dumpOnto, dumpChars, parenthesized, ihl, ihr]
  | grouping _ e ih => simp [dumpOnto, dumpChars, parenthesized, ih]

/-! ## The texts as strings -/

def sourceText (e : Expr α) : String := String.ofList (e.sourceOnto [])

def dumpText (e : Expr α) : String := String.ofList (e.dumpOnto [])

theorem sourceText_eq (e : Expr α) : e.sourceText = String.ofList e.sourceChars := by
  simp [sourceText, sourceOnto_eq]

theorem dumpText_eq (e : Expr α) : e.dumpText = String.ofList e.dumpChars := by
  simp [dumpText, dumpOnto_eq]

/-- The canonical source text of an expression whose literals have texts, on a stack that has room for
every tree. -/
def format (e : Expr α) : Except PrintError String := do
  e.check
  return e.sourceText

/-- The dump of an expression whose literals have texts, on a stack that has room for every tree. -/
def dump (e : Expr α) : Except PrintError String := do
  e.check
  return e.dumpText

end Expr

/-! ## On a stack

What a printer calls besides itself nests no deeper than a fixed number of calls, whatever the tree; the
frames that it takes are not counted among those that are left for the printer. -/

/-- A stack has so many frames, unless it is told to have more. -/
def stackFrames : Nat := 1000

/-- How many calls a printer makes, each from the one before, to get to an operand and into a group. -/
structure Descent where
  operand : Nat
  group : Nat

/-- An operand is wrapped by a call of its own. -/
def Descent.source : Descent := ⟨2, 1⟩

def Descent.dump : Descent := ⟨1, 1⟩

namespace Expr

variable {α : Type}

/-- How deep the calls nest. -/
def callDepth (d : Descent) : Expr α → Nat
  | .literal _ _ | .identifier _ _ => 1
  | .unary _ _ e => d.operand + e.callDepth d
  | .binary _ _ l r => d.operand + max (l.callDepth d) (r.callDepth d)
  | .grouping _ e => d.group + e.callDepth d

/-- Goes down to the literals, with so many frames left. The first literal that has no text counts, or
the first call for which no frame is left. -/
def descend (d : Descent) : Nat → Expr α → Except PrintError Unit
  | 0, _ => .error .tooDeep
  | _ + 1, .literal _ v => v.check
  | _ + 1, .identifier _ _ => .ok ()
  | n + 1, .unary _ _ e => e.descend d (n + 1 - d.operand)
  | n + 1, .binary _ _ l r => do
    l.descend d (n + 1 - d.operand)
    r.descend d (n + 1 - d.operand)
  | n + 1, .grouping _ e => e.descend d (n + 1 - d.group)

/-- The canonical source text, written with so many frames left. -/
def formatWithin (frames : Nat) (e : Expr α) : Except PrintError String := do
  e.descend .source frames
  return e.sourceText

/-- The dump, written with so many frames left. -/
def dumpWithin (frames : Nat) (e : Expr α) : Except PrintError String := do
  e.descend .dump frames
  return e.dumpText

end Expr

end ScriptSyntax
