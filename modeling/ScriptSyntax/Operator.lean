/-
The operators of expressions: how each is spelled, how strongly it binds, and to which side a run
of equal strength leans. Assignments bind weakest and lean to the right.
-/
import ScriptSyntax.Token.Kind

namespace ScriptSyntax

/-- The levels of binding strength, the weakest first. -/
inductive Precedence where
  | assignment | logicOr | logicAnd | bitOr | bitXor | bitAnd | equality | relational | shift
  | additive | multiplicative | unary
deriving DecidableEq, Repr

namespace Precedence

def all : List Precedence :=
  [.assignment, .logicOr, .logicAnd, .bitOr, .bitXor, .bitAnd, .equality, .relational, .shift,
    .additive, .multiplicative, .unary]

/-- The number of a level; a stronger one has a higher number. -/
def rank : Precedence → Nat
  | .assignment => 1
  | .logicOr => 2
  | .logicAnd => 3
  | .bitOr => 4
  | .bitXor => 5
  | .bitAnd => 6
  | .equality => 7
  | .relational => 8
  | .shift => 9
  | .additive => 10
  | .multiplicative => 11
  | .unary => 12

def name : Precedence → String
  | .assignment => "ASSIGNMENT"
  | .logicOr => "LOGIC_OR"
  | .logicAnd => "LOGIC_AND"
  | .bitOr => "BIT_OR"
  | .bitXor => "BIT_XOR"
  | .bitAnd => "BIT_AND"
  | .equality => "EQUALITY"
  | .relational => "RELATIONAL"
  | .shift => "SHIFT"
  | .additive => "ADDITIVE"
  | .multiplicative => "MULTIPLICATIVE"
  | .unary => "UNARY"

def ofRank? (n : Int) : Option Precedence := all.find? fun p => (p.rank : Int) == n

end Precedence

/-- The side to which a run of operators of one level leans. -/
inductive Associativity where
  | left | right
deriving DecidableEq, Repr

def Associativity.name : Associativity → String
  | .left => "left"
  | .right => "right"

inductive BinaryOp where
  | add | sub | mul | div | bitAnd | bitOr | bitXor | logicAnd | logicOr | leftShift | rightShift
  | assign | addAssign | subAssign | mulAssign | divAssign | bitAndAssign | bitOrAssign
  | bitXorAssign | leftShiftAssign | rightShiftAssign | cmpEq | cmpNe | cmpLt | cmpGt | cmpLe | cmpGe
deriving DecidableEq, Repr

namespace BinaryOp

/-- All operators, in the order of the tables. -/
def all : List BinaryOp :=
  [.add, .sub, .mul, .div, .bitAnd, .bitOr, .bitXor, .logicAnd, .logicOr, .leftShift, .rightShift,
    .assign, .addAssign, .subAssign, .mulAssign, .divAssign, .bitAndAssign, .bitOrAssign,
    .bitXorAssign, .leftShiftAssign, .rightShiftAssign, .cmpEq, .cmpNe, .cmpLt, .cmpGt, .cmpLe,
    .cmpGe]

theorem mem_all (op : BinaryOp) : op ∈ all := by cases op <;> decide

def mark : BinaryOp → Mark
  | .add => .plus
  | .sub => .minus
  | .mul => .star
  | .div => .slash
  | .bitAnd => .amp
  | .bitOr => .pipe
  | .bitXor => .caret
  | .logicAnd => .ampAmp
  | .logicOr => .pipePipe
  | .leftShift => .shl
  | .rightShift => .shr
  | .assign => .eq
  | .addAssign => .plusEq
  | .subAssign => .minusEq
  | .mulAssign => .starEq
  | .divAssign => .slashEq
  | .bitAndAssign => .ampEq
  | .bitOrAssign => .pipeEq
  | .bitXorAssign => .caretEq
  | .leftShiftAssign => .shlEq
  | .rightShiftAssign => .shrEq
  | .cmpEq => .eqEq
  | .cmpNe => .bangEq
  | .cmpLt => .lt
  | .cmpGt => .gt
  | .cmpLe => .ltEq
  | .cmpGe => .gtEq

def text (op : BinaryOp) : String := op.mark.text

def name : BinaryOp → String
  | .add => "ADD"
  | .sub => "SUB"
  | .mul => "MUL"
  | .div => "DIV"
  | .bitAnd => "BIT_AND"
  | .bitOr => "BIT_OR"
  | .bitXor => "BIT_XOR"
  | .logicAnd => "LOGIC_AND"
  | .logicOr => "LOGIC_OR"
  | .leftShift => "LEFT_SHIFT"
  | .rightShift => "RIGHT_SHIFT"
  | .assign => "ASSIGN"
  | .addAssign => "ADD_ASSIGN"
  | .subAssign => "SUB_ASSIGN"
  | .mulAssign => "MUL_ASSIGN"
  | .divAssign => "DIV_ASSIGN"
  | .bitAndAssign => "BIT_AND_ASSIGN"
  | .bitOrAssign => "BIT_OR_ASSIGN"
  | .bitXorAssign => "BIT_XOR_ASSIGN"
  | .leftShiftAssign => "LEFT_SHIFT_ASSIGN"
  | .rightShiftAssign => "RIGHT_SHIFT_ASSIGN"
  | .cmpEq => "CMP_EQ"
  | .cmpNe => "CMP_NE"
  | .cmpLt => "CMP_LT"
  | .cmpGt => "CMP_GT"
  | .cmpLe => "CMP_LE"
  | .cmpGe => "CMP_GE"

def precedence : BinaryOp → Precedence
  | .logicOr => .logicOr
  | .logicAnd => .logicAnd
  | .bitOr => .bitOr
  | .bitXor => .bitXor
  | .bitAnd => .bitAnd
  | .cmpEq | .cmpNe => .equality
  | .cmpLt | .cmpGt | .cmpLe | .cmpGe => .relational
  | .leftShift | .rightShift => .shift
  | .add | .sub => .additive
  | .mul | .div => .multiplicative
  | _ => .assignment

def isAssignment (op : BinaryOp) : Bool := op.precedence = .assignment

/-- An assignment yields a value, so that a run of them assigns one value to all. -/
def associativity (op : BinaryOp) : Associativity := if op.isAssignment then .right else .left

def ofMark? (m : Mark) : Option BinaryOp := all.find? (·.mark = m)

def ofText? (s : String) : Option BinaryOp := all.find? (·.text == s)

theorem ofMark?_mark (op : BinaryOp) : ofMark? op.mark = some op := by cases op <;> decide

theorem mark_of_ofMark? {m : Mark} {op : BinaryOp} (h : ofMark? m = some op) : op.mark = m := by
  simpa using List.find?_some h

theorem rank_pos (op : BinaryOp) : 1 ≤ op.precedence.rank := by cases op <;> decide

theorem rank_lt_unary (op : BinaryOp) : op.precedence.rank < Precedence.unary.rank := by
  cases op <;> decide

end BinaryOp

inductive UnaryOp where
  | neg | not
deriving DecidableEq, Repr

namespace UnaryOp

def all : List UnaryOp := [.neg, .not]

def mark : UnaryOp → Mark
  | .neg => .minus
  | .not => .bang

def text (op : UnaryOp) : String := op.mark.text

def name : UnaryOp → String
  | .neg => "NEG"
  | .not => "NOT"

def precedence (_ : UnaryOp) : Precedence := .unary

def ofMark? (m : Mark) : Option UnaryOp := all.find? (·.mark = m)

def ofText? (s : String) : Option UnaryOp := all.find? (·.text == s)

theorem ofMark?_mark (op : UnaryOp) : ofMark? op.mark = some op := by cases op <;> decide

theorem mark_of_ofMark? {m : Mark} {op : UnaryOp} (h : ofMark? m = some op) : op.mark = m := by
  simpa using List.find?_some h

end UnaryOp

def TokenKind.binaryOp? : TokenKind → Option BinaryOp
  | .mark m => BinaryOp.ofMark? m
  | _ => none

def TokenKind.unaryOp? : TokenKind → Option UnaryOp
  | .mark m => UnaryOp.ofMark? m
  | _ => none

/-- A text or number that names no entry of a table. -/
structure UnknownEntry where
  /-- The text or number, as messages show it. -/
  shown : String
  table : String
deriving DecidableEq, Repr

def UnknownEntry.message (e : UnknownEntry) : String := e.shown ++ " is not a valid " ++ e.table

def BinaryOp.ofText (s : String) : Except UnknownEntry BinaryOp :=
  (BinaryOp.ofText? s).elim (.error ⟨Text.quoted s, "BinaryOp"⟩) .ok

def UnaryOp.ofText (s : String) : Except UnknownEntry UnaryOp :=
  (UnaryOp.ofText? s).elim (.error ⟨Text.quoted s, "UnaryOp"⟩) .ok

def Precedence.ofRank (n : Int) : Except UnknownEntry Precedence :=
  (Precedence.ofRank? n).elim (.error ⟨toString n, "Precedence"⟩) .ok

def TokenKind.ofText (s : String) : Except UnknownEntry TokenKind :=
  (TokenKind.ofText? s).elim (.error ⟨Text.quoted s, "TokenKind"⟩) .ok

end ScriptSyntax
