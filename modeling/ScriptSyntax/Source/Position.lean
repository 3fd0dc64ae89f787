/-
Positions in a source. Rows and columns count from one, the offset counts the characters before
the position. A newline ends its row. Positions are compared by row and column; those of different
files are not comparable. A position that is not found by reading a source may have any integers.
-/
import ScriptSyntax.Source.Symbol

namespace ScriptSyntax

structure Position where
  row : Int
  col : Int
  offset : Int
  file : Symbol
deriving DecidableEq, Repr

namespace Position

/-- Where a file begins. -/
def startOf (file : Symbol) : Position := ⟨1, 1, 0, file⟩

/-- The position behind a character. -/
def advance (p : Position) (c : Char) : Position :=
  if c = '\n' then { p with row := p.row + 1, col := 1, offset := p.offset + 1 }
  else { p with col := p.col + 1, offset := p.offset + 1 }

/-- The position behind a text. -/
def advanceBy (p : Position) (cs : List Char) : Position := cs.foldl advance p

@[simp] theorem advanceBy_nil (p : Position) : p.advanceBy [] = p := rfl

@[simp] theorem advanceBy_cons (p : Position) (c : Char) (cs : List Char) :
    p.advanceBy (c :: cs) = (p.advance c).advanceBy cs := rfl

theorem advanceBy_append (p : Position) (cs ds : List Char) :
    p.advanceBy (cs ++ ds) = (p.advanceBy cs).advanceBy ds := List.foldl_append ..

/-- The order of two positions of one file. -/
def compare (p q : Position) : Option Ordering :=
  if p.file = q.file then some ((Ord.compare p.row q.row).then (Ord.compare p.col q.col)) else none

/-- Do the positions name the same place? The offsets do not count. -/
def sameAs (p q : Position) : Bool := p.compare q = some .eq

def before (p q : Position) : Bool := p.compare q = some .lt

def notAfter (p q : Position) : Bool := p.before q || p.sameAs q

def after (p q : Position) : Bool := p.compare q = some .gt

def notBefore (p q : Position) : Bool := p.after q || p.sameAs q

/-- What a position is hashed by. -/
def key (p : Position) : Symbol × Int × Int := (p.file, p.row, p.col)

def text (p : Position) : String := toString p.row ++ ":" ++ toString p.col

end Position

end ScriptSyntax
