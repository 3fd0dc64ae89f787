/-
Spans: from the position of the first character covered to the position of the last one. A span
of one character has both ends in one place.
-/
import ScriptSyntax.Source.Position

namespace ScriptSyntax

structure Span where
  start : Position
  stop : Position
deriving DecidableEq, Repr

namespace Span

def point (p : Position) : Span := ⟨p, p⟩

/-- From the start of one span to the stop of another. -/
def cover (first last : Span) : Span := ⟨first.start, last.stop⟩

/-- The span of a text that begins at a position; the empty text takes its place alone. -/
def ofText (p : Position) (cs : List Char) : Span := ⟨p, p.advanceBy cs.dropLast⟩

def file (s : Span) : Symbol := s.start.file

/-- Do the spans cover the same places? The offsets do not count. -/
def sameAs (s t : Span) : Bool := s.start.sameAs t.start && s.stop.sameAs t.stop

def text (s : Span) : String := "(" ++ s.start.text ++ " - " ++ s.stop.text ++ ")"

end Span

end ScriptSyntax
