/-
A scanner hands out the characters of a source one at a time, with their positions, and can look
one character ahead. The looked-at character is kept; the position then stands behind it.
-/
import ScriptSyntax.Source.Position

namespace ScriptSyntax

structure Scanner where
  /-- The character looked at and not yet handed out. -/
  kept : Option (Position × Char)
  /-- The position of the first of `rest`. -/
  ahead : Position
  rest : List Char
deriving DecidableEq, Repr

namespace Scanner

def ofText (file : Symbol) (cs : List Char) : Scanner := ⟨none, .startOf file, cs⟩

/-- Makes sure that a character is kept, if one is left. -/
def look (s : Scanner) : Scanner :=
  match s.kept, s.rest with
  | none, c :: cs => ⟨some (s.ahead, c), s.ahead.advance c, cs⟩
  | _, _ => s

def peekWithPosition (s : Scanner) : Option (Position × Char) × Scanner := (s.look.kept, s.look)

def peek (s : Scanner) : Option Char × Scanner := (s.look.kept.map (·.2), s.look)

def nextWithPosition (s : Scanner) : Option (Position × Char) × Scanner :=
  (s.look.kept, { s.look with kept := none })

def next (s : Scanner) : Option Char × Scanner :=
  (s.nextWithPosition.1.map (·.2), s.nextWithPosition.2)

/-- The position right behind the last character handed out. -/
def lastPosition (s : Scanner) : Position :=
  match s.kept with
  | some (p, _) => p
  | none => s.ahead

/-- How many characters are still to come. -/
def left (s : Scanner) : Nat := s.kept.toList.length + s.rest.length

theorem left_next {s : Scanner} {c : Char} (h : s.next.1 = some c) : s.next.2.left < s.left := by
  obtain ⟨kept, ahead, rest⟩ := s
  cases kept <;> cases rest <;> simp_all [next, nextWithPosition, look, left]

/-- Hands out all characters still to come. -/
def drain (s : Scanner) : List Char × Scanner :=
  match _h : s.next.1 with
  | none => ([], s.next.2)
  | some c => (c :: s.next.2.drain.1, s.next.2.drain.2)
termination_by s.left
decreasing_by all_goals exact left_next (by assumption)

end Scanner

end ScriptSyntax
