/-
Diagnostics: an error with its file, the line of the source it starts in with carets under the
span, and its hint. A span that ends in another row, or not behind its start, gets one caret.
-/
import ScriptSyntax.Error

namespace ScriptSyntax

/-- The lines of a text, without the newlines between them; there is always one. -/
def lines : List Char → List (List Char)
  | [] => [[]]
  | c :: cs =>
    if c = '\n' then [] :: lines cs
    else match lines cs with
      | [] => [[c]]
      | l :: ls => (c :: l) :: ls

/-- The line without the returns at its end. -/
def trimReturns (line : List Char) : List Char :=
  (line.reverse.dropWhile (· == '\r')).reverse

/-- The line of a row. Row one is the first line, row zero the last, and rows below count back from
there. -/
def lineAt? (ls : List (List Char)) (row : Int) : Option (List Char) :=
  let i := if 1 ≤ row then row - 1 else ls.length + (row - 1)
  if 0 ≤ i then ls[i.toNat]? else none

namespace Span

/-- How many blanks stand before the carets. -/
def indent (s : Span) : Int := s.start.col - 1

/-- How many carets stand under a span. -/
def caretCount (s : Span) : Int :=
  if s.stop.row = s.start.row ∧ s.start.col < s.stop.col then s.stop.col - s.start.col + 1 else 1

/-- The line in which a span starts and the carets under it, if the source has the line. -/
def snippet (s : Span) (source : String) : List String :=
  match lineAt? (lines source.toList) s.start.row with
  | some line =>
    [String.ofList (' ' :: ' ' :: trimReturns line),
      String.ofList (' ' :: ' ' :: List.replicate s.indent.toNat ' ' ++
        List.replicate s.caretCount.toNat '^')]
  | none => []

end Span

/-! ## Spans that cannot be shown

A span that is not found by reading the source may start before its first row, or be too far to the
right or too wide for the text under its line. -/

inductive SnippetFault where
  /-- The row lies before the first line. -/
  | rowBeforeSource
  /-- The row has no number in a machine word. -/
  | rowOutOfRange
  /-- A count of blanks or carets has no number in a machine word. -/
  | countOutOfRange
  /-- There is no room for so many blanks or carets. -/
  | noRoom
deriving DecidableEq, Repr

namespace SnippetFault

def message : SnippetFault → String
  | .rowBeforeSource => "list index out of range"
  | .rowOutOfRange | .countOutOfRange => "cannot fit 'int' into an index-sized integer"
  | .noRoom => ""

/-- Has the integer a number in a signed machine word? -/
def fitsWord (n : Int) : Bool := -Int.pow 2 63 ≤ n && n < Int.pow 2 63

/-- There is no room for so many characters. -/
def roomEnd : Int := Int.pow 2 40

/-- What is wrong with a count of characters, if anything is. -/
def ofCount? (n : Int) : Option SnippetFault :=
  if !fitsWord n then some .countOutOfRange else if roomEnd ≤ n then some .noRoom else none

/-- What is wrong with a row of a source, if anything is. -/
def ofRow? (ls : List (List Char)) (row : Int) : Option SnippetFault :=
  if !fitsWord (row - 1) then some .rowOutOfRange
  else if (lineAt? ls row).isNone then some .rowBeforeSource
  else none

end SnippetFault

/-- Why a span cannot be shown. Behind the last line there is nothing to show. -/
def Span.snippetFault? (s : Span) (source : String) : Option SnippetFault :=
  let ls := lines source.toList
  if (ls.length : Int) < s.start.row then none
  else SnippetFault.ofRow? ls s.start.row <|> SnippetFault.ofCount? s.indent <|>
    SnippetFault.ofCount? s.caretCount

namespace ScriptError

/-- The lines of a diagnostic; without a source, it has no snippet. -/
def diagnosticLines (e : ScriptError) (file : String) (source : Option String) : List String :=
  (e.location file ++ ": " ++ e.message) ::
    (source.toList.flatMap e.span.snippet ++ e.advice?.toList.map ("hint: " ++ ·))

def diagnostic (e : ScriptError) (file : String) (source : Option String) : String :=
  "\n".intercalate (e.diagnosticLines file source)

/-- The diagnostic of an error whose file an interner names. -/
def diagnosticIn (e : ScriptError) (names : Interner) (source : Option String) :
    Except Interner.UnknownSymbol String :=
  (names.resolve e.span.file).map fun file => e.diagnostic file source

/-- The diagnostic of an error with any span. -/
def diagnose (e : ScriptError) (file : String) (source : Option String) :
    Except SnippetFault String :=
  match source.bind e.span.snippetFault? with
  | some f => .error f
  | none => .ok (e.diagnostic file source)

end ScriptError

end ScriptSyntax
