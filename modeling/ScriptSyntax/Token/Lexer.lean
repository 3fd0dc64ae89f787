/-
Reading tokens from a place in a source. One step skips the gap, reads the lexeme behind it and
places both; a fault stops at the place from where reading can go on. The whole list of tokens ends
with the token for the end of the input.
-/
import ScriptSyntax.Token.Gap
import ScriptSyntax.Token.Lexeme
import ScriptSyntax.Token.List

namespace ScriptSyntax

/-- What comes next in a text: a gap, and behind it a lexeme, the end, or a fault. -/
inductive Scan where
  | token (gap : List Char) (meaning : Meaning) (lexeme rest : List Char)
  | eof (gap : List Char)
  | fault (gap : List Char) (f : LexFault)
deriving DecidableEq

def Scan.ofText (cs : List Char) : Scan :=
  match Gap.ofText cs with
  | .openComment gap comment => .fault gap ⟨.openComment, comment, [], []⟩
  | .closed gap [] => .eof gap
  | .closed gap (c :: cs) =>
    match Lexeme.ofText c cs with
    | .token meaning lexeme rest => .token gap meaning lexeme rest
    | .fault f => .fault gap f

/-- The text that was read. -/
def Scan.whole : Scan → List Char
  | .token gap _ lexeme rest => gap ++ lexeme ++ rest
  | .eof gap => gap
  | .fault gap f => gap ++ f.whole

theorem Scan.whole_ofText (cs : List Char) : (Scan.ofText cs).whole = cs := by
  have hg := Gap.whole_ofText cs
  unfold Scan.ofText
  split <;> rename_i h <;> rw [h] at hg
  · simpa [whole, LexFault.whole, Gap.whole] using hg
  · simpa [whole, Gap.whole] using hg
  · rename_i c cs'
    have hl := Lexeme.whole_ofText c cs'
    split <;> rename_i h' <;> rw [h'] at hl
    · rw [← hg]; simpa [whole, Gap.whole, Lexeme.whole] using hl
    · rw [← hg]; simpa [whole, Gap.whole, Lexeme.whole] using hl

theorem Scan.length_rest_lt {cs gap lexeme rest : List Char} {m : Meaning}
    (h : Scan.ofText cs = .token gap m lexeme rest) : rest.length < cs.length := by
  have hg := Gap.whole_ofText cs
  unfold Scan.ofText at h
  split at h
  · cases h
  · cases h
  · rename_i gap' c cs' hc
    rw [hc] at hg
    split at h
    · rename_i hl
      cases h
      have := Lexeme.length_rest_lt hl
      have hg' := congrArg List.length hg
      simp only [Gap.whole, List.length_append] at hg'
      omega
    · cases h

/-- Why no token could be read, and where. -/
structure LexError where
  cause : LexCause
  /-- Where the lexeme or comment at fault begins. -/
  opened : Position
  span : Span
deriving DecidableEq

/-- A fault behind position `p`. -/
def LexFault.error (f : LexFault) (p : Position) : LexError :=
  ⟨f.cause, p, .ofText (p.advanceBy f.before) f.marked⟩

/-- A place in a source. -/
structure Cursor where
  position : Position
  /-- The text behind the place. -/
  rest : List Char
deriving DecidableEq

namespace Cursor

def ofText (file : Symbol) (src : String) : Cursor := ⟨.startOf file, src.toList⟩

/-- The next token or fault, and the place where reading goes on. -/
def next (k : Cursor) : Except LexError Token × Cursor :=
  match Scan.ofText k.rest with
  | .token gap meaning lexeme rest =>
    let p := k.position.advanceBy gap
    (.ok ⟨meaning, String.ofList lexeme, .ofText p lexeme⟩, ⟨p.advanceBy lexeme, rest⟩)
  | .eof gap =>
    let p := k.position.advanceBy gap
    (.ok (.eof p), ⟨p, []⟩)
  | .fault gap f =>
    let p := k.position.advanceBy gap
    (.error (f.error p), ⟨p.advanceBy f.consumed, f.resume⟩)

/-- All tokens from a place on. -/
def tokens (k : Cursor) : Except LexError TokenList :=
  match _h : Scan.ofText k.rest with
  | .token gap meaning lexeme rest =>
    let p := k.position.advanceBy gap
    (TokenList.cons ⟨meaning, String.ofList lexeme, .ofText p lexeme⟩) <$>
      tokens ⟨p.advanceBy lexeme, rest⟩
  | .eof gap => .ok ⟨[], .eof (k.position.advanceBy gap), rfl⟩
  | .fault gap f => .error (f.error (k.position.advanceBy gap))
termination_by k.rest.length
decreasing_by exact Scan.length_rest_lt ‹_›

end Cursor

def tokenize (file : Symbol) (src : String) : Except LexError TokenList :=
  (Cursor.ofText file src).tokens

end ScriptSyntax
