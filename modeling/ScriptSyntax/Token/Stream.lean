/-
Reading tokens from a scanner. Characters are taken one at a time, and one is looked at to see
whether it still belongs to what was taken before it. The spans of tokens and errors are made of the
positions that the scanner hands out with its characters.
-/
import ScriptSyntax.Source.Scanner
import ScriptSyntax.Token.Lexer

namespace ScriptSyntax.Scanner

open Text

theorem left_look (s : Scanner) : s.look.left = s.left := by
  obtain ⟨kept, ahead, rest⟩ := s
  cases kept <;> cases rest <;> simp [look, left, Nat.add_comm]

theorem look_of_kept {s : Scanner} {x : Position × Char} (h : s.kept = some x) : s.look = s := by
  rw [look, h]

theorem left_nextWithPosition_lt {s : Scanner} {x : Position × Char}
    (h : s.nextWithPosition.1 = some x) : s.nextWithPosition.2.left < s.left := by
  refine left_next (c := x.2) ?_
  rw [next, h]
  rfl

theorem left_nextWithPosition_le (s : Scanner) : s.nextWithPosition.2.left ≤ s.left := by
  rw [← left_look s]
  exact Nat.add_le_add_right (Nat.zero_le _) _

/-! ## Runs of characters -/

/-- Characters that were taken one after the other. -/
structure Taken where
  text : List Char
  /-- The position of the last of them. -/
  stop : Position
  scanner : Scanner

/-- Takes the characters that may follow what was taken before them. -/
def takeOn (follows : List Char → Char → Bool) (text : List Char) (stop : Position) (s : Scanner) :
    Taken :=
  match _h : s.peekWithPosition.1 with
  | none => ⟨text, stop, s.peekWithPosition.2⟩
  | some (p, c) =>
    if follows text c then s.peekWithPosition.2.nextWithPosition.2.takeOn follows (text ++ [c]) p
    else ⟨text, stop, s.peekWithPosition.2⟩
termination_by s.left
decreasing_by
  rw [← left_look s]
  refine left_nextWithPosition_lt (x := (p, c)) ?_
  show s.look.look.kept = _
  rw [look_of_kept _h]
  exact _h

theorem left_takeOn_le (follows : List Char → Char → Bool) (text : List Char) (stop : Position)
    (s : Scanner) : (s.takeOn follows text stop).scanner.left ≤ s.left := by
  fun_induction takeOn follows text stop s with
  | case1 | case3 => exact Nat.le_of_eq (left_look _)
  | case2 text stop s _ _ _ _ ih =>
    calc _ ≤ s.look.nextWithPosition.2.left := ih
      _ ≤ s.look.left := left_nextWithPosition_le _
      _ = s.left := left_look s

/-- Takes the characters that satisfy `p`. -/
def skipWhile (p : Char → Bool) (s : Scanner) : Scanner :=
  (s.takeOn (fun _ => p) [] s.lastPosition).scanner

theorem left_next_skipWhile_lt {p : Char → Bool} {s : Scanner} {x : Position × Char}
    (h : (s.skipWhile p).nextWithPosition.1 = some x) :
    (s.skipWhile p).nextWithPosition.2.left < s.left :=
  Nat.lt_of_lt_of_le (left_nextWithPosition_lt h) (left_takeOn_le ..)

/-! ## Gaps -/

/-- Takes a block comment through its end, if it has one. The character before may be a star. -/
def closeComment (star : Bool) (s : Scanner) : Bool × Scanner :=
  match _h : s.next.1 with
  | none => (false, s.next.2)
  | some c => if star && c == '/' then (true, s.next.2) else s.next.2.closeComment (c == '*')
termination_by s.left
decreasing_by exact left_next _h

theorem left_closeComment_le (star : Bool) (s : Scanner) : (s.closeComment star).2.left ≤ s.left := by
  fun_induction closeComment star s with
  | case1 | case2 => exact left_nextWithPosition_le _
  | case3 _ _ _ _ _ ih => exact Nat.le_trans ih (left_nextWithPosition_le _)

/-- Takes a comment, which began with a slash at `start`. Another slash makes it a line comment. -/
def skipComment (start : Position) (s : Scanner) : Except LexError Unit × Scanner :=
  if s.next.1 = some '/' then (.ok (), s.next.2.skipWhile (· != '\n'))
  else
    let (closed, t) := s.next.2.closeComment false
    (if closed then .ok () else .error ⟨.openComment, start, .point t.lastPosition⟩, t)

theorem left_skipComment_le (start : Position) (s : Scanner) :
    (s.skipComment start).2.left ≤ s.left := by
  unfold skipComment
  split
  · exact Nat.le_trans (left_takeOn_le ..) (left_nextWithPosition_le s)
  · exact Nat.le_trans (left_closeComment_le ..) (left_nextWithPosition_le s)

theorem left_comment_lt {p : Char → Bool} {s : Scanner} {x : Position × Char}
    (h : (s.skipWhile p).nextWithPosition.1 = some x) (start : Position) :
    ((s.skipWhile p).nextWithPosition.2.look.skipComment start).2.left < s.left := by
  refine Nat.lt_of_le_of_lt (left_skipComment_le ..) ?_
  rw [left_look]
  exact left_next_skipWhile_lt h

/-- Takes a gap and the first character of the lexeme behind it. -/
def lexemeStart (s : Scanner) : Except LexError (Option (Position × Char)) × Scanner :=
  let t := s.skipWhile isBlank
  match _h : t.nextWithPosition.1 with
  | none => (.ok none, t.nextWithPosition.2)
  | some (start, c) =>
    let u := t.nextWithPosition.2
    if c = '/' then
      if u.peek.1 = some '/' ∨ u.peek.1 = some '*' then
        match (u.peek.2.skipComment start).1 with
        | .ok () => (u.peek.2.skipComment start).2.lexemeStart
        | .error e => (.error e, (u.peek.2.skipComment start).2)
      else (.ok (some (start, c)), u.peek.2)
    else (.ok (some (start, c)), u)
termination_by s.left
decreasing_by exact left_comment_lt _h start

/-! ## Lexemes -/

/-- The literal that was taken from `start` on; no value means that it is out of range. -/
def Taken.literal (start : Position) (t : Taken) : Option Literal → Except LexError Token
  | some v => .ok ⟨.literal v, String.ofList t.text, ⟨start, t.stop⟩⟩
  | none => .error ⟨.numberOutOfRange, start, ⟨start, t.stop⟩⟩

/-- The number that was taken from `start` on, unless a character of a name follows it. -/
def Taken.number (start : Position) (value : Option Literal) (t : Taken) :
    Except LexError Token × Scanner :=
  (match t.scanner.peekWithPosition.1.filter (isNamePart ·.2) with
    | some (p, c) => .error ⟨.charAfterNumber c, start, .point p⟩
    | none => t.literal start value, t.scanner.peekWithPosition.2)

def number (start : Position) (first : Char) (s : Scanner) : Except LexError Token × Scanner :=
  let whole := s.takeOn (fun _ => isDigit) [first] start
  let t := whole.scanner.peekWithPosition.2
  match whole.scanner.peekWithPosition.1.filter (·.2 == '.') with
  | some (point, _) =>
    let all := t.nextWithPosition.2.takeOn (fun _ => isDigit) (whole.text ++ ['.']) point
    all.number start (Lexeme.floatValue? whole.text (all.text.drop (whole.text.length + 1)))
  | none => Taken.number start (Lexeme.intValue? whole.text) { whole with scanner := t }

/-- A string literal of which `lexeme` was taken and stands for `value`. -/
def string (start : Position) (lexeme value : List Char) (s : Scanner) :
    Except LexError Token × Scanner :=
  match _h : s.nextWithPosition.1 with
  | none =>
    let t := s.nextWithPosition.2
    (.error ⟨.openString false, start, .point t.lastPosition⟩, t)
  | some (p, c) =>
    let t := s.nextWithPosition.2
    if c = '\n' then (.error ⟨.openString true, start, .point p⟩, t)
    else if c = '"' then
      (.ok ⟨.literal (.string (String.ofList value)), String.ofList (lexeme ++ [c]), ⟨start, p⟩⟩, t)
    else if c = '\\' then
      match t.nextWithPosition.1 with
      | none =>
        let u := t.nextWithPosition.2
        (.error ⟨.openEscape, start, .point u.lastPosition⟩, u)
      | some (q, e) =>
        match unescape? e with
        | none => (.error ⟨.unknownEscape e, start, ⟨p, q⟩⟩, t.nextWithPosition.2)
        | some d => t.nextWithPosition.2.string start (lexeme ++ [c, e]) (value ++ [d])
    else t.string start (lexeme ++ [c]) (value ++ [c])
termination_by s.left
decreasing_by
  · exact Nat.lt_of_le_of_lt (left_nextWithPosition_le _) (left_nextWithPosition_lt _h)
  · exact left_nextWithPosition_lt _h

def word (start : Position) (first : Char) (s : Scanner) : Except LexError Token × Scanner :=
  let t := s.takeOn (fun _ => isNamePart) [first] start
  (.ok ⟨Lexeme.wordMeaning t.text, String.ofList t.text, ⟨start, t.stop⟩⟩, t.scanner)

def mark (start : Position) (first : Char) (s : Scanner) : Except LexError Token × Scanner :=
  let t := s.takeOn Mark.completes [first] start
  (match Mark.ofChars? t.text with
    | some m => .ok ⟨.mark m, String.ofList t.text, ⟨start, t.stop⟩⟩
    | none => .error ⟨.unexpectedChar first, start, .point start⟩, t.scanner)

/-- The lexeme of which the first character was taken. -/
def lexeme (start : Position) (first : Char) (s : Scanner) : Except LexError Token × Scanner :=
  if isDigit first then s.number start first
  else if first = '"' then s.string start [first] []
  else if isNameStart first then s.word start first
  else s.mark start first

/-- The next token or error. -/
def nextToken (s : Scanner) : Except LexError Token × Scanner :=
  match s.lexemeStart with
  | (.error e, t) => (.error e, t)
  | (.ok none, t) => (.ok (.eof t.lastPosition), t)
  | (.ok (some (start, first)), t) => t.lexeme start first

/-! ## All tokens -/

theorem left_number_le (start : Position) (first : Char) (s : Scanner) :
    (s.number start first).2.left ≤ s.left := by
  have hwhole := left_takeOn_le (fun _ => isDigit) [first] start s
  simp only [number]
  generalize s.takeOn (fun _ => isDigit) [first] start = whole at hwhole
  have hnumber : ∀ (value : Option Literal) (t : Taken),
      (t.number start value).2.left = t.scanner.left := fun _ t => left_look t.scanner
  have hlook := left_look whole.scanner
  split <;> rw [hnumber]
  · calc _ ≤ whole.scanner.look.nextWithPosition.2.left := left_takeOn_le ..
      _ ≤ whole.scanner.look.left := left_nextWithPosition_le _
      _ ≤ s.left := hlook ▸ hwhole
  · exact hlook ▸ hwhole

theorem left_string_le (start : Position) (lexeme value : List Char) (s : Scanner) :
    (s.string start lexeme value).2.left ≤ s.left := by
  fun_induction string start lexeme value s with
  | case1 | case2 | case3 => exact left_nextWithPosition_le _
  | case4 | case5 => exact Nat.le_trans (left_nextWithPosition_le _) (left_nextWithPosition_le _)
  | case6 _ _ _ _ _ _ _ _ _ _ _ _ _ ih =>
    exact Nat.le_trans ih (Nat.le_trans (left_nextWithPosition_le _) (left_nextWithPosition_le _))
  | case7 _ _ _ _ _ _ _ _ _ _ ih => exact Nat.le_trans ih (left_nextWithPosition_le _)

theorem left_lexeme_le (start : Position) (first : Char) (s : Scanner) :
    (s.lexeme start first).2.left ≤ s.left := by
  unfold lexeme
  split
  · exact left_number_le ..
  split
  · exact left_string_le ..
  split <;> exact left_takeOn_le ..

theorem left_lexemeStart_lt {s t : Scanner} {x : Position × Char}
    (h : s.lexemeStart = (.ok (some x), t)) : t.left < s.left := by
  fun_induction lexemeStart s with
  | case1 | case3 => cases h
  | case2 s _ start _ _ _ hnext ih => exact Nat.lt_trans (ih h) (left_comment_lt hnext start)
  | case4 _ _ _ _ _ hnext =>
    rw [← (Prod.mk.inj h).2, peek, left_look]
    exact left_next_skipWhile_lt hnext
  | case5 _ _ _ _ hnext =>
    rw [← (Prod.mk.inj h).2]
    exact left_next_skipWhile_lt hnext

/-- A token that is not the end takes at least one character. -/
theorem left_nextToken_lt {s t : Scanner} {token : Token} (h : s.nextToken = (.ok token, t))
    (htoken : token.kind ≠ .eof) : t.left < s.left := by
  unfold nextToken at h
  split at h
  · cases h
  · cases h
    exact absurd rfl htoken
  · rename_i start first u hstart
    have := left_lexeme_le start first u
    rw [h] at this
    exact Nat.lt_of_le_of_lt this (left_lexemeStart_lt hstart)

/-- All tokens up to the end. -/
def tokens (s : Scanner) : Except LexError TokenList :=
  match _h : s.nextToken with
  | (.error e, _) => .error e
  | (.ok token, t) =>
    if hlast : token.kind = .eof then .ok ⟨[], token, hlast⟩
    else TokenList.cons token <$> t.tokens
termination_by s.left
decreasing_by exact left_nextToken_lt _h hlast

end ScriptSyntax.Scanner
