/-
The punctuation marks of scripts: parentheses and operators. Every mark that is longer than one
character begins with a shorter mark, so the longest mark at a place is found by adding one
character at a time for as long as the text stays a mark.
-/

namespace ScriptSyntax

inductive Mark where
  | openParen | closeParen | plus | minus | star | slash | amp | pipe | caret | ampAmp | pipePipe
  | shl | shr | bang | eq | plusEq | minusEq | starEq | slashEq | ampEq | pipeEq | caretEq | shlEq
  | shrEq | eqEq | bangEq | lt | gt | ltEq | gtEq
deriving DecidableEq, Repr

namespace Mark

def chars : Mark → List Char
  | .openParen => ['(']
  | .closeParen => [')']
  | .plus => ['+']
  | .minus => ['-']
  | .star => ['*']
  | .slash => ['/']
  | .amp => ['&']
  | .pipe => ['|']
  | .caret => ['^']
  | .ampAmp => ['&', '&']
  | .pipePipe => ['|', '|']
  | .shl => ['<', '<']
  | .shr => ['>', '>']
  | .bang => ['!']
  | .eq => ['=']
  | .plusEq => ['+', '=']
  | .minusEq => ['-', '=']
  | .starEq => ['*', '=']
  | .slashEq => ['/', '=']
  | .ampEq => ['&', '=']
  | .pipeEq => ['|', '=']
  | .caretEq => ['^', '=']
  | .shlEq => ['<', '<', '=']
  | .shrEq => ['>', '>', '=']
  | .eqEq => ['=', '=']
  | .bangEq => ['!', '=']
  | .lt => ['<']
  | .gt => ['>']
  | .ltEq => ['<', '=']
  | .gtEq => ['>', '=']

/-- The name that listings show. -/
def name : Mark → String
  | .openParen => "LPAREN"
  | .closeParen => "RPAREN"
  | .plus => "PLUS"
  | .minus => "MINUS"
  | .star => "STAR"
  | .slash => "SLASH"
  | .amp => "AMP"
  | .pipe => "PIPE"
  | .caret => "CARET"
  | .ampAmp => "AMP_AMP"
  | .pipePipe => "PIPE_PIPE"
  | .shl => "SHL"
  | .shr => "SHR"
  | .bang => "BANG"
  | .eq => "EQ"
  | .plusEq => "PLUS_EQ"
  | .minusEq => "MINUS_EQ"
  | .starEq => "STAR_EQ"
  | .slashEq => "SLASH_EQ"
  | .ampEq => "AMP_EQ"
  | .pipeEq => "PIPE_EQ"
  | .caretEq => "CARET_EQ"
  | .shlEq => "SHL_EQ"
  | .shrEq => "SHR_EQ"
  | .eqEq => "EQ_EQ"
  | .bangEq => "BANG_EQ"
  | .lt => "LT"
  | .gt => "GT"
  | .ltEq => "LT_EQ"
  | .gtEq => "GT_EQ"

/-- All marks, in the order of the tables. -/
def all : List Mark := [
  .openParen, .closeParen, .plus, .minus, .star, .slash, .amp, .pipe, .caret, .ampAmp, .pipePipe,
  .shl, .shr, .bang, .eq, .plusEq, .minusEq, .starEq, .slashEq, .ampEq, .pipeEq, .caretEq,
  .shlEq, .shrEq, .eqEq, .bangEq, .lt, .gt, .ltEq, .gtEq]

theorem mem_all (m : Mark) : m ∈ all := by cases m <;> decide

def text (m : Mark) : String := String.ofList m.chars

/-- The mark that a text spells. -/
def ofChars? (cs : List Char) : Option Mark := all.find? (·.chars == cs)

theorem ofChars?_chars (m : Mark) : ofChars? m.chars = some m := by cases m <;> decide

theorem chars_of_ofChars? {cs : List Char} {m : Mark} (h : ofChars? cs = some m) : m.chars = cs := by
  simpa using List.find?_some h

theorem chars_ne_nil (m : Mark) : m.chars ≠ [] := by cases m <;> decide

/-- The mark that one more character makes of a mark. -/
def extend? (m : Mark) (c : Char) : Option Mark := ofChars? (m.chars ++ [c])

/-- Does a character make a mark of the text before it? -/
def completes (text : List Char) (c : Char) : Bool := (ofChars? (text ++ [c])).isSome

/-- The longest mark that begins with `m` and goes on into the text, and the rest of the text. -/
def longest (m : Mark) : List Char → Mark × List Char
  | [] => (m, [])
  | c :: cs =>
    match m.extend? c with
    | some n => longest n cs
    | none => (m, c :: cs)

theorem chars_longest (m : Mark) (cs : List Char) :
    (m.longest cs).1.chars ++ (m.longest cs).2 = m.chars ++ cs := by
  induction cs generalizing m with
  | nil => rfl
  | cons c cs ih =>
    unfold longest
    split
    · rename_i n hn
      rw [ih n, chars_of_ofChars? hn, List.append_assoc, List.singleton_append]
    · rfl

end Mark

end ScriptSyntax
