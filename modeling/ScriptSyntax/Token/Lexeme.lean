/-
The lexeme at the front of a text that is not empty and begins with no gap. A number, a name and
a mark are each taken as long as possible, a string through its closing quote. Where no lexeme
stands, a fault says why: it splits the text into what was read, the characters to point at and
what follows them.
-/
import ScriptSyntax.Text.Letter
import ScriptSyntax.Text.Numeric
import ScriptSyntax.Token.Basic
import ScriptSyntax.Token.Escape

namespace ScriptSyntax

open Text

def isNameStart (c : Char) : Bool := c == '_' || isLetter c

def isNamePart (c : Char) : Bool := c == '_' || isLetter c || isNumeric c

/-- An integer literal may have so many digits and no more. -/
def maxIntDigits : Nat := 4300

/-- Why no token can be read. -/
inductive LexCause where
  | unexpectedChar (c : Char)
  | charAfterNumber (c : Char)
  | numberOutOfRange
  | unknownEscape (letter : Char)
  | openString (atLineEnd : Bool)
  | openEscape
  | openComment
deriving DecidableEq, Repr

structure LexFault where
  cause : LexCause
  /-- What was read up to the characters to point at. -/
  before : List Char
  marked : List Char
  after : List Char
deriving DecidableEq, Repr

namespace LexFault

def whole (f : LexFault) : List Char := f.before ++ f.marked ++ f.after

/-- What was read when the fault showed: a character that may not follow a number is only looked
at. -/
def consumed (f : LexFault) : List Char :=
  match f.cause with
  | .charAfterNumber _ => f.before
  | _ => f.before ++ f.marked

/-- The text from which reading goes on. -/
def resume (f : LexFault) : List Char :=
  match f.cause with
  | .charAfterNumber _ => f.marked ++ f.after
  | _ => f.after

theorem consumed_append_resume (f : LexFault) : f.consumed ++ f.resume = f.whole := by
  unfold consumed resume whole
  split <;> simp

end LexFault

/-- What the front of a text reads as. -/
inductive Lexeme where
  | token (meaning : Meaning) (lexeme rest : List Char)
  | fault (f : LexFault)
deriving DecidableEq

namespace Lexeme

/-- A number whose lexeme has been split off; no value means that it is out of range. -/
def ofValue (lexeme : List Char) (value : Option Literal) (rest : List Char) : Lexeme :=
  match value with
  | some v => .token (.literal v) lexeme rest
  | none => .fault ⟨.numberOutOfRange, [], lexeme, rest⟩

/-- A number runs into no character of a name, nor into another digit. -/
def ofNumberParts (lexeme : List Char) (value : Option Literal) : List Char → Lexeme
  | [] => ofValue lexeme value []
  | c :: cs =>
    if isNamePart c then .fault ⟨.charAfterNumber c, lexeme, [c], cs⟩
    else ofValue lexeme value (c :: cs)

/-- The value of an integer literal with these digits. -/
def intValue? (digits : List Char) : Option Literal :=
  if digits.length ≤ maxIntDigits then some (.int (natOfDigits digits)) else none

/-- The value of a float literal with these digits before and behind its point. -/
def floatValue? (whole fraction : List Char) : Option Literal :=
  let x := Binary64.ofDecimal (.ofParts whole fraction)
  if x.isInfinite then none else some (.float x)

def ofNumber (cs : List Char) : Lexeme :=
  let whole := cs.takeWhile isDigit
  match cs.dropWhile isDigit with
  | '.' :: rest =>
    let fraction := rest.takeWhile isDigit
    ofNumberParts (whole ++ '.' :: fraction) (floatValue? whole fraction) (rest.dropWhile isDigit)
  | rest => ofNumberParts whole (intValue? whole) rest

/-- A string literal behind its opening quote. -/
inductive Body where
  /-- The characters through the closing quote, the text they mean, and the rest. -/
  | closed (raw value rest : List Char)
  | fault (f : LexFault)

def Body.prepend (raw value : List Char) : Body → Body
  | .closed raw' value' rest => .closed (raw ++ raw') (value ++ value') rest
  | .fault f => .fault { f with before := raw ++ f.before }

def Body.ofText : List Char → Body
  | [] => .fault ⟨.openString false, [], [], []⟩
  | '\n' :: cs => .fault ⟨.openString true, [], ['\n'], cs⟩
  | '"' :: cs => .closed ['"'] [] cs
  | ['\\'] => .fault ⟨.openEscape, ['\\'], [], []⟩
  | '\\' :: e :: cs =>
    match unescape? e with
    | some c => (Body.ofText cs).prepend ['\\', e] [c]
    | none => .fault ⟨.unknownEscape e, [], ['\\', e], cs⟩
  | c :: cs => (Body.ofText cs).prepend [c] [c]

/-- A string literal; its opening quote stands before the text. -/
def ofString (cs : List Char) : Lexeme :=
  match (Body.ofText cs).prepend ['"'] [] with
  | .closed raw value rest => .token (.literal (.string (String.ofList value))) raw rest
  | .fault f => .fault f

/-- What a word means: the two truth values are no names. -/
def wordMeaning (cs : List Char) : Meaning :=
  if cs = ['t', 'r', 'u', 'e'] then .literal (.bool true)
  else if cs = ['f', 'a', 'l', 's', 'e'] then .literal (.bool false)
  else .name

def ofWord (cs : List Char) : Lexeme :=
  .token (wordMeaning (cs.takeWhile isNamePart)) (cs.takeWhile isNamePart) (cs.dropWhile isNamePart)

def ofMark (c : Char) (cs : List Char) : Lexeme :=
  match Mark.ofChars? [c] with
  | some m => .token (.mark (m.longest cs).1) (m.longest cs).1.chars (m.longest cs).2
  | none => .fault ⟨.unexpectedChar c, [], [c], cs⟩

/-- The lexeme at the front of `c :: cs`. -/
def ofText (c : Char) (cs : List Char) : Lexeme :=
  if isDigit c then ofNumber (c :: cs)
  else if c = '"' then ofString cs
  else if isNameStart c then ofWord (c :: cs)
  else ofMark c cs

/-- The text that a lexeme or fault was split from. -/
def whole : Lexeme → List Char
  | .token _ lexeme rest => lexeme ++ rest
  | .fault f => f.whole

theorem whole_ofValue (lexeme : List Char) (value : Option Literal) (rest : List Char) :
    (ofValue lexeme value rest).whole = lexeme ++ rest := by
  cases value <;> simp [ofValue, whole, LexFault.whole]

theorem whole_ofNumberParts (lexeme : List Char) (value : Option Literal) (rest : List Char) :
    (ofNumberParts lexeme value rest).whole = lexeme ++ rest := by
  cases rest with
  | nil => exact whole_ofValue ..
  | cons c cs =>
    rw [ofNumberParts]
    split
    · simp [whole, LexFault.whole]
    · exact whole_ofValue ..

theorem whole_ofNumber (cs : List Char) : (ofNumber cs).whole = cs := by
  unfold ofNumber
  split
  · rename_i rest h
    rw [whole_ofNumberParts, List.append_assoc, List.cons_append, List.takeWhile_append_dropWhile,
      ← h, List.takeWhile_append_dropWhile]
  · rw [whole_ofNumberParts, List.takeWhile_append_dropWhile]

/-- The text of a body. -/
def Body.whole : Body → List Char
  | .closed raw _ rest => raw ++ rest
  | .fault f => f.whole

theorem Body.whole_prepend (raw value : List Char) (b : Body) :
    (b.prepend raw value).whole = raw ++ b.whole := by
  cases b <;> simp [prepend, whole, LexFault.whole]

theorem Body.whole_ofText (cs : List Char) : (Body.ofText cs).whole = cs := by
  fun_induction Body.ofText cs with
  | case1 | case2 | case3 | case4 | case6 => rfl
  | case5 e cs c _ ih => rw [Body.whole_prepend, ih]; rfl
  | case7 c cs _ _ _ _ ih => rw [Body.whole_prepend, ih]; rfl

theorem whole_ofString (cs : List Char) : (ofString cs).whole = '"' :: cs := by
  have h : ((Body.ofText cs).prepend ['"'] []).whole = '"' :: cs := by
    rw [Body.whole_prepend, Body.whole_ofText]; rfl
  unfold ofString
  split <;> (rename_i hb; rw [hb] at h; exact h)

theorem whole_ofWord (cs : List Char) : (ofWord cs).whole = cs := by
  simp [ofWord, whole, List.takeWhile_append_dropWhile]

theorem whole_ofMark (c : Char) (cs : List Char) : (ofMark c cs).whole = c :: cs := by
  unfold ofMark
  split
  · rename_i m hm
    simp [whole, Mark.chars_longest, Mark.chars_of_ofChars? hm]
  · simp [whole, LexFault.whole]

theorem whole_ofText (c : Char) (cs : List Char) : (ofText c cs).whole = c :: cs := by
  unfold ofText
  split
  · exact whole_ofNumber _
  split
  · rename_i h; rw [h]; exact whole_ofString cs
  split
  · exact whole_ofWord _
  · exact whole_ofMark c cs

theorem eq_of_ofNumberParts {lexeme rest : List Char} {value : Option Literal} {m : Meaning}
    {lexeme' rest' : List Char} (h : ofNumberParts lexeme value rest = .token m lexeme' rest') :
    lexeme' = lexeme ∧ rest' = rest ∧ ∃ v, value = some v ∧ m = .literal v := by
  have key : ∀ rest, ofValue lexeme value rest = .token m lexeme' rest' →
      lexeme' = lexeme ∧ rest' = rest ∧ ∃ v, value = some v ∧ m = .literal v := by
    intro rest h
    cases value with
    | none => cases h
    | some v => cases h; exact ⟨rfl, rfl, v, rfl, rfl⟩
  cases rest with
  | nil => exact key _ h
  | cons c cs =>
    rw [ofNumberParts] at h
    split at h
    · cases h
    · exact key _ h

/-- A lexeme has at least one character. -/
theorem lexeme_ne_nil {c : Char} {cs : List Char} {m : Meaning} {lexeme rest : List Char}
    (h : ofText c cs = .token m lexeme rest) : lexeme ≠ [] := by
  unfold ofText at h
  split at h
  · rename_i hd
    have hw : (c :: cs).takeWhile isDigit ≠ [] := by simp [hd]
    unfold ofNumber at h
    split at h
    · rw [(eq_of_ofNumberParts h).1]; simp
    · rw [(eq_of_ofNumberParts h).1]; exact hw
  split at h
  · unfold ofString at h
    cases hb : Body.ofText cs <;> rw [hb] at h <;> cases h
    simp
  split at h
  · rename_i hs
    have hp : isNamePart c = true := by
      simp only [isNameStart, isNamePart, Bool.or_eq_true] at hs ⊢; exact .inl hs
    unfold ofWord at h
    cases h
    simp [hp]
  · unfold ofMark at h
    split at h <;> cases h
    exact Mark.chars_ne_nil _

theorem length_rest_lt {c : Char} {cs : List Char} {m : Meaning} {lexeme rest : List Char}
    (h : ofText c cs = .token m lexeme rest) : rest.length < (c :: cs).length := by
  have hw := congrArg List.length (whole_ofText c cs)
  have := List.length_pos_iff.2 (lexeme_ne_nil h)
  rw [h, whole, List.length_append] at hw
  omega

end Lexeme

end ScriptSyntax
