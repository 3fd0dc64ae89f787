/-
The gap before a token: blanks, line comments and block comments. A line comment runs up to the end
of its line, a block comment through the first closing `*/` behind its opening. A gap splits off
the front of its text; only a block comment that nothing closes takes the whole rest.
-/
import ScriptSyntax.Text.Blank

namespace ScriptSyntax

open Text

/-- A comment's text through its first `*/`, and what follows. -/
def closeComment : List Char → Option (List Char × List Char)
  | [] => none
  | '*' :: '/' :: cs => some (['*', '/'], cs)
  | c :: cs => (closeComment cs).map fun (body, rest) => (c :: body, rest)

theorem closeComment_append {cs body rest : List Char} (h : closeComment cs = some (body, rest)) :
    body ++ rest = cs := by
  fun_induction closeComment cs generalizing body with
  | case1 => cases h
  | case2 => cases h; rfl
  | case3 c cs _ ih =>
    obtain ⟨⟨body', rest'⟩, hc, he⟩ := Option.map_eq_some_iff.1 h
    cases he
    simp [ih hc]

inductive Gap where
  /-- A gap, and the rest of the text behind it. -/
  | closed (text rest : List Char)
  /-- A gap, and behind it a block comment that runs to the end of the text. -/
  | openComment (text comment : List Char)
deriving DecidableEq, Repr

namespace Gap

/-- The gap with more text before it. -/
def prepend (cs : List Char) : Gap → Gap
  | .closed text rest => .closed (cs ++ text) rest
  | .openComment text comment => .openComment (cs ++ text) comment

/-- The gap at the front of a text. -/
def ofText (cs : List Char) : Gap :=
  match cs with
  | [] => .closed [] []
  | '/' :: '/' :: cs =>
    (ofText (cs.dropWhile (· != '\n'))).prepend ('/' :: '/' :: cs.takeWhile (· != '\n'))
  | '/' :: '*' :: cs =>
    match _h : closeComment cs with
    | some (body, rest) => (ofText rest).prepend ('/' :: '*' :: body)
    | none => .openComment [] ('/' :: '*' :: cs)
  | c :: cs => if isBlank c then (ofText cs).prepend [c] else .closed [] (c :: cs)
termination_by cs.length
decreasing_by
  · have := (List.dropWhile_sublist (l := cs) (· != '\n')).length_le
    simp only [List.length_cons]; omega
  · have := congrArg List.length (closeComment_append ‹_›)
    simp only [List.length_append, List.length_cons] at this ⊢; omega
  · simp

/-- The text that a gap was split from. -/
def whole : Gap → List Char
  | .closed text rest => text ++ rest
  | .openComment text comment => text ++ comment

theorem whole_prepend (cs : List Char) (g : Gap) : (g.prepend cs).whole = cs ++ g.whole := by
  cases g <;> simp [prepend, whole]

theorem whole_ofText (cs : List Char) : (ofText cs).whole = cs := by
  fun_induction ofText cs with
  | case1 => rfl
  | case2 cs ih => simp [whole_prepend, ih, List.takeWhile_append_dropWhile]
  | case3 cs body rest h ih => simp [whole_prepend, ih, closeComment_append h]
  | case4 => rfl
  | case5 c cs _ _ _ ih => simp [whole_prepend, ih]
  | case6 => rfl

end Gap

end ScriptSyntax
