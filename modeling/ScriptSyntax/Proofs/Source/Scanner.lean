/-
Scanners as cursors. A scanner that looks ahead answers as a plain cursor, which knows the text and
how many of its characters have been handed out (`Scanner.run_cursor`). The position the scanner
keeps is that of the cursor, or runs one character ahead of it exactly when a character is kept
(`Scanner.Tracks`); every call keeps it so, whatever was called before (`Scanner.Tracks.step`).
-/
import ScriptSyntax.Proofs.Run
import ScriptSyntax.Proofs.Source.Order
import ScriptSyntax.Source.Scanner

namespace ScriptSyntax.Scanner

/-- What a scanner is called for. -/
inductive Call where
  | peek
  | peekWithPosition
  | next
  | nextWithPosition
  | lastPosition
  /-- Hands out all characters that are left. -/
  | drain
deriving DecidableEq

inductive Answer where
  | char (c : Option Char)
  | placed (x : Option (Position × Char))
  | position (p : Position)
  | chars (cs : List Char)
deriving DecidableEq

def step (s : Scanner) : Call → Answer × Scanner
  | .peek => (.char s.peek.1, s.peek.2)
  | .peekWithPosition => (.placed s.peekWithPosition.1, s.peekWithPosition.2)
  | .next => (.char s.next.1, s.next.2)
  | .nextWithPosition => (.placed s.nextWithPosition.1, s.nextWithPosition.2)
  | .lastPosition => (.position s.lastPosition, s)
  | .drain => (.chars s.drain.1, s.drain.2)

/-- The characters that an answer hands out; those looked at stay. -/
def Call.taken : Call → Answer → List Char
  | .next, .char c => c.toList
  | .nextWithPosition, .placed x => x.toList.map (·.2)
  | .drain, .chars cs => cs
  | _, _ => []

def handedOut (calls : List Call) (answers : List Answer) : List Char :=
  (List.zipWith Call.taken calls answers).flatten

/-- The answer to a call when the text is used up. -/
def Call.atEnd (p : Position) : Call → Answer
  | .peek | .next => .char none
  | .peekWithPosition | .nextWithPosition => .placed none
  | .lastPosition => .position p
  | .drain => .chars []

/-! ## The plain cursor -/

section Cursor

variable (file : Symbol) (text : List Char)

/-- The position behind the first `i` characters. -/
def positionAt (i : Nat) : Position := (Position.startOf file).advanceBy (text.take i)

def placedAt? (i : Nat) : Option (Position × Char) := text[i]?.map (positionAt file text i, ·)

/-- The answer of the cursor behind the first `i` characters, and how many are behind it then. -/
def cursorStep (i : Nat) : Call → Answer × Nat
  | .peek => (.char text[i]?, i)
  | .peekWithPosition => (.placed (placedAt? file text i), i)
  | .next => (.char text[i]?, min (i + 1) text.length)
  | .nextWithPosition => (.placed (placedAt? file text i), min (i + 1) text.length)
  | .lastPosition => (.position (positionAt file text i), i)
  | .drain => (.chars (text.drop i), text.length)

/-- A scanner at the place of the cursor, with the character there kept or not. -/
inductive Tracks (i : Nat) : Scanner → Prop
  | bare : i ≤ text.length → Tracks i ⟨none, positionAt file text i, text.drop i⟩
  | ahead {c : Char} : text[i]? = some c →
      Tracks i ⟨some (positionAt file text i, c), positionAt file text (i + 1), text.drop (i + 1)⟩

end Cursor

variable {file : Symbol} {text : List Char} {i : Nat} {s : Scanner}

theorem positionAt_succ {c : Char} (h : text[i]? = some c) :
    positionAt file text (i + 1) = (positionAt file text i).advance c := by
  rw [positionAt, List.take_add_one, h, Position.advanceBy_append]
  rfl

theorem offset_positionAt (h : i ≤ text.length) : (positionAt file text i).offset = i :=
  (Position.offset_take h _).trans (Int.zero_add _)

/-! ## One call -/

namespace Tracks

theorem index_le (h : Tracks file text i s) : i ≤ text.length := by
  cases h with
  | bare hi => exact hi
  | ahead hc => exact Nat.le_of_lt (List.getElem?_eq_some_iff.1 hc).1

/-- A character that is left gets kept, and nothing else changes. -/
theorem look (h : Tracks file text i s) : s.look.kept = placedAt? file text i ∧
    Tracks file text i s.look ∧
    Tracks file text (min (i + 1) text.length) { s.look with kept := none } := by
  cases h with
  | bare hi =>
    cases hc : text[i]? with
    | none =>
      -- nothing is left to be kept, and neither the scanner nor the cursor moves
      have hlen : i = text.length := Nat.le_antisymm hi (List.getElem?_eq_none_iff.1 hc)
      have hrest : text.drop i = [] := by
        rw [hlen, List.drop_length]
      have hmin : min (i + 1) text.length = i := by omega
      rw [hmin, placedAt?, hc]
      simp only [Scanner.look, hrest]
      refine ⟨rfl, ?_, ?_⟩ <;> exact hrest ▸ bare hi
    | some c =>
      obtain ⟨hlt, rfl⟩ := List.getElem?_eq_some_iff.1 hc
      rw [Nat.min_eq_left hlt, placedAt?, hc, List.drop_eq_getElem_cons hlt]
      simp only [Scanner.look, ← positionAt_succ hc]
      exact ⟨rfl, ahead hc, bare hlt⟩
  | @ahead c hc =>
    -- the character is kept already
    have hlt : i < text.length := (List.getElem?_eq_some_iff.1 hc).1
    rw [Nat.min_eq_left hlt, placedAt?, hc]
    exact ⟨rfl, ahead hc, bare hlt⟩

theorem lastPosition_eq (h : Tracks file text i s) : s.lastPosition = positionAt file text i := by
  cases h <;> rfl

/-- The character kept and those behind it are the text from the cursor on. -/
theorem rest_eq (h : Tracks file text i s) :
    s.kept.toList.map (·.2) ++ s.rest = text.drop i := by
  cases h with
  | bare => rfl
  | ahead hc =>
    obtain ⟨hlt, rfl⟩ := List.getElem?_eq_some_iff.1 hc
    exact (List.drop_eq_getElem_cons hlt).symm

theorem map_kept_look (h : Tracks file text i s) : s.look.kept.map (·.2) = text[i]? := by
  rw [h.look.1, placedAt?, Option.map_map]
  exact Option.map_id'

theorem drain (h : Tracks file text i s) :
    s.drain.1 = text.drop i ∧ Tracks file text text.length s.drain.2 := by
  fun_induction Scanner.drain s generalizing i with
  | case1 s hnone =>
    obtain ⟨-, -, hnext⟩ := h.look
    have hlen := List.getElem?_eq_none_iff.1 (h.map_kept_look.symm.trans hnone)
    rw [Nat.min_eq_right (Nat.le_succ_of_le hlen)] at hnext
    exact ⟨(List.drop_eq_nil_of_le hlen).symm, hnext⟩
  | case2 s c hsome ih =>
    obtain ⟨-, -, hnext⟩ := h.look
    obtain ⟨hlt, rfl⟩ := List.getElem?_eq_some_iff.1 (h.map_kept_look.symm.trans hsome)
    rw [Nat.min_eq_left hlt] at hnext
    obtain ⟨hrest, hend⟩ := ih hnext
    refine ⟨?_, hend⟩
    rw [List.drop_eq_getElem_cons hlt, ← hrest]

theorem step (h : Tracks file text i s) (c : Call) : (s.step c).1 = (cursorStep file text i c).1 ∧
    Tracks file text (cursorStep file text i c).2 (s.step c).2 := by
  obtain ⟨hkept, hlook, hnext⟩ := h.look
  cases c with
  | peek => exact ⟨congrArg Answer.char h.map_kept_look, hlook⟩
  | peekWithPosition => exact ⟨congrArg Answer.placed hkept, hlook⟩
  | next => exact ⟨congrArg Answer.char h.map_kept_look, hnext⟩
  | nextWithPosition => exact ⟨congrArg Answer.placed hkept, hnext⟩
  | lastPosition => exact ⟨congrArg Answer.position h.lastPosition_eq, h⟩
  | drain => exact ⟨congrArg Answer.chars h.drain.1, h.drain.2⟩

end Tracks

/-! ## Many calls -/

theorem tracks_ofText (file : Symbol) (text : List Char) :
    Tracks file text 0 (ofText file text) := .bare (Nat.zero_le _)

theorem Tracks.run (h : Tracks file text i s) (calls : List Call) :
    (runCalls Scanner.step s calls).1 = (runCalls (cursorStep file text) i calls).1 ∧
      Tracks file text (runCalls (cursorStep file text) i calls).2
        (runCalls Scanner.step s calls).2 :=
  runCalls_simulated (R := fun s i => Tracks file text i s) (fun _ _ c h => h.step c) h calls

/-- What one call hands out lies between the cursor's place and its next one. -/
theorem take_cursorStep (file : Symbol) (text : List Char) (i : Nat) (c : Call) :
    text.take i ++ c.taken (cursorStep file text i c).1 = text.take (cursorStep file text i c).2 := by
  have hone : text.take i ++ text[i]?.toList = text.take (min (i + 1) text.length) := by
    rw [← List.take_add_one, List.take_eq_take_min]
  cases c with
  | next => exact hone
  | nextWithPosition =>
    refine Eq.trans ?_ hone
    simp only [cursorStep, Call.taken, placedAt?]
    cases text[i]? <;> rfl
  | drain => exact (List.take_append_drop i text).trans List.take_length.symm
  | _ => exact List.append_nil _

theorem take_runCalls (file : Symbol) (text : List Char) (i : Nat) (calls : List Call) :
    text.take i ++ handedOut calls (runCalls (cursorStep file text) i calls).1 =
      text.take (runCalls (cursorStep file text) i calls).2 := by
  induction calls generalizing i with
  | nil => exact List.append_nil _
  | cons c cs ih =>
    have h := ih (cursorStep file text i c).2
    rw [← take_cursorStep, List.append_assoc] at h
    exact h

/-- At the end of the text the cursor stays. -/
theorem cursorStep_length (c : Call) :
    cursorStep file text text.length c = (c.atEnd (positionAt file text text.length), text.length) := by
  cases c <;> simp [cursorStep, Call.atEnd, placedAt?]

theorem runCalls_length (calls : List Call) :
    runCalls (cursorStep file text) text.length calls =
      (calls.map (Call.atEnd (positionAt file text text.length)), text.length) := by
  induction calls with
  | nil => rfl
  | cons c cs ih => rw [runCalls, cursorStep_length, ih, List.map_cons]

/-- Whatever is called, a scanner answers as the cursor does, from the beginning of a text to its
end and beyond. Its last position is that of the cursor. What it has handed out is the text up to the
cursor, and what it keeps, one character at the most, and has not looked at is the text from there. -/
theorem run_cursor (file : Symbol) (text : List Char) (calls : List Call) :
    let scanner := runCalls step (ofText file text) calls
    let cursor := runCalls (cursorStep file text) 0 calls
    scanner.1 = cursor.1 ∧ cursor.2 ≤ text.length ∧
      scanner.2.lastPosition = positionAt file text cursor.2 ∧
      (positionAt file text cursor.2).offset = cursor.2 ∧
      handedOut calls scanner.1 = text.take cursor.2 ∧
      scanner.2.kept.toList.map (·.2) ++ scanner.2.rest = text.drop cursor.2 ∧
      (cursor.2 = text.length → ∀ more, (runCalls step scanner.2 more).1 =
        more.map (Call.atEnd (positionAt file text text.length))) := by
  intro scanner cursor
  obtain ⟨hanswers, htracks⟩ := (tracks_ofText file text).run calls
  refine ⟨hanswers, htracks.index_le, htracks.lastPosition_eq, offset_positionAt htracks.index_le, ?_,
    htracks.rest_eq, ?_⟩
  · rw [hanswers]
    exact take_runCalls file text 0 calls
  · intro hend more
    obtain ⟨hmore, -⟩ := htracks.run more
    show (runCalls step scanner.2 more).1 = _
    rw [hmore]
    show (runCalls (cursorStep file text) cursor.2 more).1 = _
    rw [hend, runCalls_length]

/-- The character looked at before the rest is drained comes first in it; behind it nothing comes. -/
theorem run_cursor_drained :
    let text := ['a', '\n', 'b']
    let calls := [Call.next, .peek, .lastPosition, .drain]
    let scanner := runCalls step (ofText ⟨0⟩ text) calls
    let cursor := runCalls (cursorStep ⟨0⟩ text) 0 calls
    scanner.1 = [.char 'a', .char '\n', .position ⟨1, 2, 1, ⟨0⟩⟩, .chars ['\n', 'b']] ∧
      cursor.2 = text.length ∧ (runCalls step scanner.2 [.next, .lastPosition, .peekWithPosition]).1 =
        [.char none, .position ⟨2, 2, 3, ⟨0⟩⟩, .placed none] := by
  intro text calls scanner cursor
  obtain ⟨hanswers, -, -, -, -, -, hend⟩ := run_cursor ⟨0⟩ text calls
  exact ⟨hanswers, rfl, hend rfl _⟩

end ScriptSyntax.Scanner
