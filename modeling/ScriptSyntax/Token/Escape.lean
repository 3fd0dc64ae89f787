/-
The escapes of string literals: a letter behind a backslash stands for one character. No two
letters stand for the same character.
-/

namespace ScriptSyntax

/-- Each escape letter with the character it stands for. -/
def escapes : List (Char × Char) :=
  [('n', '\n'), ('t', '\t'), ('r', '\r'), ('0', '\x00'), ('\\', '\\'), ('"', '"')]

/-- The character that an escape letter stands for. -/
def unescape? (letter : Char) : Option Char := (escapes.find? (·.1 == letter)).map (·.2)

/-- The letter that a character is escaped by, if it may not stand for itself. -/
def escapeLetter? (c : Char) : Option Char := (escapes.find? (·.2 == c)).map (·.1)

theorem unescape?_of_escapeLetter? {c e : Char} (h : escapeLetter? c = some e) :
    unescape? e = some c := by
  obtain ⟨p, hp, rfl⟩ := Option.map_eq_some_iff.1 h
  have hc : p.2 = c := by simpa using List.find?_some hp
  have hall : ∀ p ∈ escapes, unescape? p.1 = some p.2 := by decide
  rw [hall p (List.mem_of_find?_eq_some hp), hc]

end ScriptSyntax
