/-
The blank characters: those that separate tokens and mean nothing themselves. They are the ASCII
space and control blanks, the four information separators, next line, and the Unicode space, line
and paragraph separators.
-/
import ScriptSyntax.Text.Ranges

namespace ScriptSyntax.Text

def blankRanges : Ranges := [
  (0x9, 0xD), (0x1C, 0x20), (0x85, 0x85), (0xA0, 0xA0), (0x1680, 0x1680), (0x2000, 0x200A),
  (0x2028, 0x2029), (0x202F, 0x202F), (0x205F, 0x205F), (0x3000, 0x3000)]

example : blankRanges.ordered = true := by decide

/-- Does the character only separate what stands around it? -/
def isBlank (c : Char) : Bool := blankRanges.has c.toNat

theorem isBlank_newline : isBlank '\n' = true := by decide

theorem isBlank_space : isBlank ' ' = true := by decide

end ScriptSyntax.Text
