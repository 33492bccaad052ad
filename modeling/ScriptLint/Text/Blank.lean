import ScriptLint.Text.Range

/-! White space: the characters of the Unicode property White_Space. -/
namespace ScriptLint.Text

def blankRanges : RangeTable :=
  [(0x09,0x0D),(0x20,0x20),(0x85,0x85),(0xA0,0xA0),(0x1680,0x1680),(0x2000,0x200A),
   (0x2028,0x2029),(0x202F,0x202F),(0x205F,0x205F),(0x3000,0x3000)]

/-- The Unicode property White_Space. -/
def isBlank (c : Char) : Bool := blankRanges.contains c

/-- The four characters that end a line: line feed, carriage return and the two separators. -/
def isLineBreak (c : Char) : Bool :=
  c == '\n' || c == '\r' || c == '\u2028' || c == '\u2029'

theorem isBlank_of_isLineBreak {c : Char} (h : isLineBreak c) : isBlank c := by
  simp only [isLineBreak,Bool.or_eq_true,beq_iff_eq] at h
  rcases h with ((rfl | rfl) | rfl) | rfl <;> decide

end ScriptLint.Text
