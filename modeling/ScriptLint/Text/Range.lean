/-! Character classes given as tables of code point ranges, ends included. -/
namespace ScriptLint.Text

/-- A table of inclusive code point ranges. -/
abbrev RangeTable := List (Nat × Nat)

/-- A code point is in a table when one of its ranges holds it. -/
def RangeTable.contains (table : RangeTable) (c : Char) : Bool :=
  table.any fun r => r.1 ≤ c.toNat && c.toNat ≤ r.2

end ScriptLint.Text
