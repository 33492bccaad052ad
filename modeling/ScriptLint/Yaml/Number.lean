/-! Numbers as plain scalars write them. -/
namespace ScriptLint.Yaml

/-- A number: an integer, a decimal fraction `± mantissa * 10 ^ exponent`, or one that is not
finite. Two spellings of one value give the same number. -/
inductive Number where
  | integer (n : Int)
  | fraction (mantissa exponent : Int)
  | infinity (negative : Bool)
  | notNumber
  deriving Repr, DecidableEq

namespace Number

/-- The value of a digit. -/
def digit? (radix : Nat) (c : Char) : Option Nat :=
  let d :=
    if c.isDigit then c.toNat - '0'.toNat
    else if 'a' ≤ c && c ≤ 'z' then c.toNat - 'a'.toNat + 10
    else if 'A' ≤ c && c ≤ 'Z' then c.toNat - 'A'.toNat + 10
    else radix
  if d < radix then some d else none

/-- The value of one digit or more. -/
def digits? (radix : Nat) (cs : List Char) : Option Nat :=
  if cs.isEmpty then none
  else cs.foldlM (fun n c => (digit? radix c).map (radix * n + ·)) 0

def isSign (c : Char) : Bool := c == '+' || c == '-'

/-- Digits after a needless zero, which make no number. -/
def isPadded (cs : List Char) : Bool :=
  let cs := if cs.head?.any isSign then cs.drop 1 else cs
  1 < cs.length && cs.head? == some '0' && cs.all Char.isDigit

/-- The digits after a mark of their radix. -/
def radixDigits? : List Char → Option Nat
  | '0' :: 'x' :: cs => digits? 16 cs
  | '0' :: 'o' :: cs => digits? 8 cs
  | '0' :: 'b' :: cs => digits? 2 cs
  | _ => none

/-- The integer that a text stands for, without regard to its size. -/
def integer? (cs : List Char) : Option Int :=
  match cs with
  | '-' :: rest =>
    match radixDigits? rest with
    | some n => some (-(n : Int))
    | none => if isPadded cs then none else (digits? 10 rest).map fun n => -(n : Int)
  | _ =>
    let rest := if cs.head? == some '+' then cs.drop 1 else cs
    match radixDigits? rest with
    | some n => some n
    | none => if isPadded cs then none else (digits? 10 rest).map fun n => (n : Int)

/-- Drops the zeros at the end of a mantissa, of which there are at most `fuel`. -/
def strip : Nat → Nat → Int → Nat × Int
  | 0, m, e => (m,e)
  | fuel + 1, m, e => if m != 0 && m % 10 == 0 then strip fuel (m / 10) (e + 1) else (m,e)

/-- The least value that no double stands for: it lies halfway between the greatest finite one and
the next power of two. -/
def overflow : Nat := Nat.pow 2 1024 - Nat.pow 2 970

/-- Whether `m * 10 ^ e` is near enough to a finite double; `count` digits are in `m`. -/
def isFinite (m count : Nat) (e : Int) : Bool :=
  if m == 0 then true
  else if (count : Int) + e < 300 then true
  else if 310 < (count : Int) + e then false
  else if 0 ≤ e then m * Nat.pow 10 e.toNat < overflow
  else m < overflow * Nat.pow 10 (-e).toNat

/-- The exponent at the end of a fraction. -/
def exponent? : List Char → Option Int
  | [] => some 0
  | c :: cs =>
    if c == 'e' || c == 'E' then
      match cs with
      | '-' :: ds => (digits? 10 ds).map fun n => -(n : Int)
      | '+' :: ds => (digits? 10 ds).map fun n => (n : Int)
      | ds => (digits? 10 ds).map fun n => (n : Int)
    else none

/-- The fraction that a text without a plus sign stands for. It has a digit before or after its
point, and fits a double. -/
def fraction? (cs : List Char) : Option Number := do
  let negative := cs.head? == some '-'
  let cs := if negative then cs.drop 1 else cs
  let whole := cs.takeWhile Char.isDigit
  let rest := cs.drop whole.length
  let pointed := rest.head? == some '.'
  let part := if pointed then (rest.drop 1).takeWhile Char.isDigit else []
  let rest := if pointed then rest.drop (part.length + 1) else rest
  let m ← digits? 10 (whole ++ part)
  let e ← exponent? rest
  let e := e - part.length
  let significant := (whole ++ part).dropWhile (· == '0')
  if isFinite m significant.length e then
    let (m,e) := strip significant.length m e
    some (.fraction (if negative then -(m : Int) else m) (if m == 0 then 0 else e))
  else none

/-- A number that is no integer. -/
def other? (cs : List Char) : Option Number :=
  let text := String.ofList cs
  let signed := cs.head? == some '+'
  if signed && (cs.drop 1).head?.any isSign then none
  else
    let rest := if signed then cs.drop 1 else cs
    if [".inf",".Inf",".INF"].contains (String.ofList rest) then some (.infinity false)
    else if ["-.inf","-.Inf","-.INF"].contains text then some (.infinity true)
    else if [".nan",".NaN",".NAN"].contains text then some .notNumber
    else fraction? rest

end Number
end ScriptLint.Yaml
