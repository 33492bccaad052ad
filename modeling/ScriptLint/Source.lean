/-! Source files and the lines and columns of their bytes. Lines and columns count from one;
a column counts characters, told apart by the bytes that continue none. -/
namespace ScriptLint

/-- A position as people read it. -/
structure Location where
  line : Nat
  column : Nat
  deriving Repr, DecidableEq

/-- A file to inspect: its name as given and its bytes. -/
structure SourceFile where
  path : String
  content : ByteArray

namespace SourceFile

def newline : UInt8 := 10

/-- A byte of the form 10xxxxxx, which begins no character. -/
def isContinuation (b : UInt8) : Bool := b &&& 0xC0 == 0x80

/-- The offsets right after a newline that is not the last byte, from offset `i` on. -/
def startsAfter (i : Nat) : List UInt8 → List Nat
  | [] => []
  | [_] => []
  | b :: c :: rest =>
    if b = newline then (i + 1) :: startsAfter (i + 1) (c :: rest) else startsAfter (i + 1) (c :: rest)

/-- The offsets at which lines start. A newline at the very end starts none. -/
def lineStarts (bytes : List UInt8) : List Nat := 0 :: startsAfter 0 bytes

/-- The location of an offset among given bytes; an offset past the end counts as the end. -/
def locate (bytes : List UInt8) (offset : Nat) : Location :=
  let stop := min offset bytes.length
  let starts := lineStarts bytes
  let line := starts.countP (· ≤ stop)
  let start := starts[line - 1]?.getD 0
  ⟨line,1 + ((bytes.drop start).take (stop - start)).countP (!isContinuation ·)⟩

def bytes (file : SourceFile) : List UInt8 := file.content.data.toList

def location (file : SourceFile) (offset : Nat) : Location := locate file.bytes offset

end SourceFile
end ScriptLint
