/-! Reading bytes as UTF-8. Decoding keeps the longest run of whole characters from the start and
says how many bytes it takes, so that malformed text can be reported where it stops being text. -/
namespace ScriptLint.Text

/-- The characters from byte `i` on, up to the first byte that does not begin one, and that byte. -/
def decodeFrom (bytes : ByteArray) (i : Nat) : List Char × Nat :=
  match _h : bytes.utf8DecodeChar? i with
  | some c =>
    let (cs,stop) := decodeFrom bytes (i + c.utf8Size)
    (c :: cs,stop)
  | none => ([],i)
termination_by bytes.size - i
decreasing_by
  have := ByteArray.le_size_of_utf8DecodeChar?_eq_some _h
  have := c.utf8Size_pos
  omega

/-- The text of a byte string, or the length of its longest well-formed beginning. -/
def decode (bytes : ByteArray) : Except Nat (List Char) :=
  let (cs,stop) := decodeFrom bytes 0
  if stop < bytes.size then .error stop else .ok cs

/-- The number of bytes a text takes. -/
def width : List Char → Nat
  | [] => 0
  | c :: cs => c.utf8Size + width cs

@[simp] theorem width_nil : width [] = 0 := rfl

@[simp] theorem width_cons (c : Char) (cs : List Char) :
    width (c :: cs) = c.utf8Size + width cs := rfl

@[simp] theorem width_append (cs ds : List Char) : width (cs ++ ds) = width cs + width ds := by
  induction cs with
  | nil => simp
  | cons c cs ih => rw [List.cons_append,width_cons,width_cons,ih,Nat.add_assoc]

end ScriptLint.Text
