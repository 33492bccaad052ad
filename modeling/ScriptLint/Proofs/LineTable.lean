import Mathlib
import ScriptLint.Proofs.Lexing
import ScriptLint.Proofs.Locations

/-! Lines and columns of a text. Where bytes are text, different characters are at different
locations, and in the same order. -/
namespace ScriptLint

/-- A place between two characters of a text, at its beginning or at its end. -/
def Text.IsBoundary (cs : List Char) (offset : Nat) : Prop :=
  ∃ before, before <+: cs ∧ offset = width before

namespace SourceFile
variable {offset : Nat}

lemma isContinuation_of_isUTF8FirstByte {b : UInt8} (h : b.IsUTF8FirstByte) :
    isContinuation b = false := by
  have hall : ∀ n < 256, (UInt8.ofNat n).IsUTF8FirstByte →
      isContinuation (UInt8.ofNat n) = false := by
    decide +kernel
  have hfirst := hall b.toNat b.toNat_lt
  rw [UInt8.ofNat_toNat] at hfirst
  exact hfirst h

/-- Where a text is divided before its end, a character begins. -/
theorem exists_first {cs : List Char} (h : Text.IsBoundary cs offset)
    (hlt : offset < Text.width cs) :
    ∃ b, (Text.encode cs)[offset]? = some b ∧ isContinuation b = false := by
  obtain ⟨before,⟨after,rfl⟩,rfl⟩ := h
  cases after with
  | nil => simp at hlt
  | cons c after =>
    have hne : 0 < (String.utf8EncodeChar c).length := by
      rw [String.length_utf8EncodeChar]
      exact c.utf8Size_pos
    refine ⟨(String.utf8EncodeChar c)[0],?_,?_⟩
    · rw [Text.encode_append,← Text.length_encode,List.getElem?_append_right (Nat.le_refl _),
        Nat.sub_self]
      simp [Text.encode,List.getElem?_append_left hne]
    · exact isContinuation_of_isUTF8FirstByte UInt8.isUTF8FirstByte_getElem_zero_utf8EncodeChar

section Text
variable {file : SourceFile} {cs : List Char} {o o' : Nat} (hcs : Text.decode file.content = .ok cs)
include hcs

theorem location_before (ho : Text.IsBoundary cs o) (ho' : Text.IsBoundary cs o') (hlt : o < o') :
    (file.location o).Before (file.location o') := by
  have hbytes : file.bytes = Text.encode cs := Text.decode_eq_ok hcs
  have hle : o' ≤ Text.width cs := by
    obtain ⟨before,⟨after,rfl⟩,rfl⟩ := ho'
    rw [Text.width_append]
    omega
  obtain ⟨b,hb,hfirst⟩ := exists_first ho (Nat.lt_of_lt_of_le hlt hle)
  rw [location,location,hbytes]
  exact locate_before hlt (by rwa [Text.length_encode]) hb hfirst

/-- Places of a text are in the order of their locations. -/
theorem location_atOrBefore_iff (ho : Text.IsBoundary cs o) (ho' : Text.IsBoundary cs o') :
    (file.location o).AtOrBefore (file.location o') ↔ o ≤ o' := by
  constructor
  · intro hle
    by_contra hlt
    exact Location.before_iff.mp (location_before hcs ho' ho (Nat.lt_of_not_le hlt)) hle
  · exact locate_mono

end Text

/-- Lines and columns are exact. The table of lines is in order, and the line of a byte parts it, so
that it has an entry for the line, which is no later than the byte. There is one line more than
there are newlines before the byte that another line follows, and the line starts after the last of
them; the column counts the bytes from there that continue no character. Among bytes that are text,
places between characters have locations in their own order, so that no two of them share one. -/
theorem location_exact (file : SourceFile) :
    (lineStarts file.bytes).Pairwise (· < ·) ∧
    (∀ offset, ∃ stop start : Nat, stop = min offset file.bytes.length ∧ start ≤ stop ∧
      (lineStarts file.bytes)[(file.location offset).line - 1]? = some start ∧
      (∀ k s, (lineStarts file.bytes)[k]? = some s →
        (s ≤ stop ↔ k < (file.location offset).line)) ∧
      (file.location offset).line = 1 + (breaks file.bytes stop).length ∧
      start = ((breaks file.bytes stop).map (· + 1)).getLastD 0 ∧
      (file.location offset).column =
        1 + ((file.bytes.take stop).drop start).countP (!isContinuation ·)) ∧
    ∀ cs, Text.decode file.content = .ok cs →
      (∀ o o', Text.IsBoundary cs o → Text.IsBoundary cs o' →
        ((file.location o).Before (file.location o') ↔ o < o') ∧
        (file.location o = file.location o' ↔ o = o')) ∧
      ∀ offsets : List Nat, (∀ o ∈ offsets, Text.IsBoundary cs o) →
        ((offsets.map file.location).Pairwise Location.AtOrBefore ↔ offsets.Pairwise (· ≤ ·)) := by
  refine ⟨pairwise_lineStarts _,fun offset => ?_,fun cs hcs => ⟨fun o o' ho ho' => ?_,?_⟩⟩
  · exact ⟨_,_,rfl,lineStart_le file.bytes offset,getElem_line file.bytes offset,
      fun k s => le_iff_lt_line file.bytes offset,line_location file.bytes offset,rfl,
      column_location file.bytes offset⟩
  · have hle := location_atOrBefore_iff hcs ho ho'
    have hge := location_atOrBefore_iff hcs ho' ho
    refine ⟨by rw [Location.before_iff,hge,Nat.not_le],fun heq => ?_,fun heq => by rw [heq]⟩
    rw [heq] at hle hge
    have hself : (file.location o').AtOrBefore (file.location o') := .inr ⟨rfl,Nat.le_refl _⟩
    exact Nat.le_antisymm (hle.mp hself) (hge.mp hself)
  · intro offsets hoffsets
    rw [List.pairwise_map]
    exact List.Pairwise.iff_of_mem fun ho ho' =>
      location_atOrBefore_iff hcs (hoffsets _ ho) (hoffsets _ ho')

/-! A text with a letter of two bytes and a newline at its end. -/
namespace Accented

def file : SourceFile := ⟨"a.js","é\nb\n".toUTF8⟩

def text : List Char := ['é','\n','b','\n']

theorem decode_eq : Text.decode file.content = .ok text := by cbv

end Accented

theorem location_exact_accented : Text.decode Accented.file.content = .ok Accented.text ∧
    (Accented.file.location 2).Before (Accented.file.location 3) ∧
    Accented.file.location 4 ≠ Accented.file.location 5 := by
  obtain ⟨_,_,htext⟩ := location_exact Accented.file
  obtain ⟨horder,_⟩ := htext Accented.text Accented.decode_eq
  have hboundary (n : Nat) : Text.IsBoundary Accented.text (Text.width (Accented.text.take n)) :=
    ⟨_,List.take_prefix n _,rfl⟩
  have hbefore := (horder 2 3 (hboundary 1) (hboundary 2)).1.mpr (by decide)
  have hne := (horder 4 5 (hboundary 3) (hboundary 4)).2.not.mpr (by decide)
  exact ⟨Accented.decode_eq,hbefore,hne⟩

end SourceFile
end ScriptLint
