import ScriptLint.Proofs.Reading
import ScriptLint.Token.Lexer

/-! Where tokens stand in a text, and where characters stand in a file. Every token is spelled in
the text at its place, and the bytes of a file are the bytes of its characters. -/
namespace ScriptLint
namespace Text

/-- The bytes of a text. -/
def encode (cs : List Char) : List UInt8 := cs.flatMap String.utf8EncodeChar

@[simp] theorem length_encode (cs : List Char) : (encode cs).length = width cs := by
  induction cs with
  | nil => rfl
  | cons c cs ih => simp [encode,List.flatMap_cons,← ih]

@[simp] theorem encode_append (cs ds : List Char) : encode (cs ++ ds) = encode cs ++ encode ds :=
  List.flatMap_append

/-- A character that is decoded at some byte is encoded there. -/
lemma drop_eq_of_utf8DecodeChar {bytes : ByteArray} {i : Nat} {c : Char}
    (h : bytes.utf8DecodeChar? i = some c) :
    bytes.data.toList.drop i =
      String.utf8EncodeChar c ++ bytes.data.toList.drop (i + c.utf8Size) := by
  have hle := ByteArray.le_size_of_utf8DecodeChar?_eq_some h
  rw [ByteArray.utf8DecodeChar?_eq_utf8DecodeChar?_extract] at h
  have he := congrArg (fun b : ByteArray => b.data.toList)
    (ByteArray.eq_of_utf8DecodeChar?_eq_some h)
  simp only [ByteArray.data_extract,ByteArray.data_append,Array.toList_append,
    List.data_toByteArray,Array.toList_extract,List.extract_eq_take_drop] at he
  rwa [List.take_of_length_le (by simp),List.drop_drop,
    List.take_of_length_le (by simp; omega)] at he

theorem decodeFrom_eq (bytes : ByteArray) (i : Nat) :
    bytes.data.toList.drop i =
      encode (decodeFrom bytes i).1 ++ bytes.data.toList.drop (decodeFrom bytes i).2 := by
  fun_induction decodeFrom bytes i with
  | case1 i c h cs stop hd ih =>
    rw [drop_eq_of_utf8DecodeChar h,ih,hd]
    simp [encode]
  | case2 i h => simp [encode]

theorem decode_eq_ok {bytes : ByteArray} {cs : List Char} (h : decode bytes = .ok cs) :
    bytes.data.toList = encode cs := by
  have hd := decodeFrom_eq bytes 0
  unfold decode at h
  split at h
  next cs' stop hs =>
  rw [hs] at hd
  split at h
  · contradiction
  · next hstop =>
    cases h
    have hsize : bytes.data.toList.length ≤ stop := by simpa using hstop
    simpa [List.drop_eq_nil_of_le hsize] using hd

/-- A character that is encoded at some byte is decoded there. -/
lemma utf8DecodeChar_of_drop_eq {bytes : ByteArray} {i : Nat} {c : Char} {bs : List UInt8}
    (h : bytes.data.toList.drop i = String.utf8EncodeChar c ++ bs) :
    bytes.utf8DecodeChar? i = some c := by
  have hextract : bytes.extract i bytes.size =
      (String.utf8EncodeChar c).toByteArray ++ bs.toByteArray := by
    apply ByteArray.ext
    apply Array.toList_inj.mp
    simp only [ByteArray.data_extract,ByteArray.data_append,Array.toList_append,
      List.data_toByteArray,Array.toList_extract,List.extract_eq_take_drop]
    rw [← h,List.take_of_length_le (by simp)]
  rw [ByteArray.utf8DecodeChar?_eq_utf8DecodeChar?_extract,hextract]
  exact ByteArray.utf8DecodeChar?_utf8EncodeChar_append

theorem decodeFrom_of_drop_eq {bytes : ByteArray} {cs : List Char} {i : Nat} (hi : i ≤ bytes.size)
    (h : bytes.data.toList.drop i = encode cs) : decodeFrom bytes i = (cs,bytes.size) := by
  have hsize : bytes.data.toList.length = bytes.size := by simp
  induction cs generalizing i with
  | nil =>
    have hle : bytes.size ≤ i := by simpa [encode] using h
    have hnone : bytes.utf8DecodeChar? i = none := by
      by_contra hne
      obtain ⟨c,hc⟩ := Option.ne_none_iff_exists'.mp hne
      have hstop := ByteArray.le_size_of_utf8DecodeChar?_eq_some hc
      have hpos := c.utf8Size_pos
      omega
    rw [decodeFrom]
    split
    next c hc => cases hnone.symm.trans hc
    next => rw [Nat.le_antisymm hi hle]
  | cons c cs ih =>
    have hdrop : bytes.data.toList.drop i = String.utf8EncodeChar c ++ encode cs := h
    have hlength := congrArg List.length hdrop
    simp only [List.length_drop,List.length_append,String.length_utf8EncodeChar,hsize] at hlength
    have hnext : bytes.data.toList.drop (i + c.utf8Size) = encode cs := by
      rw [← List.drop_drop,hdrop,← String.length_utf8EncodeChar,List.drop_left]
    have hpos := c.utf8Size_pos
    rw [decodeFrom]
    split
    next c' hc =>
      obtain rfl : c = c' := Option.some.inj ((utf8DecodeChar_of_drop_eq hdrop).symm.trans hc)
      rw [ih (by omega) hnext]
    next hc => cases (utf8DecodeChar_of_drop_eq hdrop).symm.trans hc

theorem decode_of_eq_encode {bytes : ByteArray} {cs : List Char}
    (h : bytes.data.toList = encode cs) : decode bytes = .ok cs := by
  rw [decode,decodeFrom_of_drop_eq (Nat.zero_le _) h]
  simp

end Text

theorem Keyword.ofText_text (w : Keyword) : ofText? w.text = some w := by
  cases w <;> decide

namespace Token
open Text

lemma text_ofWord (s : String) : (TokenKind.ofWord s).text = s := by
  unfold TokenKind.ofWord
  split
  next w hw => simpa [TokenKind.text] using List.find?_some hw
  next => rfl

lemma ofWord_ne_endOfInput (s : String) : TokenKind.ofWord s ≠ .endOfInput := by
  unfold TokenKind.ofWord
  split <;> simp

lemma isNone_of_ofWord_eq_name {s t : String} (h : TokenKind.ofWord s = .name t) :
    (Keyword.ofText? t).isNone := by
  unfold TokenKind.ofWord at h
  split at h
  · cases h
  · next hn =>
    cases h
    rw [hn]
    rfl

lemma text_pos (p : Punct) : 0 < p.text.length := by cases p <;> decide

lemma isPrefix_of_leading {cs : List Char} {p : Punct} (h : Punct.leading? cs = some p) :
    p.text.toList <+: cs := by
  simpa using List.find?_some h

/-- A question mark that is not an optional access is still a question mark. -/
lemma isPrefix_of_punctAt {cs : List Char} {p : Punct} (h : punctAt? cs = some p) :
    p.text.toList <+: cs := by
  unfold punctAt? at h
  split at h
  next hq =>
    have hmark : Punct.question.text.toList <+: Punct.optionalDot.text.toList := by decide
    split at h <;> cases h
    · exact hmark.trans (isPrefix_of_leading hq)
    · exact isPrefix_of_leading hq
  next => exact isPrefix_of_leading h

/-- What a lexeme is: a word, number, string, template or punctuator spelled by its characters. -/
theorem lexeme_spec {c : Char} {cs : List Char} {kind : TokenKind} {n : Nat}
    (h : lexeme c cs = .ok (kind,n)) :
    kind.text.toList = c :: cs.take n ∧ kind ≠ .endOfInput ∧
      ∀ s, kind = .name s → (Keyword.ofText? s).isNone := by
  unfold lexeme at h
  split at h
  · cases h
  split at h
  · cases h
    refine ⟨by simp [text_ofWord],ofWord_ne_endOfInput _,fun s hs => isNone_of_ofWord_eq_name hs⟩
  split at h
  · cases h
    simp [TokenKind.text]
  split at h
  · split at h <;> cases h
    simp [TokenKind.text]
  split at h
  · split at h <;> cases h
    simp [TokenKind.text]
  split at h
  · next p hp =>
    cases h
    refine ⟨?_,by simp,by simp⟩
    have htake := List.prefix_iff_eq_take.mp (isPrefix_of_punctAt hp)
    obtain ⟨m,hm⟩ := Nat.exists_eq_add_of_lt (text_pos p)
    rw [Nat.zero_add] at hm
    rw [String.length_toList,hm,List.take_succ_cons] at htake
    rw [TokenKind.text,htake,hm]
    rfl
  · cases h

/-- The token stands in the text `cs` that begins at byte `n`. -/
def SpelledIn (n : Nat) (cs : List Char) (t : Token) : Prop :=
  ∃ before after, cs = before ++ t.kind.text.toList ++ after ∧
    t.span = ⟨n + width before,n + width before + width t.kind.text.toList⟩

lemma SpelledIn.prepend {n : Nat} {cs ds : List Char} {t : Token}
    (h : SpelledIn (n + width ds) cs t) : SpelledIn n (ds ++ cs) t := by
  obtain ⟨before,after,rfl,hspan⟩ := h
  refine ⟨ds ++ before,after,by simp,?_⟩
  rw [hspan]
  simp [Nat.add_assoc]

theorem scanFrom_spec {n : Nat} {cs : List Char} {tokens : List Token}
    (h : scanFrom n cs = .ok tokens) :
    Grammar.Tokens n tokens ∧ ∀ t ∈ tokens, SpelledIn n cs t := by
  fun_induction scanFrom n cs generalizing tokens with
  | case1 => cases h
  | case2 n cs g hg start =>
    rename_i hd
    cases h
    have hcs := List.take_append_drop g.length cs
    rw [hd] at hcs
    refine ⟨.last rfl (Nat.le_add_right ..) rfl,?_⟩
    intro t ht
    obtain rfl := List.mem_singleton.mp ht
    exact ⟨cs.take g.length,[],by simpa [TokenKind.text] using hcs.symm,rfl⟩
  | case3 => cases h
  | case4 => cases h
  | case5 n cs g hg start c rest hd kind k hl stop more hs =>
    rename_i ih
    cases h
    obtain ⟨htext,hend,hname⟩ := lexeme_spec hl
    obtain ⟨hmore,hspelled⟩ := ih hs
    have hcs : cs = cs.take g.length ++ (c :: rest.take k ++ rest.drop k) := by
      rw [List.cons_append,List.take_append_drop,← hd,List.take_append_drop]
    have hwidth : 0 < width (c :: rest.take k) := by
      have hc := c.utf8Size_pos
      rw [width_cons]
      omega
    refine ⟨.cons hend hname (Nat.le_add_right ..) (Nat.lt_add_of_pos_right hwidth) hmore,?_⟩
    intro t ht
    rcases List.mem_cons.mp ht with rfl | ht
    · refine ⟨cs.take g.length,rest.drop k,?_,by rw [htext]⟩
      rw [htext,List.append_assoc]
      exact hcs
    · rw [hcs,← List.append_assoc]
      apply SpelledIn.prepend
      rw [width_append,← Nat.add_assoc]
      exact hspelled t ht

end Token
end ScriptLint
