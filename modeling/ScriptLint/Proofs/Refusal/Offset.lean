import Mathlib
import ScriptLint.Proofs.Locations
import ScriptLint.Proofs.Parsed
import ScriptLint.Proofs.Partition
import ScriptLint.Proofs.Refusal.Halting
import ScriptLint.Proofs.Selection

/-! Where a source text is refused. The place is the end of what can be read as text, the beginning
of what cannot be read as a token or as a comment, or the beginning of a token that the parser has
passed or stands at. In all cases it is a place in the text, and so are the line and the column that
are reported. -/
namespace ScriptLint
open Text

namespace Text

/-- The longest text that some bytes begin with. -/
structure Longest (bytes : List UInt8) (cs : List Char) : Prop where
  begins : encode cs <+: bytes
  all : ∀ ds, encode ds <+: bytes → ds <+: cs

/-- Decoding takes every character that there is. -/
theorem isPrefix_decodeFrom {bytes : ByteArray} {ds : List Char} {i : Nat}
    (h : encode ds <+: bytes.data.toList.drop i) : ds <+: (decodeFrom bytes i).1 := by
  induction ds generalizing i with
  | nil => exact List.nil_prefix
  | cons d ds ih =>
    obtain ⟨rest,hrest⟩ := h
    have hdrop : bytes.data.toList.drop i = String.utf8EncodeChar d ++ (encode ds ++ rest) := by
      rw [← hrest]
      simp [encode]
    have hnext : bytes.data.toList.drop (i + d.utf8Size) = encode ds ++ rest := by
      rw [← List.drop_drop,hdrop,← String.length_utf8EncodeChar,List.drop_left]
    rw [decodeFrom]
    split
    next c hc =>
      obtain rfl : d = c := Option.some.inj ((utf8DecodeChar_of_drop_eq hdrop).symm.trans hc)
      exact List.cons_prefix_cons.mpr ⟨rfl,ih ⟨rest,hnext.symm⟩⟩
    next hc => cases (utf8DecodeChar_of_drop_eq hdrop).symm.trans hc

theorem decodeFrom_stop (bytes : ByteArray) (i : Nat) :
    (decodeFrom bytes i).2 = i + width (decodeFrom bytes i).1 := by
  fun_induction decodeFrom bytes i with
  | case1 i c h cs stop hd ih =>
    rw [hd] at ih
    rw [width_cons,← Nat.add_assoc]
    exact ih
  | case2 => rfl

theorem longest_decodeFrom (bytes : ByteArray) :
    Longest bytes.data.toList (decodeFrom bytes 0).1 := by
  refine ⟨?_,fun ds hds => isPrefix_decodeFrom hds⟩
  have hd := decodeFrom_eq bytes 0
  rw [List.drop_zero] at hd
  exact ⟨_,hd.symm⟩

/-- What cannot be decoded to its end is refused where the longest text ends. -/
theorem decode_eq_error {bytes : ByteArray} {n : Nat} (h : decode bytes = .error n) :
    n = width (decodeFrom bytes 0).1 ∧ encode (decodeFrom bytes 0).1 ≠ bytes.data.toList := by
  have hstop := decodeFrom_stop bytes 0
  rw [Nat.zero_add] at hstop
  unfold decode at h
  dsimp only at h
  split at h
  next hlt =>
    cases h
    refine ⟨hstop,fun he => ?_⟩
    have hlength := congrArg List.length he
    rw [length_encode,← hstop,Array.length_toList,ByteArray.size_data] at hlength
    omega
  next => cases h

theorem longest_of_decode {bytes : ByteArray} {cs : List Char} (h : decode bytes = .ok cs) :
    Longest bytes.data.toList cs ∧ encode cs = bytes.data.toList := by
  have hlongest := longest_decodeFrom bytes
  have hcs : (decodeFrom bytes 0).1 = cs := by
    unfold decode at h
    dsimp only at h
    split at h
    · cases h
    · exact Except.ok.inj h
  rw [hcs] at hlongest
  exact ⟨hlongest,(decode_eq_ok h).symm⟩

end Text

namespace Token
variable {c : Char} {cs ds : List Char} {kind : TokenKind} {fault : Fault} {n m : Nat}

/-- The beginning of a comment that never ends. -/
def OpensForever (cs : List Char) : Prop := ∃ body, cs = '/' :: '*' :: body ∧ ¬ ['*','/'] <:+: body

/-- A gap that is refused holds a comment without an end, at the place that is given, or is in it. -/
theorem gapFrom_unclosed {state : GapState} {newline : Bool}
    (h : gapFrom state n newline cs = .error m) :
    state.Reaches OpensForever n m cs ∨
      ∃ held, state = .blockComment m held ∧ ¬ ['*','/'] <:+: cs := by
  fun_induction gapFrom state n newline cs with
  | case1 n newline cs ih =>
    rcases ih h with hmore | ⟨_,hstate,_⟩
    · exact .inl (hmore.step ['/','/'] fun _ _ _ => completes_openLine)
    · cases hstate
  | case2 n newline cs ih =>
    rcases ih h with hmore | ⟨_,hstate,hopen⟩
    · exact .inl (hmore.step ['/','*'] fun _ _ _ => completes_openBlock)
    · -- The comment that never ends is the one opened here.
      cases hstate
      exact .inl ⟨[],_,rfl,rfl,.nil,cs,rfl,hopen⟩
  | case3 n newline c cs _ _ hc ih =>
    rcases ih h with hmore | ⟨_,hstate,_⟩
    · exact .inl (hmore.step [c] fun _ _ _ => completes_blank (isSpacing_of_isLineBreak hc))
    · cases hstate
  | case4 n newline c cs _ _ _ hc ih =>
    rcases ih h with hmore | ⟨_,hstate,_⟩
    · exact .inl (hmore.step [c] fun _ _ _ => completes_blank hc)
    · cases hstate
  | case6 n newline c cs hc ih =>
    rcases ih h with hmore | ⟨_,hstate,_⟩
    · exact .inl (hmore.step [c] fun _ _ _ => completes_endLine (by simpa using hc))
    · cases hstate
  | case7 n newline c cs hc ih =>
    rcases ih h with hmore | ⟨_,hstate,_⟩
    · exact .inl (hmore.step [c] fun _ _ _ => completes_inLine (by simpa using hc))
    · cases hstate
  | case8 opened held n newline cs ih =>
    rcases ih h with hmore | ⟨_,hstate,_⟩
    · exact .inl (hmore.step ['*','/'] fun _ _ _ => completes_endBlock)
    · cases hstate
  | case9 opened held n newline c cs hne ih =>
    rcases ih h with hmore | ⟨_,hstate,hopen⟩
    · exact .inl (hmore.step [c] fun _ _ hcs =>
        completes_inBlock fun tail hc htail => hne tail hc (hcs.trans htail))
    · cases hstate
      exact .inr ⟨held,rfl,not_ends_cons hne hopen⟩
  | case10 =>
    cases h
    exact .inr ⟨_,rfl,by simp⟩
  | case5 | case11 | case12 => cases h

theorem gap_unclosed (h : gap cs = .error m) :
    ∃ skipped body : List Char, cs = skipped ++ '/' :: '*' :: body ∧ m = skipped.length ∧
      Trivia ('/' :: '*' :: body) skipped ∧ ¬ ['*','/'] <:+: body := by
  rcases gapFrom_unclosed h with ⟨skipped,_,hcs,hm,hskipped,body,rfl,hopen⟩ | ⟨_,hstate,_⟩
  · exact ⟨skipped,body,hcs,by omega,hskipped,hopen⟩
  · cases hstate

theorem leading_isSome {p : Punct} (h : p.text.toList <+: cs) : (Punct.leading? cs).isSome :=
  List.find?_isSome.mpr ⟨p,p.mem_all,List.isPrefixOf_iff_prefix.mpr h⟩

theorem punctAt_isSome (cs : List Char) : (punctAt? cs).isSome = (Punct.leading? cs).isSome := by
  unfold punctAt?
  split
  next hleading =>
    rw [hleading]
    split <;> rfl
  next => rfl

/-- A text that begins with punctuation does so however it goes on, if perhaps with a longer one. -/
theorem punctAt_append (h : (punctAt? cs).isSome) (more : List Char) :
    (punctAt? (cs ++ more)).isSome := by
  rw [punctAt_isSome] at h ⊢
  obtain ⟨p,hp⟩ := Option.isSome_iff_exists.mp h
  exact leading_isSome ((isPrefix_of_leading hp).trans (List.prefix_append cs more))

/-- Where a token can be read, one can be read however the text goes on. -/
theorem lexeme_extends (h : lexeme c cs = .ok (kind,n)) (more : List Char) :
    ∃ found, lexeme c (cs ++ more) = .ok found := by
  have hsplit (k : Nat) : cs ++ more = cs.take k ++ (cs.drop k ++ more) := by
    rw [← List.append_assoc,List.take_append_drop]
  unfold lexeme at h ⊢
  dsimp only at h ⊢
  split at h
  · cases h
  next hescape =>
  rw [if_neg hescape]
  split at h
  next hword =>
    rw [if_pos hword]
    exact ⟨_,rfl⟩
  next hword =>
  rw [if_neg hword]
  -- A dot is the beginning of a number or not by what comes after it, and a token in both cases.
  by_cases hnumber' : (c.isDigit || (c == '.' && ((cs ++ more).head?.map Char.isDigit).getD false))
  · rw [if_pos hnumber']
    exact ⟨_,rfl⟩
  rw [if_neg hnumber']
  split at h
  next hnumber =>
    refine absurd ?_ hnumber'
    cases cs with
    | nil =>
      have hdigit : c.isDigit := by simpa using hnumber
      simp [hdigit]
    | cons => exact hnumber
  split at h
  next hquote =>
    rw [if_pos hquote]
    split at h
    next m hm =>
      obtain ⟨k,_,_,hs⟩ := stringLength_append hm
      rw [hsplit k,hs]
      exact ⟨_,rfl⟩
    next => cases h
  next hquote =>
  rw [if_neg hquote]
  split at h
  next htemplate =>
    rw [if_pos htemplate]
    split at h
    next m hm =>
      obtain ⟨k,_,_,_,hs⟩ := templateLength_append hm
      rw [hsplit k,hs]
      exact ⟨_,rfl⟩
    next => cases h
  next htemplate =>
  rw [if_neg htemplate]
  split at h
  next p hp =>
    obtain ⟨q,hq⟩ := Option.isSome_iff_exists.mp (punctAt_append (Option.isSome_of_mem hp) more)
    rw [List.cons_append] at hq
    rw [hq]
    exact ⟨_,rfl⟩
  next => cases h

/-- A text at which no token can be read does not begin with any. -/
theorem lexeme_eq_error (h : lexeme c cs = .error fault) (hk : isLexical kind) :
    ¬ kind.text.toList <+: c :: cs := by
  rintro ⟨more,hmore⟩
  obtain ⟨d,ds,htext,_,hlexeme⟩ := isLexical_iff.mp hk
  rw [htext,List.cons_append] at hmore
  obtain ⟨rfl,rfl⟩ := List.cons.inj hmore
  obtain ⟨found,hfound⟩ := lexeme_extends hlexeme more
  cases h.symm.trans hfound

/-- A text that begins at byte `n` and cannot be divided into tokens, with the place that is to blame:
the beginning of a comment that never ends, or that of characters that are no gap and that no token
begins, after any number of gaps and tokens. -/
inductive Stumbles : Nat → List Char → Nat → Prop
  | comment {n : Nat} {gap body : List Char} (taken : Trivia ('/' :: '*' :: body) gap)
      (unclosed : ¬ ['*','/'] <:+: body) : Stumbles n (gap ++ '/' :: '*' :: body) (n + width gap)
  | token {n : Nat} {gap : List Char} {c : Char} {rest : List Char} (taken : Trivia (c :: rest) gap)
      (solid : isSolid (c :: rest))
      (unread : ∀ kind, isLexical kind → ¬ kind.text.toList <+: c :: rest) :
      Stumbles n (gap ++ c :: rest) (n + width gap)
  | later {n m : Nat} {gap rest : List Char} {kind : TokenKind}
      (taken : Trivia (kind.text.toList ++ rest) gap) (lexical : isLexical kind)
      (ends : kind.EndsBefore rest)
      (more : Stumbles (n + width gap + width kind.text.toList) rest m) :
      Stumbles n (gap ++ (kind.text.toList ++ rest)) m

theorem scanFrom_stumbles {e : SyntaxError} (h : scanFrom n cs = .error e) :
    Stumbles n cs e.offset := by
  fun_induction scanFrom n cs with
  | case1 n cs m hm =>
    cases h
    obtain ⟨gap,body,rfl,rfl,htrivia,hopen⟩ := gap_unclosed hm
    rw [List.take_left]
    exact .comment htrivia hopen
  | case2 => cases h
  | case3 n cs g hg start c rest hd fault hl =>
    cases h
    have hsolid := isSolid_drop_gap hg
    have htaken := gap_trivia (gap_split hg)
    have hcs := List.take_append_drop g.length cs
    rw [hd] at hsolid htaken hcs
    conv => rw [← hcs]
    exact .token htaken hsolid fun _ hk => lexeme_eq_error hl hk
  | case4 n cs g hg start c rest hd kind k hl stop e hs =>
    rename_i ih
    cases h
    have hsolid := isSolid_drop_gap hg
    have htaken := gap_trivia (gap_split hg)
    have hrest : kind.text.toList ++ rest.drop k = c :: rest := by
      rw [(lexeme_spec hl).1,List.cons_append,List.take_append_drop]
    have hcs : cs.take g.length ++ (kind.text.toList ++ rest.drop k) = cs := by
      rw [hrest,← hd,List.take_append_drop]
    have hstop : stop = start + width kind.text.toList := by rw [(lexeme_spec hl).1]
    have hmore := ih hs
    rw [hd] at hsolid htaken
    rw [← hrest] at htaken
    rw [hstop] at hmore
    conv => rw [← hcs]
    exact .later htaken (isLexical_of_lexeme hsolid hl) (lexeme_endsBefore hl) hmore
  | case5 => cases h

/-- The place to blame is one between two characters of the text. -/
theorem Stumbles.exists_before (h : Stumbles n cs m) :
    ∃ before, before <+: cs ∧ m = n + width before := by
  induction h with
  | comment | token => exact ⟨_,List.prefix_append _ _,rfl⟩
  | @later n m gap rest kind _ _ _ _ ih =>
    obtain ⟨before,hbefore,rfl⟩ := ih
    refine ⟨gap ++ (kind.text.toList ++ before),?_,by simp [Nat.add_assoc]⟩
    exact (List.prefix_append_right_inj _).mpr ((List.prefix_append_right_inj _).mpr hbefore)

/-- A token begins between two characters of the text. -/
theorem exists_before {tokens : List Token} {t : Token} (hs : scan cs = .ok tokens)
    (ht : t ∈ tokens) : ∃ before, before <+: cs ∧ t.span.start = width before := by
  obtain ⟨front,back,rfl⟩ := List.append_of_mem ht
  obtain ⟨before,gap,after,rfl,_,hspan,_,_⟩ := (scanFrom_divided hs).parts rfl
  refine ⟨before ++ gap,?_,?_⟩
  · rw [List.append_assoc]
    exact List.prefix_append _ _
  · rw [hspan,Nat.zero_add]

end Token

/-- The parsing of some tokens gives up at one of them, and what it refuses begins there or at a token
before it. -/
structure GivesUp (tokens : List Token) (e : SyntaxError) (halt : Grammar.Halt) : Prop where
  halts : ∃ first others, tokens = first :: others ∧ Grammar.Halts first others halt
  error : halt.error = e
  unconsumed : halt.place.rest <:+ tokens
  start : ∃ token ∈ tokens, e.offset = token.span.start
  le_start : e.offset ≤ halt.place.current.span.start

/-- The text that a refused source begins with, and what it is refused for: the bytes after it, a
comment or a token that cannot be read in it, or the order of its tokens. -/
theorem parseSource_refused {content : ByteArray} {e : SyntaxError}
    (h : parseSource content = .error e) :
    ∃ cs : List Char, Longest content.data.toList cs ∧
      (encode cs ≠ content.data.toList ∧ e.offset = width cs ∨
        encode cs = content.data.toList ∧ (Token.scan cs = .error e ∨
          ∃ tokens halt, Token.scan cs = .ok tokens ∧ GivesUp tokens e halt)) := by
  rcases parseSource_eq_error h with ⟨-,hn⟩ | ⟨cs,hcs,hs | ⟨first,others,hs,hp⟩⟩
  · obtain ⟨hoffset,hne⟩ := decode_eq_error hn
    exact ⟨_,longest_decodeFrom content,.inl ⟨hne,hoffset⟩⟩
  · obtain ⟨hlongest,hbytes⟩ := longest_of_decode hcs
    exact ⟨cs,hlongest,.inr ⟨hbytes,.inl hs⟩⟩
  · obtain ⟨hlongest,hbytes⟩ := longest_of_decode hcs
    obtain ⟨halt,hhalts,rfl,hr⟩ := Grammar.parseTokens_refusal (Token.scanFrom_spec hs).1 hp
    exact ⟨cs,hlongest,.inr ⟨hbytes,.inr ⟨_,halt,hs,⟨first,others,rfl,hhalts⟩,rfl,
      hr.within.suffix,hr.start,hr.le_start⟩⟩⟩

/-- What is reported of a source that cannot be parsed is one offense, no later than its end. -/
theorem lintSource_offset {content : ByteArray} {e : SyntaxError}
    (h : parseSource content = .error e) (he : e.offset ≤ content.size) (path : String) :
    ∃ d : Diagnostic, d.copName = syntaxCop.name ∧
      d.location.AtOrBefore (SourceFile.location ⟨path,content⟩ content.size) ∧
      lintSource {} .default {} ⟨path,content⟩ = .ok ⟨[d],1⟩ ∧
      ∀ plan : Plan, plan.inspect ⟨path,content⟩ = [] ∨
        ∃ severity?, plan.inspect ⟨path,content⟩ = [d.withSeverity severity?] := by
  have hselects : Config.selects {} [] [] syntaxCop := rfl
  exact ⟨syntaxOffense ⟨path,content⟩ e,rfl,SourceFile.locate_mono he,lintSource_refused hselects h,
    fun plan => plan.inspect_error h⟩

/-- Where a source is refused. The place is one between two characters of the longest text that the
source begins with, and its end if there are bytes after it. If the text cannot be divided into
tokens, a comment or a token begins there that cannot be read. Otherwise a token begins there, the end
of input perhaps, which is no later than the first token that the parser has not passed. So the one
offense that is reported has a line and a column no later than those of the end. -/
theorem parseSource_offset {content : ByteArray} {e : SyntaxError}
    (h : parseSource content = .error e) :
    ∃ cs : List Char, Longest content.data.toList cs ∧
      (∃ before, before <+: cs ∧ e.offset = width before) ∧ e.offset ≤ content.size ∧
      (encode cs ≠ content.data.toList → e.offset = width cs) ∧
      (encode cs = content.data.toList →
        (∀ refused, Token.scan cs = .error refused → e = refused ∧ Token.Stumbles 0 cs e.offset) ∧
        ∀ tokens, Token.scan cs = .ok tokens → ∃ halt, GivesUp tokens e halt) ∧
      ∀ path : String, ∃ d : Diagnostic, d.copName = syntaxCop.name ∧
        d.location.AtOrBefore (SourceFile.location ⟨path,content⟩ content.size) ∧
        lintSource {} .default {} ⟨path,content⟩ = .ok ⟨[d],1⟩ ∧
        ∀ plan : Plan, plan.inspect ⟨path,content⟩ = [] ∨
          ∃ severity?, plan.inspect ⟨path,content⟩ = [d.withSeverity severity?] := by
  obtain ⟨cs,hlongest,hcause⟩ := parseSource_refused h
  have hbefore : ∃ before, before <+: cs ∧ e.offset = width before := by
    rcases hcause with ⟨_,hoffset⟩ | ⟨_,hs | ⟨tokens,halt,hs,hgives⟩⟩
    · exact ⟨cs,List.prefix_rfl,hoffset⟩
    · simpa using (Token.scanFrom_stumbles hs).exists_before
    · obtain ⟨token,htoken,hstart⟩ := hgives.start
      rw [hstart]
      exact Token.exists_before hs htoken
  have hsize : e.offset ≤ content.size := by
    obtain ⟨before,⟨after,rfl⟩,hoffset⟩ := hbefore
    have hlength := hlongest.begins.length_le
    rw [length_encode,width_append,Array.length_toList,ByteArray.size_data] at hlength
    omega
  refine ⟨cs,hlongest,hbefore,hsize,fun hne => ?_,
    fun heq => ⟨fun refused hr => ?_,fun tokens ht => ?_⟩,lintSource_offset h hsize⟩
  · rcases hcause with ⟨_,hoffset⟩ | ⟨heq,_⟩
    · exact hoffset
    · exact absurd heq hne
  · rcases hcause with ⟨hne,_⟩ | ⟨_,hs | ⟨tokens,halt,hs,_⟩⟩
    · exact absurd heq hne
    · exact ⟨Except.error.inj (hs.symm.trans hr),Token.scanFrom_stumbles hs⟩
    · cases hs.symm.trans hr
  · rcases hcause with ⟨hne,_⟩ | ⟨_,hs | ⟨tokens',halt,hs,hgives⟩⟩
    · exact absurd heq hne
    · cases hs.symm.trans ht
    · obtain rfl := Except.ok.inj (hs.symm.trans ht)
      exact ⟨halt,hgives⟩

/-! An assignment to a sum in brackets. The sign of assignment is the first token that is not passed,
and the place is where the sum begins. -/
namespace Unassignable

def content : ByteArray := "(a+b)=1".toUTF8

theorem parseSource_eq : parseSource content = .error ⟨.assignmentTarget,1⟩ := by cbv

end Unassignable

theorem parseSource_offset_unassignable :
    parseSource Unassignable.content = .error ⟨.assignmentTarget,1⟩ ∧
      ∃ cs : List Char, Longest Unassignable.content.data.toList cs ∧
        (∃ before, before <+: cs ∧ 1 = width before) ∧
        (encode cs = Unassignable.content.data.toList → ∀ tokens, Token.scan cs = .ok tokens →
          ∃ halt, GivesUp tokens ⟨.assignmentTarget,1⟩ halt) := by
  obtain ⟨cs,hlongest,hbefore,_,_,hcause,_⟩ := parseSource_offset Unassignable.parseSource_eq
  exact ⟨Unassignable.parseSource_eq,cs,hlongest,hbefore,fun hbytes => (hcause hbytes).2⟩

end ScriptLint
