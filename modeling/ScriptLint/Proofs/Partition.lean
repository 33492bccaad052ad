import Mathlib
import ScriptLint.Proofs.Spelling

/-! A text falls into its tokens and the gaps before them without anything left over. What a gap may
hold and what may follow a token are said without reading the text: comments are whole, words and
numbers end where they cannot go on, and punctuators are as long as they can be. -/
namespace ScriptLint
open Text

namespace Token

/-- Blanks and whole comments, with `rest` after them. A comment that takes the rest of its line ends
before a line feed, a carriage return or with the text; a delimited one ends where it first can. -/
inductive Trivia (rest : List Char) : List Char → Prop
  | nil : Trivia rest []
  | blank {c : Char} {cs : List Char} (h : isBlank c ∨ c = '\ufeff') (more : Trivia rest cs) :
      Trivia rest (c :: cs)
  | line {body cs : List Char} (inside : ∀ c ∈ body, c ≠ '\n' ∧ c ≠ '\r')
      (stop : ∀ c ∈ (cs ++ rest).head?, c = '\n' ∨ c = '\r') (more : Trivia rest cs) :
      Trivia rest ('/' :: '/' :: (body ++ cs))
  | block {body cs : List Char} (inside : ¬ ['*','/'] <:+: body) (more : Trivia rest cs) :
      Trivia rest ('/' :: '*' :: (body ++ '*' :: '/' :: cs))

/-- What is still to come of a gap in some state. -/
def GapState.Completes (rest : List Char) : GapState → List Char → Prop
  | .between, cs => Trivia rest cs
  | .lineComment, cs => ∃ body more, cs = body ++ more ∧ (∀ c ∈ body, c ≠ '\n' ∧ c ≠ '\r') ∧
      (∀ c ∈ (more ++ rest).head?, c = '\n' ∨ c = '\r') ∧ Trivia rest more
  | .blockComment _ _, cs => ∃ body more, cs = body ++ '*' :: '/' :: more ∧
      ¬ ['*','/'] <:+: body ∧ Trivia rest more

/-- A delimited comment that ends neither at a character nor after it. -/
lemma not_ends_cons {c : Char} {cs : List Char} (hc : ∀ tail, c = '*' → cs = '/' :: tail → False)
    (hcs : ¬ ['*','/'] <:+: cs) : ¬ ['*','/'] <:+: c :: cs := by
  intro hends
  rcases List.infix_cons_iff.mp hends with hbegins | hends
  · obtain ⟨tail,heq⟩ := hbegins
    obtain ⟨rfl,rfl⟩ := List.cons.inj heq
    exact hc tail rfl rfl
  · exact hcs hends

section Steps
variable {rest skipped : List Char} {c : Char} {opened : Nat} {held : Bool}

lemma completes_openLine (h : GapState.lineComment.Completes rest skipped) :
    GapState.between.Completes rest ('/' :: '/' :: skipped) := by
  obtain ⟨body,more,rfl,hinside,hstop,hmore⟩ := h
  exact .line hinside hstop hmore

lemma completes_openBlock (h : (GapState.blockComment opened held).Completes rest skipped) :
    GapState.between.Completes rest ('/' :: '*' :: skipped) := by
  obtain ⟨body,more,rfl,hinside,hmore⟩ := h
  exact .block hinside hmore

lemma isSpacing_of_isLineBreak (h : isLineBreak c) : isSpacing c := by
  simp [isSpacing,isBlank_of_isLineBreak h]

lemma completes_blank (hc : isSpacing c) (h : GapState.between.Completes rest skipped) :
    GapState.between.Completes rest (c :: skipped) :=
  .blank (by simpa [isSpacing] using hc) h

/-- The character that ends the comment is a blank of the gap. -/
lemma completes_endLine (hc : c = '\n' ∨ c = '\r') (h : GapState.between.Completes rest skipped) :
    GapState.lineComment.Completes rest (c :: skipped) := by
  have hblank : isBlank c := by rcases hc with rfl | rfl <;> decide
  exact ⟨[],c :: skipped,rfl,by simp,by simpa using hc,.blank (.inl hblank) h⟩

lemma completes_inLine (hc : c ≠ '\n' ∧ c ≠ '\r') (h : GapState.lineComment.Completes rest skipped) :
    GapState.lineComment.Completes rest (c :: skipped) := by
  obtain ⟨body,more,rfl,hinside,hstop,hmore⟩ := h
  exact ⟨c :: body,more,rfl,List.forall_mem_cons.mpr ⟨hc,hinside⟩,hstop,hmore⟩

lemma completes_endBlock (h : GapState.between.Completes rest skipped) :
    (GapState.blockComment opened held).Completes rest ('*' :: '/' :: skipped) :=
  ⟨[],skipped,rfl,by simp,h⟩

/-- An end at the very beginning of what is left of a comment would have been taken. -/
lemma completes_inBlock {held' : Bool} (hne : ∀ tail, c = '*' → skipped ++ rest = '/' :: tail → False)
    (h : (GapState.blockComment opened held').Completes rest skipped) :
    (GapState.blockComment opened held).Completes rest (c :: skipped) := by
  obtain ⟨body,more,rfl,hinside,hmore⟩ := h
  refine ⟨c :: body,more,rfl,not_ends_cons (fun tail hc hbody => ?_) hinside,hmore⟩
  exact hne _ hc (by rw [hbody]; rfl)

end Steps

/-- From a state on, after `n` characters, what a gap takes ends after `m` of them, before something
of which `P` holds. -/
def GapState.Reaches (P : List Char → Prop) (state : GapState) (n m : Nat) (cs : List Char) : Prop :=
  ∃ skipped rest : List Char, cs = skipped ++ rest ∧ m = n + skipped.length ∧
    state.Completes rest skipped ∧ P rest

/-- A step takes some characters and leaves the others to another state. -/
lemma GapState.Reaches.step {P : List Char → Prop} {state state' : GapState} {n m : Nat}
    {cs : List Char} (taken : List Char) (h : state'.Reaches P (n + taken.length) m cs)
    (hcompletes : ∀ skipped rest, cs = skipped ++ rest → state'.Completes rest skipped →
      state.Completes rest (taken ++ skipped)) : state.Reaches P n m (taken ++ cs) := by
  obtain ⟨skipped,rest,rfl,hm,hmore,hrest⟩ := h
  refine ⟨taken ++ skipped,rest,(List.append_assoc ..).symm,?_,hcompletes _ _ rfl hmore,hrest⟩
  rw [hm,List.length_append,Nat.add_assoc]

/-- What a gap takes of a text completes what was read of it before. -/
theorem gapFrom_completes {state : GapState} {n : Nat} {newline : Bool} {cs : List Char} {g : Gap}
    (h : gapFrom state n newline cs = .ok g) :
    state.Reaches (fun _ => True) n g.length cs := by
  fun_induction gapFrom state n newline cs with
  | case1 n newline cs ih => exact (ih h).step ['/','/'] fun _ _ _ => completes_openLine
  | case2 n newline cs ih => exact (ih h).step ['/','*'] fun _ _ _ => completes_openBlock
  | case3 n newline c cs _ _ hc ih =>
    exact (ih h).step [c] fun _ _ _ => completes_blank (isSpacing_of_isLineBreak hc)
  | case4 n newline c cs _ _ _ hc ih => exact (ih h).step [c] fun _ _ _ => completes_blank hc
  | case5 n newline c cs =>
    cases h
    exact ⟨[],c :: cs,rfl,rfl,.nil,trivial⟩
  | case6 n newline c cs hc ih =>
    exact (ih h).step [c] fun _ _ _ => completes_endLine (by simpa using hc)
  | case7 n newline c cs hc ih =>
    exact (ih h).step [c] fun _ _ _ => completes_inLine (by simpa using hc)
  | case8 opened held n newline cs ih =>
    exact (ih h).step ['*','/'] fun _ _ _ => completes_endBlock
  | case9 opened held n newline c cs hne ih =>
    exact (ih h).step [c] fun _ _ hcs =>
      completes_inBlock fun tail hc htail => hne tail hc (hcs.trans htail)
  | case10 => cases h
  | case11 =>
    cases h
    exact ⟨[],[],rfl,rfl,.nil,trivial⟩
  | case12 =>
    cases h
    exact ⟨[],[],rfl,rfl,⟨[],[],rfl,by simp,by simp,.nil⟩,trivial⟩

lemma gap_split {cs : List Char} {g : Gap} (h : gap cs = .ok g) :
    gap (cs.take g.length ++ cs.drop g.length) = .ok ⟨(cs.take g.length).length,g.newline⟩ := by
  obtain ⟨skipped,rest,rfl,hlength,_⟩ := gapFrom_completes h
  rw [List.take_append_drop,h,hlength,Nat.zero_add,List.take_left,← Nat.zero_add skipped.length,
    ← hlength]

/-- All that a gap takes of a text is blanks and whole comments. -/
theorem gap_trivia {skipped rest : List Char} {newline : Bool}
    (h : gap (skipped ++ rest) = .ok ⟨skipped.length,newline⟩) : Trivia rest skipped := by
  obtain ⟨taken,others,heq,hlength,htrivia,_⟩ := gapFrom_completes h
  obtain ⟨rfl,rfl⟩ := List.append_inj heq (by simpa using hlength)
  exact htrivia

end Token

/-- A question mark with a decimal fraction after it. -/
def Text.BeginsFraction (cs : List Char) : Prop := ∃ d more, d.isDigit ∧ cs = '?' :: '.' :: d :: more

/-- What may follow a token. A word is over where no character of a word comes next. A number is over
where no letter, digit or underscore comes next, nor its first dot, nor the sign of an exponent that
is not hexadecimal. A punctuator is the longest one that its characters and the next ones begin with,
but for a question mark before a fraction. -/
def TokenKind.EndsBefore (rest : List Char) : TokenKind → Prop
  | .reserved _ | .name _ => ∀ c ∈ rest.head?, Token.isWordPart c = false
  | .number s => ∀ c ∈ rest.head?, c.isAlphanum = false ∧ c ≠ '_' ∧ (c = '.' → '.' ∈ s.toList) ∧
      (c = '+' ∨ c = '-' → s.toList.getLast? = some 'e' ∨ s.toList.getLast? = some 'E' →
        ['0','x'] <+: s.toList ∨ ['0','X'] <+: s.toList)
  | .punct p =>
    (BeginsFraction (p.text.toList ++ rest) ∧ p = .question) ∨
      ¬ BeginsFraction (p.text.toList ++ rest) ∧
        ∀ q : Punct, q.text.toList <+: p.text.toList ++ rest → q.text.length ≤ p.text.length
  | .string _ | .template _ | .endOfInput => True

namespace Token
variable {c : Char} {cs : List Char} {kind : TokenKind} {n : Nat}

/-- What comes after all that a number takes. -/
theorem numberLength_stops {hex dotted : Bool} {last : Char} :
    ∀ c ∈ (cs.drop (numberLength hex dotted last cs)).head?,
      c.isAlphanum = false ∧ c ≠ '_' ∧
      (c = '.' → dotted ∨ '.' ∈ cs.take (numberLength hex dotted last cs)) ∧
      (c = '+' ∨ c = '-' →
        (last :: cs.take (numberLength hex dotted last cs)).getLast? = some 'e' ∨
          (last :: cs.take (numberLength hex dotted last cs)).getLast? = some 'E' → hex) := by
  fun_induction numberLength hex dotted last cs with
  | case1 => simp
  | case2 last c cs hdot =>
    obtain rfl : c = '.' := by simpa using hdot
    simp
  | case3 dotted last c cs hdot _ ih =>
    intro d hd
    obtain ⟨halnum,hunder,_,hsign⟩ := ih d hd
    rw [List.take_succ_cons,List.getLast?_cons_cons]
    exact ⟨halnum,hunder,fun _ => .inr (beq_iff_eq.mp hdot ▸ .head _),hsign⟩
  | case4 dotted last c cs _ _ ih =>
    intro d hd
    obtain ⟨halnum,hunder,hfirst,hsign⟩ := ih d hd
    rw [List.take_succ_cons,List.getLast?_cons_cons]
    exact ⟨halnum,hunder,fun he => (hfirst he).imp_right (.tail _),hsign⟩
  | case5 dotted last c cs hdot htaken =>
    intro d hd
    obtain rfl : c = d := by simpa using hd
    simp only [Bool.or_eq_true,Bool.and_eq_true,beq_iff_eq,Bool.not_eq_true',not_or,
      not_and,Bool.not_eq_true,Bool.not_eq_false] at hdot htaken
    obtain ⟨⟨halnum,hunder⟩,hsign⟩ := htaken
    refine ⟨halnum,hunder,fun he => absurd he hdot,fun hs hlast => hsign ⟨hs,?_⟩⟩
    simpa using hlast

theorem endsBefore_ofWord (s : String) :
    (TokenKind.ofWord s).EndsBefore (cs.drop (cs.takeWhile isWordPart).length) := by
  have hstop : ∀ c ∈ (cs.drop (cs.takeWhile isWordPart).length).head?, isWordPart c = false := by
    intro c hc
    have hsplit := List.takeWhile_append_dropWhile (p := isWordPart) (l := cs)
    have hdrop : cs.drop (cs.takeWhile isWordPart).length = cs.dropWhile isWordPart := calc
      _ = (cs.takeWhile isWordPart ++ cs.dropWhile isWordPart).drop
          (cs.takeWhile isWordPart).length := by rw [hsplit]
      _ = cs.dropWhile isWordPart := List.drop_left
    rw [hdrop] at hc
    have hnot := List.head?_dropWhile_not isWordPart cs
    rw [Option.mem_def.mp hc] at hnot
    simpa using hnot
  unfold TokenKind.ofWord
  split <;> exact hstop

/-- What makes a number hexadecimal is a letter, which the number takes. -/
theorem isPrefix_of_hex {dotted : Bool}
    (h : (c == '0' && (cs.head? == some 'x' || cs.head? == some 'X')) = true) :
    ['0','x'] <+: c :: cs.take (numberLength true dotted c cs) ∨
      ['0','X'] <+: c :: cs.take (numberLength true dotted c cs) := by
  simp only [Bool.and_eq_true,Bool.or_eq_true,beq_iff_eq] at h
  obtain ⟨rfl,hx⟩ := h
  cases cs with
  | nil => simp at hx
  | cons d cs =>
    simp only [List.head?_cons,Option.some.injEq] at hx
    rcases hx with rfl | rfl <;> simp [numberLength]

theorem endsBefore_number {hex : Bool}
    (hx : (c == '0' && (cs.head? == some 'x' || cs.head? == some 'X')) = hex) :
    (TokenKind.number (String.ofList (c :: cs.take (numberLength hex (c == '.') c cs)))).EndsBefore
      (cs.drop (numberLength hex (c == '.') c cs)) := by
  intro d hd
  obtain ⟨halnum,hunder,hdot,hsign⟩ := numberLength_stops d hd
  rw [String.toList_ofList]
  refine ⟨halnum,hunder,fun he => ?_,fun hs hlast => ?_⟩
  · rcases hdot he with hfirst | hmem
    · exact beq_iff_eq.mp hfirst ▸ .head _
    · exact .tail _ hmem
  · obtain rfl := hsign hs hlast
    exact isPrefix_of_hex hx

theorem length_sorted : Punct.all.Pairwise fun p q => q.text.length ≤ p.text.length := by
  decide +kernel

/-- The first punctuator that a text begins with is the longest. -/
theorem leading_longest {p q : Punct} (h : Punct.leading? cs = some p) (hq : q.text.toList <+: cs) :
    q.text.length ≤ p.text.length := by
  obtain ⟨_,before,after,hall,hbefore⟩ := List.find?_eq_some_iff_append.mp h
  have hmem := q.mem_all
  have hsorted := length_sorted
  rw [hall] at hmem hsorted
  rcases List.mem_append.mp hmem with hmem | hmem
  · have hnot := hbefore q hmem
    rw [List.isPrefixOf_iff_prefix.mpr hq] at hnot
    cases hnot
  · rcases List.mem_cons.mp hmem with rfl | hmem
    · exact Nat.le_refl _
    · exact List.rel_of_pairwise_cons (List.pairwise_append.mp hsorted).2.1 hmem

/-- The punctuator at the beginning of a fraction is an optional access, by its characters. -/
theorem leading_of_beginsFraction (h : BeginsFraction cs) :
    Punct.leading? cs = some .optionalDot := by
  obtain ⟨d,more,hd,rfl⟩ := h
  rfl

/-- The punctuator at the beginning of a text, by what the text begins with. -/
theorem punctAt_spec {p : Punct} (h : punctAt? cs = some p) :
    (BeginsFraction cs ∧ p = .question) ∨
      ¬ BeginsFraction cs ∧ ∀ q : Punct, q.text.toList <+: cs → q.text.length ≤ p.text.length := by
  unfold punctAt? at h
  split at h
  next hleading =>
    obtain ⟨more,rfl⟩ : Punct.optionalDot.text.toList <+: cs := isPrefix_of_leading hleading
    split at h
    next hdigit =>
      cases h
      cases more with
      | nil => cases hdigit
      | cons d more => exact .inl ⟨⟨d,more,hdigit,rfl⟩,rfl⟩
    next hdigit =>
      cases h
      refine .inr ⟨fun hf => ?_,fun q hq => leading_longest hleading hq⟩
      obtain ⟨d,more,hd,hcs⟩ := hf
      rw [hcs] at hdigit
      exact hdigit hd
  next hne =>
    exact .inr ⟨fun hf => hne (leading_of_beginsFraction hf),fun q hq => leading_longest h hq⟩

theorem lexeme_endsBefore (h : lexeme c cs = .ok (kind,n)) : kind.EndsBefore (cs.drop n) := by
  have htext := (lexeme_spec h).1
  unfold lexeme at h
  split at h
  · cases h
  split at h
  · cases h
    exact endsBefore_ofWord _
  split at h
  · cases h
    exact endsBefore_number rfl
  split at h
  · split at h <;> cases h
    trivial
  split at h
  · split at h <;> cases h
    trivial
  split at h
  · next p hp =>
    cases h
    have hrest : p.text.toList ++ cs.drop (p.text.length - 1) = c :: cs := by
      rw [show p.text.toList = c :: cs.take (p.text.length - 1) from htext,List.cons_append,
        List.take_append_drop]
    rw [TokenKind.EndsBefore,hrest]
    exact punctAt_spec hp
  · cases h

/-- A text that begins at byte `n`, as the gaps and the tokens that it falls into. -/
inductive Divided : Nat → List Char → List Token → Prop
  | last {n : Nat} {gap : List Char} {newline : Bool}
      (taken : Token.gap (gap ++ []) = .ok ⟨gap.length,newline⟩) :
      Divided n gap [⟨.endOfInput,⟨n + width gap,n + width gap⟩,newline⟩]
  | cons {n : Nat} {gap rest : List Char} {newline : Bool} {kind : TokenKind} {tokens : List Token}
      (proper : kind ≠ .endOfInput)
      (taken : Token.gap (gap ++ (kind.text.toList ++ rest)) = .ok ⟨gap.length,newline⟩)
      (ends : kind.EndsBefore rest)
      (more : Divided (n + width gap + width kind.text.toList) rest tokens) :
      Divided n (gap ++ (kind.text.toList ++ rest))
        (⟨kind,⟨n + width gap,n + width gap + width kind.text.toList⟩,newline⟩ :: tokens)

theorem scanFrom_divided {tokens : List Token} (h : scanFrom n cs = .ok tokens) :
    Divided n cs tokens := by
  fun_induction scanFrom n cs generalizing tokens with
  | case1 | case3 | case4 => cases h
  | case2 n cs g hg start =>
    rename_i hd
    cases h
    have hcs := List.take_append_drop g.length cs
    have htaken := gap_split hg
    rw [hd] at hcs htaken
    rw [List.append_nil] at hcs
    conv => rw [← hcs]
    exact .last htaken
  | case5 n cs g hg start c rest hd kind k hl stop more hs =>
    rename_i ih
    cases h
    obtain ⟨htext,hproper,_⟩ := lexeme_spec hl
    have hrest : kind.text.toList ++ rest.drop k = c :: rest := by
      rw [htext,List.cons_append,List.take_append_drop]
    have hcs : cs.take g.length ++ (kind.text.toList ++ rest.drop k) = cs := by
      rw [hrest,← hd,List.take_append_drop]
    have hstop : stop = start + width kind.text.toList := by rw [htext]
    have htaken := gap_split hg
    rw [hd,← hrest] at htaken
    have hmore := ih hs
    rw [hstop] at hmore
    rw [hstop]
    conv => rw [← hcs]
    exact .cons hproper htaken (lexeme_endsBefore hl) hmore

theorem Divided.exists_last {tokens : List Token} (h : Divided n cs tokens) :
    ∃ (front : List Token) (last : Token), tokens = front ++ [last] ∧ last.kind = .endOfInput ∧
      last.span = ⟨n + width cs,n + width cs⟩ ∧ ∀ t ∈ front, t.kind ≠ .endOfInput := by
  induction h with
  | last => exact ⟨[],_,rfl,rfl,rfl,by simp⟩
  | cons hproper _ _ _ ih =>
    obtain ⟨front,last,rfl,hlast,hspan,hfront⟩ := ih
    refine ⟨_ :: front,last,rfl,hlast,?_,List.forall_mem_cons.mpr ⟨hproper,hfront⟩⟩
    rw [hspan]
    simp [Nat.add_assoc]

/-- Where a token of a divided text stands, and what is before and after it. -/
theorem Divided.parts {tokens front back : List Token} {t : Token} (h : Divided n cs tokens)
    (ht : tokens = front ++ t :: back) :
    ∃ before gap after : List Char, cs = before ++ gap ++ t.kind.text.toList ++ after ∧
      front.getLast?.elim n (·.span.stop) = n + width before ∧
      t.span = ⟨n + width (before ++ gap),n + width (before ++ gap ++ t.kind.text.toList)⟩ ∧
      Token.gap (gap ++ (t.kind.text.toList ++ after)) = .ok ⟨gap.length,t.newlineBefore⟩ ∧
      t.kind.EndsBefore after := by
  induction h generalizing front with
  | last htaken =>
    cases front with
    | nil =>
      obtain ⟨rfl,rfl⟩ := List.cons.inj ht
      exact ⟨[],_,[],by simp [TokenKind.text],rfl,by simp [TokenKind.text],htaken,trivial⟩
    | cons first front =>
      have hnil := (List.cons.inj ht).2
      simp at hnil
  | @cons n gap rest newline kind tokens _ htaken hends more ih =>
    cases front with
    | nil =>
      obtain ⟨rfl,rfl⟩ := List.cons.inj ht
      exact ⟨[],gap,rest,by simp,rfl,by simp [Nat.add_assoc],htaken,hends⟩
    | cons first front =>
      obtain ⟨rfl,rfl⟩ := List.cons.inj ht
      obtain ⟨before,gap',after,rfl,hprevious,hspan,htaken',hends'⟩ := ih rfl
      refine ⟨gap ++ (kind.text.toList ++ before),gap',after,by simp,?_,?_,htaken',hends'⟩
      · rw [width_append,width_append,← Nat.add_assoc,← Nat.add_assoc,← hprevious]
        cases front <;> simp [List.getLast?_cons]
      · rw [hspan]
        simp [Nat.add_assoc]

end Token

/-- A text that can be read falls into its tokens and the gaps before them. The end of input comes
last and only there, at the end of the text. The tokens follow one another, each of them is spelled
where it stands, nothing but blanks and whole comments stands between it and the one before it, and
it ends where it must. -/
theorem scan_partition {cs : List Char} {tokens : List Token} (h : Token.scan cs = .ok tokens) :
    (∃ (front : List Token) (last : Token), tokens = front ++ [last] ∧ last.kind = .endOfInput ∧
      last.span = ⟨width cs,width cs⟩ ∧ ∀ t ∈ front, t.kind ≠ .endOfInput) ∧
    tokens.Pairwise (fun t u => t.span.start < u.span.start ∧ t.span.stop ≤ u.span.start) ∧
    ∀ (front : List Token) (t : Token) (back : List Token), tokens = front ++ t :: back →
      (t.kind ≠ .endOfInput → t.span.start < t.span.stop) ∧
      ∃ before gap after : List Char, cs = before ++ gap ++ t.kind.text.toList ++ after ∧
        front.getLast?.elim 0 (·.span.stop) = width before ∧
        t.span = ⟨width (before ++ gap),width (before ++ gap ++ t.kind.text.toList)⟩ ∧
        Token.Trivia (t.kind.text.toList ++ after) gap ∧ t.kind.EndsBefore after := by
  have htokens := (Token.scanFrom_spec h).1
  have hdivided := Token.scanFrom_divided h
  refine ⟨?_,htokens.ordered,fun front t back ht => ⟨fun hk => ?_,?_⟩⟩
  · simpa using hdivided.exists_last
  · exact htokens.start_lt_stop t (ht ▸ List.mem_append_right _ (.head _)) hk
  · obtain ⟨before,gap,after,hcs,hprevious,hspan,htaken,hends⟩ := hdivided.parts ht
    exact ⟨before,gap,after,hcs,by simpa using hprevious,by simpa using hspan,
      Token.gap_trivia htaken,hends⟩

/-! A text in which most tokens touch. The question mark and the number with a fraction are two
tokens, and so are the hexadecimal number and the sign. -/
namespace Touching

def text : List Char := "a//b\n?.5/**/>>>=0xe+".toList

def name : Token := ⟨.name "a",⟨0,1⟩,false⟩

def question : Token := ⟨.punct .question,⟨5,6⟩,true⟩

def others : List Token :=
  [⟨.number ".5",⟨6,8⟩,false⟩,⟨.punct .ushrAssign,⟨12,16⟩,false⟩,⟨.number "0xe",⟨16,19⟩,false⟩,
    ⟨.punct .plus,⟨19,20⟩,false⟩,⟨.endOfInput,⟨20,20⟩,false⟩]

theorem scan_eq : Token.scan text = .ok (name :: question :: others) := by cbv

end Touching

theorem scan_partition_sample :
    Token.scan Touching.text = .ok (Touching.name :: Touching.question :: Touching.others) ∧
      ∃ before gap after : List Char, Touching.text = before ++ gap ++ ['?'] ++ after ∧
        1 = width before ∧
        (⟨5,6⟩ : Span) = ⟨width (before ++ gap),width (before ++ gap ++ ['?'])⟩ ∧
        Token.Trivia (['?'] ++ after) gap ∧ (TokenKind.punct .question).EndsBefore after :=
  ⟨Touching.scan_eq,
    ((scan_partition Touching.scan_eq).2.2 [Touching.name] Touching.question Touching.others rfl).2⟩

end ScriptLint
