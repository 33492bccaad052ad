import ScriptLint.Proofs.Lexing
import ScriptLint.Proofs.Printing

/-! Words that are written with single spaces in between are read as themselves. A lexeme takes the
same characters whether a space, a line feed or the end of the text follows it. -/
namespace ScriptLint.Token
open Text

/-- Nothing follows, or a space or a line feed does. -/
def Spaced (rest : List Char) : Prop := ∀ c ∈ rest.head?, c = ' ' ∨ c = '\n'

/-- A text that does not begin with a gap. -/
def isSolid : List Char → Bool
  | [] => true
  | c :: cs => !isSpacing c && !(c == '/' && (cs.head? == some '/' || cs.head? == some '*'))

section Gaps
variable {c : Char} {cs rest : List Char} {n : Nat} {newline : Bool}

theorem gapFrom_of_isSolid (h : isSolid cs) :
    gapFrom .between n newline cs = .ok ⟨n,newline⟩ := by
  cases cs with
  | nil => rfl
  | cons c cs =>
    have hline : isLineBreak c = false := by
      by_contra hc
      have hblank := isBlank_of_isLineBreak (Bool.not_eq_false _ ▸ hc)
      simp [isSolid,isSpacing,hblank] at h
    unfold gapFrom
    split <;> simp_all [isSolid]

/-- What is left after a gap does not begin with one. -/
theorem gapFrom_spec {state : GapState} {g : Gap} (h : gapFrom state n newline cs = .ok g) :
    ∃ k, g.length = n + k ∧ isSolid (cs.drop k) := by
  fun_induction gapFrom state n newline cs with
  | case1 n _ _ ih | case2 n _ _ ih | case8 _ _ n _ _ ih =>
    obtain ⟨k,hk,hs⟩ := ih h
    exact ⟨k + 2,by omega,hs⟩
  | case3 n _ _ _ _ _ _ ih | case4 n _ _ _ _ _ _ _ ih | case6 n _ _ _ _ ih | case7 n _ _ _ _ ih
  | case9 _ _ n _ _ _ _ ih =>
    obtain ⟨k,hk,hs⟩ := ih h
    exact ⟨k + 1,by omega,hs⟩
  | case5 =>
    cases h
    refine ⟨0,rfl,?_⟩
    cases ‹List Char› <;> simp_all [isSolid]
    tauto
  | case10 => cases h
  | case11 | case12 =>
    cases h
    exact ⟨0,rfl,rfl⟩

theorem isSolid_drop_gap {g : Gap} (h : gap cs = .ok g) : isSolid (cs.drop g.length) := by
  obtain ⟨k,hk,hsolid⟩ := gapFrom_spec h
  rw [Nat.zero_add] at hk
  rwa [hk]

/-- The first of some characters of a text, when what follows them is spaced out. -/
theorem head_take_append (hr : Spaced rest) (n : Nat) :
    (cs.take n ++ rest).head? = cs.head? ∨ Spaced (cs.take n ++ rest) := by
  cases n with
  | zero => exact .inr hr
  | succ n => cases cs with
    | nil => exact .inr hr
    | cons => exact .inl rfl

/-- No gap appears before a lexeme when what follows it is spaced out. -/
theorem isSolid_append (h : isSolid (c :: cs)) (hr : Spaced rest) (n : Nat) :
    isSolid (c :: (cs.take n ++ rest)) := by
  rcases head_take_append hr n with hhead | hspaced
  · rwa [isSolid,hhead]
  · have hne (d : Char) (hd : d ≠ ' ' ∧ d ≠ '\n') : ((cs.take n ++ rest).head? == some d) = false :=
      beq_eq_false_iff_ne.mpr fun he => (hspaced d he).elim hd.1 hd.2
    simp_all [isSolid]

end Gaps

section Lengths
variable {cs rest : List Char} {n m : Nat}

theorem takeWhile_isWordPart_append (hr : Spaced rest) :
    (cs.takeWhile isWordPart ++ rest).takeWhile isWordPart = cs.takeWhile isWordPart := by
  have hrest : rest.takeWhile isWordPart = [] := by
    cases rest with
    | nil => rfl
    | cons c rest =>
      rcases hr c rfl with rfl | rfl <;> rfl
  rw [List.takeWhile_append_of_pos (List.all_eq_true.mp List.all_takeWhile),hrest,List.append_nil]

theorem numberLength_spaced {hex dotted : Bool} {last : Char} (hr : Spaced rest) :
    numberLength hex dotted last rest = 0 := by
  cases rest with
  | nil => rfl
  | cons c rest => rcases hr c rfl with rfl | rfl <;> rfl

theorem numberLength_append {hex dotted : Bool} {last : Char} (hr : Spaced rest) :
    numberLength hex dotted last cs ≤ cs.length ∧
      numberLength hex dotted last (cs.take (numberLength hex dotted last cs) ++ rest) =
        numberLength hex dotted last cs := by
  fun_induction numberLength hex dotted last cs with
  | case1 | case2 | case5 => exact ⟨Nat.zero_le _,numberLength_spaced hr⟩
  | case3 _ _ _ _ _ _ ih | case4 _ _ _ _ _ _ ih =>
    refine ⟨Nat.succ_le_succ ih.1,?_⟩
    rw [List.take_succ_cons,List.cons_append,numberLength,ih.2]
    simp_all

/-- A string is read up to its end, whatever follows. -/
theorem stringLength_append {quote : Char} (h : stringLength? quote n cs = some m) :
    ∃ k, m = n + k ∧ k ≤ cs.length ∧ ∀ rest, stringLength? quote n (cs.take k ++ rest) = some m := by
  fun_induction stringLength? quote n cs with
  | case1 | case2 | case5 => cases h
  | case3 n c hc d cs ih =>
    obtain ⟨k,hm,hk,hs⟩ := ih h
    refine ⟨k + 2,by omega,Nat.add_le_add_right hk 2,fun rest => ?_⟩
    rw [List.take_succ_cons,List.take_succ_cons,List.cons_append,List.cons_append,stringLength?,
      if_pos hc]
    exact hs rest
  | case4 n c cs hc hq =>
    cases h
    refine ⟨1,rfl,by simp,fun rest => ?_⟩
    rw [List.take_succ_cons,List.cons_append]
    unfold stringLength?
    rw [if_neg hc,if_pos hq]
  | case6 n c cs hc hq hn ih =>
    obtain ⟨k,hm,hk,hs⟩ := ih h
    refine ⟨k + 1,by omega,Nat.add_le_add_right hk 1,fun rest => ?_⟩
    rw [List.take_succ_cons,List.cons_append]
    unfold stringLength?
    rw [if_neg hc,if_neg hq,if_neg hn]
    exact hs rest

theorem templateLength_append {depth : Nat} (h : templateLength? depth n cs = some m) :
    ∃ k, m = n + k ∧ 0 < k ∧ k ≤ cs.length ∧
      ∀ rest, templateLength? depth n (cs.take k ++ rest) = some m := by
  fun_induction templateLength? depth n cs with
  | case1 | case2 => cases h
  | case3 depth n c hc d cs ih =>
    obtain ⟨k,hm,_,hk,hs⟩ := ih h
    refine ⟨k + 2,by omega,by omega,Nat.add_le_add_right hk 2,fun rest => ?_⟩
    rw [List.take_succ_cons,List.take_succ_cons,List.cons_append,List.cons_append,templateLength?,
      if_pos hc]
    exact hs rest
  | case4 depth n c cs hc hq =>
    cases h
    refine ⟨1,rfl,by simp,by simp,fun rest => ?_⟩
    rw [List.take_succ_cons,List.cons_append]
    unfold templateLength?
    rw [if_neg hc,if_pos hq]
  | case5 depth n c hc hq hd cs ih =>
    obtain ⟨k,hm,_,hk,hs⟩ := ih h
    refine ⟨k + 2,by omega,by omega,Nat.add_le_add_right hk 2,fun rest => ?_⟩
    rw [List.take_succ_cons,List.take_succ_cons,List.cons_append,List.cons_append,templateLength?,
      if_neg hc,if_neg hq,if_pos hd]
    exact hs rest
  | case6 depth n c hc hq hd cs hbrace ih =>
    obtain ⟨k,hm,hpos,hk,hs⟩ := ih h
    refine ⟨k + 1,by omega,by omega,Nat.add_le_add_right hk 1,fun rest => ?_⟩
    rw [List.take_succ_cons,List.cons_append]
    unfold templateLength?
    rw [if_neg hc,if_neg hq,if_pos hd]
    -- The next character is one of the template, so that no brace can come up behind it.
    split
    next cs' he =>
      obtain ⟨d,ds,rfl⟩ := List.exists_cons_of_length_pos (Nat.lt_of_lt_of_le hpos hk)
      obtain ⟨k,rfl⟩ := Nat.exists_eq_add_of_lt hpos
      rw [Nat.zero_add,List.take_succ_cons,List.cons_append] at he
      exact absurd (congrArg (· :: ds) (List.cons.inj he).1) (hbrace ds)
    next => exact hs rest
  | case7 _ _ _ _ _ _ _ _ ih | case8 _ _ _ _ _ _ _ _ _ ih =>
    obtain ⟨k,hm,_,hk,hs⟩ := ih h
    refine ⟨k + 1,by omega,by omega,Nat.add_le_add_right hk 1,fun rest => ?_⟩
    rw [List.take_succ_cons,List.cons_append]
    unfold templateLength?
    simp_all
  | case9 depth n c cs hc hq hd ho hcl ih =>
    obtain ⟨k,hm,_,hk,hs⟩ := ih h
    refine ⟨k + 1,by omega,by omega,Nat.add_le_add_right hk 1,fun rest => ?_⟩
    rw [List.take_succ_cons,List.cons_append]
    unfold templateLength?
    rw [if_neg hc,if_neg hq,if_neg hd,if_neg ho,if_neg hcl]
    exact hs rest

end Lengths

section Punctuators
variable {cs ds rest : List Char} {p : Punct}

/-- Characters without blanks in them begin a text or not, whatever is spaced out behind it. -/
theorem isPrefixOf_append (hd : ' ' ∉ ds ∧ '\n' ∉ ds) (hr : Spaced rest) :
    ds.isPrefixOf (cs ++ rest) = ds.isPrefixOf cs := by
  induction ds generalizing cs with
  | nil => simp
  | cons d ds ih =>
    cases cs with
    | nil =>
      cases rest with
      | nil => rfl
      | cons c rest =>
        have hne : d ≠ c := by
          rintro rfl
          rcases hr d rfl with rfl | rfl
          · exact hd.1 (.head _)
          · exact hd.2 (.head _)
        simp [List.isPrefixOf,hne]
    | cons c cs =>
      have hds : ' ' ∉ ds ∧ '\n' ∉ ds := ⟨fun h => hd.1 (.tail _ h),fun h => hd.2 (.tail _ h)⟩
      simp only [List.cons_append,List.isPrefixOf_cons_cons,ih hds]

theorem blank_notMem_text : ∀ p ∈ Punct.all, ' ' ∉ p.text.toList ∧ '\n' ∉ p.text.toList := by
  decide +kernel

theorem leading_text : ∀ p ∈ Punct.all, Punct.leading? p.text.toList = some p := by
  decide +kernel

/-- A punctuator is the longest one that begins its own text. -/
theorem punctAt_text (hr : Spaced rest) : punctAt? (p.text.toList ++ rest) = some p := by
  have hleading : Punct.leading? (p.text.toList ++ rest) = some p := by
    rw [← leading_text p p.mem_all]
    refine congrArg Punct.all.find? (funext fun q => ?_)
    exact isPrefixOf_append (blank_notMem_text q q.mem_all) hr
  unfold punctAt?
  rw [hleading]
  split
  next hp =>
    cases hp
    cases rest with
    | nil => rfl
    | cons c rest => rcases hr c rfl with rfl | rfl <;> rfl
  next => rfl

end Punctuators

section Lexemes
variable {c d : Char} {cs rest : List Char} {kind : TokenKind} {n : Nat}

/-- A digit that comes next came next before. -/
theorem isDigit_head_append (hr : Spaced rest)
    (h : ((cs.take n ++ rest).head?.map Char.isDigit).getD false) :
    (cs.head?.map Char.isDigit).getD false := by
  rcases head_take_append hr n with hhead | hspaced
  · rwa [hhead] at h
  · cases hcs : (cs.take n ++ rest).head? with
    | none => simp [hcs] at h
    | some c =>
      rw [hcs] at h
      rcases hspaced c hcs with rfl | rfl <;> contradiction

/-- A number keeps the letter or digit after its first character. -/
theorem head_number_append {hex dotted : Bool} {last : Char} (hd : d.isAlphanum) (hr : Spaced rest) :
    (cs.take (numberLength hex dotted last cs) ++ rest).head? = some d ↔ cs.head? = some d := by
  have hne : ¬ (rest.head? = some d) := by
    intro he
    rcases hr d he with rfl | rfl <;> contradiction
  cases cs with
  | nil => simpa using hne
  | cons e cs =>
    by_cases he : e = d
    · subst he
      have hdot : (e == '.') = false := by
        refine beq_eq_false_iff_ne.mpr ?_
        rintro rfl
        contradiction
      simp [numberLength,hd,hdot]
    · cases numberLength hex dotted last (e :: cs) with
      | zero => simp [hne,he]
      | succ n => simp

/-- What makes a number hexadecimal is part of it. -/
theorem lexeme_number_append {hex : Bool} (he : ¬ (c == '\\') = true) (hw : ¬ isWordStart c = true)
    (hc : (c.isDigit || (c == '.' && (cs.head?.map Char.isDigit).getD false)) = true)
    (hx : (c == '0' && (cs.head? == some 'x' || cs.head? == some 'X')) = hex)
    (hn : numberLength hex (c == '.') c cs = n) (hr : Spaced rest) :
    n ≤ cs.length ∧
      lexeme c (cs.take n ++ rest) = .ok (.number (String.ofList (c :: cs.take n)),n) := by
  have hstable : numberLength hex (c == '.') c cs ≤ cs.length ∧
      numberLength hex (c == '.') c (cs.take (numberLength hex (c == '.') c cs) ++ rest) =
        numberLength hex (c == '.') c cs := numberLength_append hr
  rw [hn] at hstable
  have hhead {d : Char} (hd : d.isAlphanum) :
      (cs.take n ++ rest).head? = some d ↔ cs.head? = some d := by
    rw [← hn]
    exact head_number_append hd hr
  have hx' : (c == '0' && ((cs.take n ++ rest).head? == some 'x' ||
      (cs.take n ++ rest).head? == some 'X')) = hex := by
    rw [← hx,Bool.eq_iff_iff]
    simp only [Bool.and_eq_true,Bool.or_eq_true,beq_iff_eq,hhead (d := 'x') rfl,
      hhead (d := 'X') rfl]
  have hc' : (c.isDigit ||
      (c == '.' && ((cs.take n ++ rest).head?.map Char.isDigit).getD false)) = true := by
    simp only [Bool.or_eq_true,Bool.and_eq_true] at hc ⊢
    refine hc.imp_right fun hdot => ⟨hdot.1,?_⟩
    cases hcs : cs.head? with
    | none => simp [hcs] at hdot
    | some d =>
      have hd : d.isDigit := by simpa [hcs] using hdot.2
      rw [(hhead (by simp [Char.isAlphanum,hd])).mpr hcs]
      exact hd
  refine ⟨hstable.1,?_⟩
  unfold lexeme
  rw [if_neg he,if_neg hw,if_pos hc',hx']
  dsimp only
  rw [hstable.2]
  simp [hstable.1]

/-- A lexeme is read again from its own characters, when what follows is spaced out. -/
theorem lexeme_append (h : lexeme c cs = .ok (kind,n)) (hr : Spaced rest) :
    n ≤ cs.length ∧ lexeme c (cs.take n ++ rest) = .ok (kind,n) := by
  have htext := (lexeme_spec h).1
  unfold lexeme at h
  split at h
  · cases h
  next hescape =>
  split at h
  next hword =>
    cases h
    refine ⟨(List.takeWhile_sublist _).length_le,?_⟩
    have htake : cs.take (cs.takeWhile isWordPart).length = cs.takeWhile isWordPart :=
      (List.prefix_iff_eq_take.mp (List.takeWhile_prefix _)).symm
    unfold lexeme
    rw [if_neg hescape,if_pos hword]
    simp [htake,takeWhile_isWordPart_append hr]
  next hword =>
  split at h
  next hnumber =>
    cases h
    exact lexeme_number_append hescape hword hnumber rfl rfl hr
  next hnumber =>
  have hnumber' : ¬ (c.isDigit ||
      (c == '.' && ((cs.take n ++ rest).head?.map Char.isDigit).getD false)) = true := by
    intro hc
    refine hnumber ?_
    simp only [Bool.or_eq_true,Bool.and_eq_true] at hc ⊢
    exact hc.imp_right fun hc => ⟨hc.1,isDigit_head_append hr hc.2⟩
  split at h
  next hquote =>
    split at h
    next m hm =>
      cases h
      obtain ⟨k,hk,hle,hs⟩ := stringLength_append hm
      rw [Nat.zero_add] at hk
      subst hk
      refine ⟨hle,?_⟩
      unfold lexeme
      rw [if_neg hescape,if_neg hword,if_neg hnumber',if_pos hquote,hs]
      simp [hle]
    next => cases h
  next hquote =>
  split at h
  next htemplate =>
    split at h
    next m hm =>
      cases h
      obtain ⟨k,hk,_,hle,hs⟩ := templateLength_append hm
      rw [Nat.zero_add] at hk
      subst hk
      refine ⟨hle,?_⟩
      unfold lexeme
      rw [if_neg hescape,if_neg hword,if_neg hnumber',if_neg hquote,if_pos htemplate,hs]
      simp [hle]
    next => cases h
  next htemplate =>
  split at h
  next p hp =>
    cases h
    have hlength : p.text.length = min (p.text.length - 1) cs.length + 1 := by
      have hlength := congrArg List.length htext
      simpa [TokenKind.text,String.length_toList] using hlength
    refine ⟨by omega,?_⟩
    unfold lexeme
    rw [if_neg hescape,if_neg hword,if_neg hnumber',if_neg hquote,if_neg htemplate,
      ← List.cons_append,← htext,TokenKind.text,punctAt_text hr]
  next => cases h

end Lexemes

/-- A token that its own text is read as. -/
def isLexical (k : TokenKind) : Bool :=
  match k.text.toList with
  | [] => false
  | c :: cs => isSolid (c :: cs) && (lexeme c cs).toOption == some (k,cs.length)

section Words
variable {c : Char} {cs rest : List Char} {k : TokenKind} {ks : Words} {n : Nat}

theorem spaced_nil : Spaced [] := by simp [Spaced]

theorem isLexical_iff : isLexical k ↔
    ∃ c cs, k.text.toList = c :: cs ∧ isSolid (c :: cs) ∧ lexeme c cs = .ok (k,cs.length) := by
  unfold isLexical
  cases k.text.toList with
  | nil => simp
  | cons c cs => cases h : lexeme c cs <;> simp [h,Except.toOption]

theorem isLexical_of_lexeme (hs : isSolid (c :: cs)) (h : lexeme c cs = .ok (k,n)) :
    isLexical k := by
  obtain ⟨hn,hlexeme⟩ := lexeme_append h spaced_nil
  have hsolid := isSolid_append hs spaced_nil n
  rw [List.append_nil] at hlexeme hsolid
  refine isLexical_iff.mpr ⟨c,cs.take n,(lexeme_spec h).1,hsolid,?_⟩
  rwa [List.length_take_of_le hn]

/-- All tokens of a text are lexical. -/
theorem scanFrom_lexical {tokens : List Token} (h : scanFrom n cs = .ok tokens) :
    ∀ t ∈ tokens, t.kind = .endOfInput ∨ isLexical t.kind := by
  fun_induction scanFrom n cs generalizing tokens with
  | case1 | case3 | case4 => cases h
  | case2 =>
    cases h
    simp
  | case5 n cs g hg start c rest hd kind m hl stop more hs =>
    rename_i ih
    cases h
    have hsolid := isSolid_drop_gap hg
    rw [hd] at hsolid
    intro t ht
    rcases List.mem_cons.mp ht with rfl | ht
    · exact .inr (isLexical_of_lexeme hsolid hl)
    · exact ih hs t ht

/-- What a word is followed by. -/
theorem spell_cons (k : TokenKind) (ks : Words) :
    ∃ lead, (lead = [] ∨ lead = [' ']) ∧ spell (k :: ks) = k.text.toList ++ (lead ++ spell ks) ∧
      Spaced (lead ++ spell ks) := by
  cases ks with
  | nil => exact ⟨[],.inl rfl,by simp [spell],spaced_nil⟩
  | cons => exact ⟨[' '],.inr rfl,rfl,by simp [Spaced]⟩

/-- Characters that are taken for a gap in front of a text without one. -/
def Leads (lead : List Char) (newline : Bool) : Prop :=
  ∀ cs, isSolid cs → gap (lead ++ cs) = .ok ⟨lead.length,newline⟩

theorem leads_space {lead : List Char} (hl : lead = [] ∨ lead = [' ']) : Leads lead false := by
  intro cs hs
  rcases hl with rfl | rfl
  · exact gapFrom_of_isSolid hs
  · exact gapFrom_of_isSolid (n := 1) hs

theorem scanFrom_end {lead : List Char} {newline : Bool} (hl : Leads lead newline) (n : Nat) :
    scanFrom n lead = .ok [⟨.endOfInput,⟨n + width lead,n + width lead⟩,newline⟩] := by
  have hgap := hl [] rfl
  rw [List.append_nil] at hgap
  rw [scanFrom,hgap]
  dsimp only
  split
  next => rw [List.take_length]
  next hd => simp at hd

/-- One token that its own text is read as, and what is read after it. -/
theorem scanFrom_append {lead : List Char} {newline : Bool} {tokens : List Token}
    (hl : Leads lead newline) (hk : isLexical k) (hr : Spaced rest)
    (h : scanFrom (n + width lead + width k.text.toList) rest = .ok tokens) :
    scanFrom n (lead ++ (k.text.toList ++ rest)) =
      .ok (⟨k,⟨n + width lead,n + width lead + width k.text.toList⟩,newline⟩ :: tokens) := by
  obtain ⟨c,cs,htext,hsolid,hlexeme⟩ := isLexical_iff.mp hk
  have hsolid' := isSolid_append hsolid hr cs.length
  have hlexeme' := (lexeme_append hlexeme hr).2
  rw [List.take_length] at hsolid' hlexeme'
  rw [htext] at h
  rw [htext,List.cons_append,scanFrom,hl _ hsolid']
  dsimp only
  split
  next hd => simp at hd
  next c' rest' hd =>
    rw [List.drop_left] at hd
    obtain ⟨rfl,rfl⟩ := List.cons.inj hd
    rw [hlexeme']
    dsimp only
    rw [List.drop_left,List.take_left,List.take_left,h]

/-- Spelled words are read as the words they are, on one line. -/
theorem scanFrom_spell {lead : List Char} (hks : ∀ k ∈ ks, isLexical k) (hl : lead = [] ∨ lead = [' '])
    (n : Nat) : ∃ tokens, scanFrom n (lead ++ spell ks) = .ok tokens ∧
      tokens.map Token.kind = ks ++ [.endOfInput] ∧ ∀ t ∈ tokens, t.newlineBefore = false := by
  induction ks generalizing lead n with
  | nil =>
    rw [spell,List.append_nil]
    exact ⟨_,scanFrom_end (leads_space hl) n,rfl,by simp⟩
  | cons k ks ih =>
    obtain ⟨lead',hl',hspell,hspaced⟩ := spell_cons k ks
    obtain ⟨tokens,hscan,hkinds,hline⟩ := ih (fun k hk => hks k (.tail _ hk)) hl' _
    rw [hspell]
    refine ⟨_,scanFrom_append (leads_space hl) (hks k (.head _)) hspaced hscan,?_,?_⟩
    · rw [List.map_cons,hkinds,List.cons_append]
    · exact List.forall_mem_cons.mpr ⟨rfl,hline⟩

theorem isLexical_punct (p : Punct) : isLexical (.punct p) := by
  have hall : ∀ p ∈ Punct.all, isLexical (.punct p) := by decide +kernel
  exact hall p p.mem_all

theorem isLexical_reserved (w : Keyword) : isLexical (.reserved w) := by
  have hall : ∀ w ∈ Keyword.all, isLexical (.reserved w) := by decide +kernel
  exact hall w w.mem_all

theorem composable_isLexical : Composable fun ws => ∀ k ∈ ws, isLexical k where
  nil := by simp
  append h h' k hk := (List.mem_append.mp hk).elim (h k) (h' k)
  fixed {k} h k' hk' := by
    obtain rfl := List.mem_singleton.mp hk'
    cases k' with
    | punct p => exact isLexical_punct p
    | reserved w => exact isLexical_reserved w
    | name x =>
      have hname : x = "let" ∨ x = "of" := by simpa [TokenKind.isFixed] using h
      rcases hname with rfl | rfl <;> decide +kernel
    | _ => contradiction
  parens h := by simpa [parens,isLexical_punct,or_imp,forall_and] using h
  brackets h := by simpa [brackets,isLexical_punct,or_imp,forall_and] using h
  braces h := by simpa [braces,isLexical_punct,or_imp,forall_and] using h

end Words

end ScriptLint.Token
