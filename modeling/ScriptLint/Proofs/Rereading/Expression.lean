import ScriptLint.Proofs.Rereading.Function

/-! Printed expressions are read again. An expression is followed from the production that reads its
outermost operator up to the one for all expressions, which a closing parenthesis ends. -/
namespace ScriptLint.Grammar

variable {g : Productions} {n : Nat} {s : Surroundings} {c : Cursor} {t : Tree} {k : TokenKind}
  {ws : Words} {inHead : Bool}

section Climbing
variable {b : Outline}

lemma two_le_grip_close : 2 ≤ grip false (.punct .closeParen) := by decide

theorem expression_of_conditional (harrow : c.startsArrow = false)
    (h : ∀ s, Rereads n Tree.outline (conditional g false) s c b (.punct .closeParen :: ws)) :
    Rereads n Tree.outline (expression g false) s c b (.punct .closeParen :: ws) :=
  expression_of_assignment (by decide) (assignment_of_conditional (by decide) harrow h)

theorem expression_of_unary (harrow : c.startsArrow = false)
    (h : ∀ s, Rereads n Tree.outline (unary g) s c b (.punct .closeParen :: ws)) :
    Rereads n Tree.outline (expression g false) s c b (.punct .closeParen :: ws) :=
  expression_of_conditional harrow fun s =>
    conditional_of_binary (by decide) (binary_of_unary (by decide) (h s))

/-- The tokens that an expression without operators may begin with, an opening parenthesis apart. -/
def beginsAtom : TokenKind → Bool
  | .name _ | .number _ | .string _ | .template _ => true
  | .reserved w => w = .kwFunction || w = .kwThis || w = .kwTrue || w = .kwFalse || w = .kwNull
  | .punct p => p = .openBracket || p = .openBrace
  | .endOfInput => false

theorem expression_of_primary (hfirst : beginsAtom c.current.kind) (harrow : c.startsArrow = false)
    (h : ∀ s, Rereads n Tree.outline (primary g) s c b (.punct .closeParen :: ws)) :
    Rereads n Tree.outline (expression g false) s c b (.punct .closeParen :: ws) := by
  refine expression_of_unary harrow fun s => ?_
  have hunary : unaryOperator? c.current.kind = none ∧ updateOperator? c.current.kind = none ∧
      c.current.kind ≠ .reserved .kwNew := by
    revert hfirst
    cases c.current.kind with
    | reserved w => cases w <;> decide
    | punct p => cases p <;> decide
    | _ => simp [beginsAtom,unaryOperator?,updateOperator?]
  exact unary_of_access two_le_grip_close hunary.1 hunary.2.1 fun s =>
    access_of_primary (Nat.le_of_succ_le two_le_grip_close) hunary.2.2 (h s)

end Climbing

/-- Only a name or an opening parenthesis begins an arrow function. -/
theorem startsArrow_eq_false (hname : ∀ x, c.current.kind ≠ .name x)
    (hparen : c.current.kind ≠ .punct .openParen) : c.startsArrow = false := by
  unfold Cursor.startsArrow
  split
  next x hx => exact absurd hx (hname x)
  next hx => exact absurd hx hparen
  next => rfl

theorem expression_of_atom {b : Outline} (hfirst : beginsAtom c.current.kind)
    (hname : ∀ x, c.current.kind ≠ .name x)
    (h : ∀ s, Rereads n Tree.outline (primary g) s c b (.punct .closeParen :: ws)) :
    Rereads n Tree.outline (expression g false) s c b (.punct .closeParen :: ws) := by
  refine expression_of_primary hfirst (startsArrow_eq_false hname fun hparen => ?_) h
  rw [hparen] at hfirst
  contradiction

/-- An expression that begins with another one in parentheses, before a token that is no arrow. -/
theorem startsArrow_of_operand (hk : k ≠ .punct .arrow)
    (hc : c.Faces n (t.printed.operand ++ k :: ws)) : c.startsArrow = false := by
  rw [startsArrow_of_parens hc (balanced_words t)]
  exact beq_eq_false_iff_ne.mpr hk

section Accesses
variable {callee owner key : Tree} {arguments : List Tree} {computed optional : Bool}
  (hg : g.Faithful n)
include hg

theorem computedKey_rereads (ht : key.Grammatical) (he : key.isExpression)
    (hc : c.Faces n (key.printed.operand ++ .punct .closeBracket :: ws)) :
    Rereads n Tree.outline (computedKey g) s c key.outline ws := by
  simp only [computedKey,ends_bind]
  apply (hg.expression ht he (by decide) hc).mono
  rintro u d ⟨hu,hd⟩
  rw [ends_expectPunct,if_pos hd.kind]
  exact ⟨hu,hd.advance⟩

variable (ht : t.Grammatical)
include ht

theorem call_accessTail {u : Tree} {start : Nat} (hs : t.shape = .call callee arguments optional)
    (hu : u.outline = callee.outline) (hk : 1 ≤ grip inHead k)
    (hc : c.Faces n ((if optional then [.punct .optionalDot] else []) ++
      (parens (separated (arguments.map fun t => t.printed.item)) ++ k :: ws))) :
    Rereads n Tree.outline (accessTail g start u) s c t.outline (k :: ws) := by
  have hadmissible := ht.admissible
  rw [hs] at hadmissible
  obtain ⟨_,hitems⟩ := hadmissible
  have hts : ∀ a ∈ arguments, a.Grammatical ∧ a.isItem := fun a ha =>
    ⟨ht.child (by rw [Tree.children,hs]; exact .tail _ ha),hitems a ha⟩
  have hcall (d : Cursor)
      (hd : d.Faces n (parens (separated (arguments.map fun t => t.printed.item)) ++ k :: ws)) :
      Ends TooDeep (argumentList g) s d fun us d =>
        Ends TooDeep (finish start (.call u us optional)) s d fun v e =>
          Rereads n Tree.outline (g.accessTail start v) s e t.outline (k :: ws) := by
    apply (argumentList_rereads hg hts hd.up).mono
    rintro us e ⟨hus,he⟩
    apply (finish_rereads (by rw [hs,Shape.map,Shape.map,hu,hus]) he).mono
    rintro v f ⟨hv,hf⟩
    exact hg.accessTail hk hf ⟨hv,hf⟩
  cases optional with
  | false =>
    have hkind : c.current.kind = .punct .openParen := hc.kind
    simp only [accessTail,ends_bind,ends_current,hkind]
    exact hcall c hc
  | true =>
    have hkind : c.current.kind = .punct .optionalDot := hc.kind
    have hparen : c.advance.current.kind = .punct .openParen := hc.advance.kind
    simp only [accessTail,ends_bind,ends_current,hkind,ends_advance,ends_atPunct,hparen,
      beq_self_eq_true,if_true]
    exact hcall _ hc.advance

theorem member_accessTail {u : Tree} {start : Nat}
    (hs : t.shape = .member owner key computed optional) (hu : u.outline = owner.outline)
    (hk : 1 ≤ grip inHead k)
    (hc : c.Faces n ((if optional then [.punct .optionalDot]
      else if computed then [] else [.punct .dot]) ++ (key.printed.key computed ++ k :: ws))) :
    Rereads n Tree.outline (accessTail g start u) s c t.outline (k :: ws) := by
  have hadmissible := ht.admissible
  rw [hs] at hadmissible
  obtain ⟨_,hkey⟩ := hadmissible
  have hchild : key.Grammatical :=
    ht.child (by rw [Tree.children,hs]; exact .tail _ (.head _))
  have haccess {v : Tree} {d : Cursor} (hv : v.outline = key.outline) (hd : d.Faces n (k :: ws)) :
      Ends TooDeep (finish start (.member u v computed optional)) s d fun w e =>
        Rereads n Tree.outline (g.accessTail start w) s e t.outline (k :: ws) := by
    apply (finish_rereads (by rw [hs,Shape.map,Shape.map,hu,hv]) hd).mono
    rintro w e ⟨hw,he⟩
    exact hg.accessTail hk he ⟨hw,he⟩
  cases computed with
  | false =>
    have hn (d : Cursor) (hd : d.Faces n (key.words ++ k :: ws)) :
        Ends TooDeep propertyName s d fun v e =>
          Ends TooDeep (finish start (.member u v false optional)) s e fun w f =>
            Rereads n Tree.outline (g.accessTail start w) s f t.outline (k :: ws) := by
      apply (propertyName_rereads hkey hd.up).mono
      rintro v e ⟨hv,he⟩
      exact haccess hv he
    cases optional with
    | false =>
      have hkind : c.current.kind = .punct .dot := hc.kind
      simp only [accessTail,ends_bind,ends_current,hkind,ends_advance]
      exact hn _ hc.advance
    | true =>
      have hkind : c.current.kind = .punct .optionalDot := hc.kind
      have hnext := propertyName_kind hkey hc.advance
      simp only [accessTail,ends_bind,ends_current,hkind,ends_advance,ends_atPunct,ends_ite,
        beq_iff_eq,if_neg (hnext _),ends_eatPunct,Bool.false_eq_true,if_false]
      exact hn _ hc.advance
  | true =>
    have hbracket (d : Cursor)
        (hd : d.Faces n (key.printed.operand ++ .punct .closeBracket :: k :: ws)) :
        Ends TooDeep (computedKey g) s d fun v e =>
          Ends TooDeep (finish start (.member u v true optional)) s e fun w f =>
            Rereads n Tree.outline (g.accessTail start w) s f t.outline (k :: ws) := by
      apply (computedKey_rereads hg hchild hkey hd).mono
      rintro v e ⟨hv,he⟩
      exact haccess hv he
    simp only [Printed.key,if_true,brackets,List.cons_append,List.append_assoc,
      List.nil_append] at hc
    cases optional with
    | false =>
      have hkind : c.current.kind = .punct .openBracket := hc.kind
      simp only [accessTail,ends_bind,ends_current,hkind,ends_advance]
      exact hbracket _ hc.advance
    | true =>
      have hkind : c.current.kind = .punct .optionalDot := hc.kind
      have hnext : c.advance.current.kind = .punct .openBracket := hc.advance.kind
      simp only [accessTail,ends_bind,ends_current,hkind,ends_advance,ends_atPunct,ends_ite,
        ends_eatPunct,hnext,if_true]
      exact hbracket _ hc.advance.advance

omit ht in
/-- An access or a call, by what follows its owner. -/
theorem expression_of_accessTail {b : Outline} {vs : Words} (ho : owner.Grammatical)
    (he : owner.isExpression) (hvs : ∃ k vs', vs = k :: vs' ∧ k ≠ .punct .arrow)
    (htail : ∀ {s u d start}, u.outline = owner.outline → d.Faces n vs →
      Rereads n Tree.outline (accessTail g start u) s d b (.punct .closeParen :: ws))
    (hc : c.Faces (n + 1) (owner.printed.operand ++ vs)) :
    Rereads n Tree.outline (expression g false) s c b (.punct .closeParen :: ws) := by
  have harrow : c.startsArrow = false := by
    obtain ⟨k,vs',rfl,hk⟩ := hvs
    exact startsArrow_of_operand hk hc
  have hkind : c.current.kind = .punct .openParen := hc.kind
  refine expression_of_unary harrow fun s => ?_
  refine unary_of_access two_le_grip_close (by rw [hkind]; rfl) (by rw [hkind]; rfl) fun s => ?_
  simp only [access,ends_bind,ends_start,ends_atWord,ends_ite,hkind,beq_iff_eq,reduceCtorEq,
    if_false]
  apply (operand_primary hg ho he hc).mono
  rintro u d ⟨hu,hd⟩
  exact htail hu hd

theorem call_rereads (hs : t.shape = .call callee arguments optional)
    (hc : c.Faces (n + 1) (t.words ++ .punct .closeParen :: ws)) :
    Rereads n Tree.outline (expression g false) s c t.outline (.punct .closeParen :: ws) := by
  have hadmissible := ht.admissible
  rw [hs] at hadmissible
  have hcallee : callee.Grammatical := ht.child (by rw [Tree.children,hs]; exact .head _)
  have hw : t.words = callee.printed.operand ++ ((if optional then [.punct .optionalDot] else []) ++
      parens (separated (arguments.map fun t => t.printed.item))) := by
    rw [Tree.words_of_shape hs]
    simp [Shape.map,Shape.layout,Function.comp_def]
  rw [hw,List.append_assoc,List.append_assoc] at hc
  refine expression_of_accessTail hg hcallee hadmissible.1 ?_ (fun hu hd => ?_) hc
  · cases optional <;> exact ⟨_,_,rfl,by simp⟩
  · exact call_accessTail hg ht hs hu (Nat.le_of_succ_le two_le_grip_close) hd

theorem member_rereads (hs : t.shape = .member owner key computed optional)
    (hc : c.Faces (n + 1) (t.words ++ .punct .closeParen :: ws)) :
    Rereads n Tree.outline (expression g false) s c t.outline (.punct .closeParen :: ws) := by
  have hadmissible := ht.admissible
  rw [hs] at hadmissible
  have howner : owner.Grammatical := ht.child (by rw [Tree.children,hs]; exact .head _)
  have hw : t.words = owner.printed.operand ++ ((if optional then [.punct .optionalDot]
      else if computed then [] else [.punct .dot]) ++ key.printed.key computed) :=
    Tree.words_of_shape hs
  rw [hw,List.append_assoc,List.append_assoc] at hc
  refine expression_of_accessTail hg howner hadmissible.1 ?_ (fun hu hd => ?_) hc
  · cases optional <;> cases computed <;> exact ⟨_,_,rfl,by simp⟩
  · exact member_accessTail hg ht hs hu (Nat.le_of_succ_le two_le_grip_close) hd

theorem construct_rereads (hs : t.shape = .construct callee arguments)
    (hc : c.Faces (n + 1) (t.words ++ .punct .closeParen :: ws)) :
    Rereads n Tree.outline (expression g false) s c t.outline (.punct .closeParen :: ws) := by
  have hadmissible := ht.admissible
  rw [hs] at hadmissible
  obtain ⟨he,hitems⟩ := hadmissible
  have hcallee : callee.Grammatical := ht.child (by rw [Tree.children,hs]; exact .head _)
  have hts : ∀ a ∈ arguments, a.Grammatical ∧ a.isItem := fun a ha =>
    ⟨ht.child (by rw [Tree.children,hs]; exact .tail _ ha),hitems a ha⟩
  have hw : t.words = .reserved .kwNew :: (callee.printed.operand ++
      parens (separated (arguments.map fun t => t.printed.item))) := by
    rw [Tree.words_of_shape hs]
    simp [Shape.map,Shape.layout,Function.comp_def]
  rw [hw,List.cons_append,List.append_assoc] at hc
  have hkind : c.current.kind = .reserved .kwNew := hc.kind
  have hparen : c.advance.current.kind = .punct .openParen := hc.step.kind
  refine expression_of_unary (startsArrow_eq_false (by simp [hkind]) (by simp [hkind])) fun s => ?_
  refine unary_of_access two_le_grip_close (by rw [hkind]; rfl) (by rw [hkind]; rfl) fun s => ?_
  simp only [access,construct,ends_bind,ends_start,ends_atWord,ends_ite,hkind,if_true,
    ends_expectWord,ends_atPunct,hparen,beq_iff_eq,reduceCtorEq,if_false]
  apply (operand_primary hg hcallee he hc.step.up).mono
  rintro u d ⟨hu,hd⟩
  have hopen : d.current.kind = .punct .openParen := hd.kind
  simp only [constructTail,ends_bind,ends_eatPunct,hopen,if_false,ends_ite,Bool.false_eq_true,
    ends_pure,if_true]
  apply (argumentList_rereads hg hts hd.up).mono
  rintro us e ⟨hus,he⟩
  apply (finish_rereads (by rw [hs,Shape.map,Shape.map,hu,hus]) he).mono
  rintro v f ⟨hv,hf⟩
  exact accessTail_ends (hf.kind.symm ▸ Nat.le_of_succ_le two_le_grip_close) ⟨hv,hf⟩

end Accesses

section Operators
variable {argument left right test consequent alternate target value : Tree}

lemma unaryOperator_word (op : UnaryOperator) : unaryOperator? op.word = some op := by
  cases op <;> rfl

lemma updateOperator_punct (op : UpdateOperator) : updateOperator? (.punct op.punct) = some op := by
  cases op <;> rfl

lemma binaryOperator_word (op : BinaryOperator) : binaryOperator? false op.word = some op := by
  cases op <;> rfl

lemma assignmentOperator_punct (op : AssignmentOperator) :
    assignmentOperator? (.punct op.punct) = some op := by
  cases op <;> rfl

variable (hg : g.Faithful n) (ht : t.Grammatical)
include hg ht

theorem unary_rereads {op : UnaryOperator} (hs : t.shape = .unary op argument)
    (hc : c.Faces (n + 1) (t.words ++ .punct .closeParen :: ws)) :
    Rereads n Tree.outline (expression g false) s c t.outline (.punct .closeParen :: ws) := by
  have he := ht.admissible
  rw [hs] at he
  have ha : argument.Grammatical := ht.child (by rw [Tree.children,hs]; exact .head _)
  have hw : t.words = op.word :: argument.printed.operand := Tree.words_of_shape hs
  rw [hw] at hc
  have harrow : c.startsArrow = false := by
    refine startsArrow_eq_false (fun x => ?_) ?_
    all_goals
      rw [hc.kind]
      cases op <;> simp [UnaryOperator.word]
  refine expression_of_unary harrow fun s => nested_ends ?_
  simp only [ends_bind,ends_start,ends_current,hc.kind,unaryOperator_word,ends_advance]
  apply (hg.unary ha he two_le_grip_close hc.step).mono
  rintro u d ⟨hu,hd⟩
  exact finish_rereads (by rw [hs,Shape.map,Shape.map,hu]) hd

theorem update_rereads {op : UpdateOperator} {leading : Bool} (hs : t.shape = .update op leading argument)
    (hc : c.Faces (n + 1) (t.words ++ .punct .closeParen :: ws)) :
    Rereads n Tree.outline (expression g false) s c t.outline (.punct .closeParen :: ws) := by
  have he := ht.admissible
  rw [hs] at he
  have ha : argument.Grammatical := ht.child (by rw [Tree.children,hs]; exact .head _)
  cases leading with
  | true =>
    have hw : t.words = .punct op.punct :: argument.printed.operand := Tree.words_of_shape hs
    rw [hw] at hc
    have harrow : c.startsArrow = false := by
      refine startsArrow_eq_false (fun x => ?_) ?_
      all_goals
        rw [hc.kind]
        cases op <;> simp [UpdateOperator.punct]
    have hunary : unaryOperator? (.punct op.punct) = none := by cases op <;> rfl
    refine expression_of_unary harrow fun s => nested_ends ?_
    simp only [ends_bind,ends_start,ends_current,hc.kind,hunary,updateOperator_punct,
      ends_advance]
    apply (hg.unary ha he two_le_grip_close hc.step).mono
    rintro u d ⟨hu,hd⟩
    exact finish_rereads (by rw [hs,Shape.map,Shape.map,hu]) hd
  | false =>
    have hw : t.words = argument.printed.operand ++ [.punct op.punct] := Tree.words_of_shape hs
    rw [hw,List.append_assoc] at hc
    have hkind : c.current.kind = .punct .openParen := hc.kind
    have hgrip : 1 ≤ grip false (.punct op.punct) := by cases op <;> decide
    have harrow : c.startsArrow = false :=
      startsArrow_of_operand (by cases op <;> simp [UpdateOperator.punct]) hc
    have hunary : unaryOperator? (.punct .openParen) = none := rfl
    have hupdate : updateOperator? (.punct .openParen) = none := rfl
    refine expression_of_unary harrow fun s => nested_ends ?_
    simp only [ends_bind,ends_start,ends_current,hkind,hunary,hupdate]
    apply (access_of_primary hgrip (by simp [hkind]) (operand_primary hg ha he hc)).mono
    rintro u d ⟨hu,hd⟩
    simp only [hd.kind,updateOperator_punct,hd.newline,Bool.false_eq_true,if_false,ends_bind,
      ends_advance]
    exact finish_rereads (by rw [hs,Shape.map,Shape.map,hu]) hd.advance

theorem binary_rereads {op : BinaryOperator} (hs : t.shape = .binary op left right)
    (hc : c.Faces (n + 1) (t.words ++ .punct .closeParen :: ws)) :
    Rereads n Tree.outline (expression g false) s c t.outline (.punct .closeParen :: ws) := by
  have hadmissible := ht.admissible
  rw [hs] at hadmissible
  obtain ⟨hl,hr⟩ := hadmissible
  have hchild {u : Tree} (hu : u = left ∨ u = right) : u.Grammatical :=
    ht.child (by rw [Tree.children,hs]; simpa [Shape.children] using hu)
  have hw : t.words = left.printed.operand ++ op.word :: right.printed.operand :=
    Tree.words_of_shape hs
  rw [hw,List.append_assoc] at hc
  have hgrip : 2 ≤ grip false op.word := by cases op <;> decide
  have harrow : c.startsArrow = false :=
    startsArrow_of_operand (by cases op <;> simp [BinaryOperator.word]) hc
  refine expression_of_conditional harrow fun s => conditional_of_binary (by decide) ?_
  simp only [binary,ends_bind,ends_start]
  apply (operand_unary hg (hchild (.inl rfl)) hl hgrip hc).mono
  rintro u d ⟨hu,hd⟩
  have hleast : ¬ op.precedence < 1 := by cases op <;> decide
  simp only [binaryTail,ends_bind,ends_current,hd.kind,binaryOperator_word,if_neg hleast,
    ends_advance]
  apply (hg.binary (hchild (.inr rfl)) hr (by decide) hd.advance).mono
  rintro v e ⟨hv,he⟩
  apply (finish_rereads (by rw [hs,Shape.map,Shape.map,hu,hv]) he).mono
  rintro w f ⟨hw,hf⟩
  exact hg.binaryTail (by decide) hf ⟨hw,hf⟩

theorem conditional_rereads (hs : t.shape = .conditional test consequent alternate)
    (hc : c.Faces (n + 1) (t.words ++ .punct .closeParen :: ws)) :
    Rereads n Tree.outline (expression g false) s c t.outline (.punct .closeParen :: ws) := by
  have hadmissible := ht.admissible
  rw [hs] at hadmissible
  obtain ⟨htest,hconsequent,halternate⟩ := hadmissible
  have hchild {u : Tree} (hu : u = test ∨ u = consequent ∨ u = alternate) : u.Grammatical :=
    ht.child (by rw [Tree.children,hs]; simpa [Shape.children] using hu)
  have hw : t.words = test.printed.operand ++ .punct .question ::
      (consequent.printed.operand ++ .punct .colon :: alternate.printed.operand) :=
    Tree.words_of_shape hs
  rw [hw,List.append_assoc,List.cons_append,List.append_assoc] at hc
  have harrow : c.startsArrow = false := startsArrow_of_operand (by simp) hc
  refine expression_of_conditional harrow fun s => ?_
  simp only [conditional,ends_bind,ends_start]
  have htest' := operand_unary (s := s) hg (hchild (.inl rfl)) htest
    (by decide : 2 ≤ grip false (.punct .question)) hc
  apply (binary_of_unary (by decide) htest').mono
  rintro u d ⟨hu,hd⟩
  simp only [ends_eatPunct,hd.kind,if_true,ends_bind]
  apply (hg.assignment (hchild (.inr (.inl rfl))) hconsequent (by decide) hd.advance).mono
  rintro v e ⟨hv,he⟩
  simp only [ends_expectPunct,he.kind,if_true]
  apply (hg.assignment (hchild (.inr (.inr rfl))) halternate (by decide) he.advance).mono
  rintro w f ⟨hw,hf⟩
  exact finish_rereads (by rw [hs,Shape.map,Shape.map,hu,hv,hw]) hf

omit hg ht in
lemma isTarget_iff : isTarget t ↔ (∃ x, (t.shape.map fun _ => ()) = .identifier x) ∨
    ∃ computed optional, (t.shape.map fun _ => ()) = .member () () computed optional := by
  unfold isTarget
  cases t.shape <;> simp [Shape.map]

omit hg ht in
lemma isTarget_of_outline {u : Tree} (h : u.outline = t.outline) : isTarget u = isTarget t := by
  rw [Bool.eq_iff_iff,isTarget_iff,isTarget_iff,Tree.shape_of_outline h]

theorem assignment_rereads {op : AssignmentOperator} (hs : t.shape = .assignment op target value)
    (hc : c.Faces (n + 1) (t.words ++ .punct .closeParen :: ws)) :
    Rereads n Tree.outline (expression g false) s c t.outline (.punct .closeParen :: ws) := by
  have hadmissible := ht.admissible
  rw [hs] at hadmissible
  obtain ⟨htarget,he,hvalue⟩ := hadmissible
  have hchild {u : Tree} (hu : u = target ∨ u = value) : u.Grammatical :=
    ht.child (by rw [Tree.children,hs]; simpa [Shape.children] using hu)
  have hw : t.words = target.printed.operand ++ .punct op.punct :: value.printed.operand :=
    Tree.words_of_shape hs
  rw [hw,List.append_assoc] at hc
  have hgrip : 4 ≤ grip false (.punct op.punct) := by cases op <;> decide
  have harrow : c.startsArrow = false :=
    startsArrow_of_operand (by cases op <;> simp [AssignmentOperator.punct]) hc
  refine expression_of_assignment (by decide) (nested_ends ?_)
  simp only [ends_bind,ends_get,harrow,Bool.false_eq_true,if_false,ends_start]
  apply (operand_conditional hg (hchild (.inl rfl)) he hgrip hc).mono
  rintro u d ⟨hu,hd⟩
  simp only [ends_current,hd.kind,assignmentOperator_punct,isTarget_of_outline hu,htarget,
    if_true,ends_bind,ends_advance]
  apply (hg.assignment (hchild (.inr rfl)) hvalue (by decide) hd.advance).mono
  rintro v e ⟨hv,he⟩
  exact finish_rereads (by rw [hs,Shape.map,Shape.map,hu,hv]) he

theorem sequence_rereads {expressions : List Tree} (hs : t.shape = .sequence expressions)
    (hc : c.Faces (n + 1) (t.words ++ .punct .closeParen :: ws)) :
    Rereads n Tree.outline (expression g false) s c t.outline (.punct .closeParen :: ws) := by
  have hadmissible := ht.admissible
  rw [hs] at hadmissible
  obtain ⟨hlength,he⟩ := hadmissible
  have hts : ∀ e ∈ expressions, e.Grammatical ∧ e.isExpression := fun e hmem =>
    ⟨ht.child (by rwa [Tree.children,hs]),he e hmem⟩
  have hw : t.words = separated (expressions.map fun t => t.printed.operand) := by
    rw [Tree.words_of_shape hs]
    simp [Shape.map,Shape.layout,Function.comp_def]
  rw [hw] at hc
  obtain _ | ⟨first,_ | ⟨second,others⟩⟩ := expressions
  · simp at hlength
  · simp at hlength
  have hc' := separated_faces hc
  rw [List.flatMap_map] at hc'
  obtain ⟨hfirst,hfirst'⟩ := hts first (.head _)
  simp only [expression,ends_bind,ends_start]
  apply (operand_assignment hg hfirst hfirst' (five_le_grip_comma _) hc').mono
  rintro u d ⟨hu,hd⟩
  simp only [ends_atPunct,hd.kind,beq_self_eq_true,if_true,ends_bind]
  have hothers : d.Faces n ((second :: others).flatMap (fun t => .punct .comma :: t.printed.operand) ++
      .punct .closeParen :: ws) := hd
  apply (sequenceTail_rereads hg (fun e hmem => hts e (.tail _ hmem)) (by decide) hothers.up).mono
  rintro us e ⟨hus,he⟩
  exact finish_rereads (by rw [hs,Shape.map,Shape.map,List.map_cons,hu,hus]; rfl)
    (he.within hothers)

end Operators

section Atoms
variable (hg : g.Faithful n) (ht : t.Grammatical)

theorem identifier_rereads {x : String} (hs : t.shape = .identifier x) (he : t.isExpression)
    (hc : c.Faces (n + 1) (t.words ++ .punct .closeParen :: ws)) :
    Rereads n Tree.outline (expression g false) s c t.outline (.punct .closeParen :: ws) := by
  have hn : t.isName := by simpa [Tree.isName,Tree.isExpression,hs] using he
  obtain ⟨y,hy,hw⟩ := words_of_isName hn
  rw [hw] at hc
  have harrow : c.startsArrow = false := by
    simp [Cursor.startsArrow,hc.kind,hc.next_kind]
  refine expression_of_primary (by rw [hc.kind]; rfl) harrow fun s => ?_
  simp only [primary,ends_bind,ends_start,ends_current,hc.kind,ends_advance]
  exact finish_rereads (by rw [hy]) hc.step

theorem this_rereads (hs : t.shape = .this)
    (hc : c.Faces (n + 1) (t.words ++ .punct .closeParen :: ws)) :
    Rereads n Tree.outline (expression g false) s c t.outline (.punct .closeParen :: ws) := by
  have hw : t.words = [.reserved .kwThis] := Tree.words_of_shape hs
  rw [hw] at hc
  have hkind : c.current.kind = .reserved .kwThis := hc.kind
  refine expression_of_atom (by rw [hkind]; rfl) (by simp [hkind]) fun s => ?_
  simp only [primary,ends_bind,ends_start,ends_current,hkind,ends_advance]
  exact finish_rereads (by rw [hs]) hc.step

theorem literalAtom_rereads {kind : LiteralKind} {raw : String} (hs : t.shape = .literal kind raw)
    (ha : kind.Admits raw) (hc : c.Faces (n + 1) (t.words ++ .punct .closeParen :: ws)) :
    Rereads n Tree.outline (expression g false) s c t.outline (.punct .closeParen :: ws) := by
  have hw : t.words = [kind.word raw] := Tree.words_of_shape hs
  rw [hw] at hc
  have hkind := hc.kind
  cases kind with
  | number | string | template =>
    simp only [LiteralKind.word] at hkind
    refine expression_of_atom (by rw [hkind]; rfl) (by simp [hkind]) fun s => ?_
    simp only [primary,ends_bind,ends_start,ends_current,hkind]
    exact literal_rereads hs hc
  | null =>
    obtain rfl : raw = "null" := ha
    replace hkind : c.current.kind = .reserved .kwNull := hkind
    refine expression_of_atom (by rw [hkind]; rfl) (by simp [hkind]) fun s => ?_
    simp only [primary,ends_bind,ends_start,ends_current,hkind]
    exact literal_rereads hs hc
  | boolean =>
    rcases ha with rfl | rfl
    · replace hkind : c.current.kind = .reserved .kwTrue := hkind
      refine expression_of_atom (by rw [hkind]; rfl) (by simp [hkind]) fun s => ?_
      simp only [primary,ends_bind,ends_start,ends_current,hkind]
      exact literal_rereads hs hc
    · replace hkind : c.current.kind = .reserved .kwFalse := hkind
      refine expression_of_atom (by rw [hkind]; rfl) (by simp [hkind]) fun s => ?_
      simp only [primary,ends_bind,ends_start,ends_current,hkind]
      exact literal_rereads hs hc

include hg ht

theorem array_rereads {elements : List (Option Tree)} (hs : t.shape = .array elements)
    (hc : c.Faces (n + 1) (t.words ++ .punct .closeParen :: ws)) :
    Rereads n Tree.outline (expression g false) s c t.outline (.punct .closeParen :: ws) := by
  have hadmissible := ht.admissible
  rw [hs] at hadmissible
  have hes : ∀ e ∈ elements.filterMap id, e.Grammatical ∧ e.isItem := fun e hmem =>
    ⟨ht.child (by rwa [Tree.children,hs]),hadmissible e hmem⟩
  have hw : t.words = brackets (elements.flatMap fun e =>
      e.elim [] (fun t => t.printed.item) ++ [.punct .comma]) := by
    rw [Tree.words_of_shape hs]
    simp [Shape.map,Shape.layout,List.flatMap_map,Option.elim_map,Function.comp_def]
  rw [hw,brackets,List.cons_append,List.append_assoc] at hc
  have hkind : c.current.kind = .punct .openBracket := hc.kind
  refine expression_of_atom (by rw [hkind]; rfl) (by simp [hkind]) fun s => ?_
  simp only [primary,array,ends_bind,ends_start,ends_current,hkind,ends_expectPunct,if_true]
  apply (hg.elements hes hc.step).mono
  rintro us d ⟨hus,hd⟩
  rw [ends_advance]
  exact finish_rereads (by rw [hs,Shape.map,Shape.map,hus]) hd.advance

theorem object_rereads {properties : List Tree} (hs : t.shape = .object properties)
    (hc : c.Faces (n + 1) (t.words ++ .punct .closeParen :: ws)) :
    Rereads n Tree.outline (expression g false) s c t.outline (.punct .closeParen :: ws) := by
  have hadmissible := ht.admissible
  rw [hs] at hadmissible
  have hts : ∀ p ∈ properties, p.Grammatical ∧ p.isProperty := fun p hmem =>
    ⟨ht.child (by rwa [Tree.children,hs]),hadmissible p hmem⟩
  have hw : t.words = braces (separated (properties.map Tree.words)) := by
    rw [Tree.words_of_shape hs]
    simp [Shape.map,Shape.layout,Tree.printed,Function.comp_def]
  rw [hw,braces,List.cons_append,List.append_assoc] at hc
  have hkind : c.current.kind = .punct .openBrace := hc.kind
  refine expression_of_atom (by rw [hkind]; rfl) (by simp [hkind]) fun s => ?_
  simp only [primary,object,ends_bind,ends_start,ends_current,hkind,ends_expectPunct,if_true]
  apply (hg.properties hts hc.step).mono
  rintro us d ⟨hus,hd⟩
  rw [ends_advance]
  exact finish_rereads (by rw [hs,Shape.map,Shape.map,hus]) hd.advance

theorem functionExpression_rereads {kind : FunctionKind} {name : Option Tree} {params : List Tree}
    {body : Tree} (hs : t.shape = .function kind name params body) (hk : kind ≠ .declaration)
    (hc : c.Faces (n + 1) (t.words ++ .punct .closeParen :: ws)) :
    Rereads n Tree.outline (expression g false) s c t.outline (.punct .closeParen :: ws) := by
  cases kind with
  | declaration => contradiction
  | expression =>
    have hkind : c.current.kind = .reserved .kwFunction := by
      rw [Tree.words_of_shape hs] at hc
      exact hc.kind
    refine expression_of_atom (by rw [hkind]; rfl) (by simp [hkind]) fun s => ?_
    simp only [primary,ends_bind,ends_start,ends_current,hkind]
    exact function_rereads hg ht hs (by simp) hc
  | arrow =>
    have harrow : c.startsArrow = true := by
      rw [Tree.words_of_shape hs,Shape.map,Shape.layout,List.append_assoc] at hc
      refine startsArrow_of_parens hc (composable_balanced.separated fun p hp => ?_)
      obtain ⟨u,_,rfl⟩ := List.mem_map.mp hp
      exact balanced_words u
    refine expression_of_assignment (by decide) (nested_ends ?_)
    simp only [ends_bind,ends_get,harrow,if_true]
    exact arrowFunction_rereads hg ht hs (by decide) hc

/-- The words of an expression are read as that expression, up to the parenthesis that closes it. -/
theorem words_rereads (he : t.isExpression)
    (hc : c.Faces (n + 1) (t.words ++ .punct .closeParen :: ws)) :
    Rereads n Tree.outline (expression g false) s c t.outline (.punct .closeParen :: ws) := by
  have hadmissible := ht.admissible
  cases hs : t.shape with
  | identifier => exact identifier_rereads hs he hc
  | this => exact this_rereads hs hc
  | literal =>
    rw [hs] at hadmissible
    exact literalAtom_rereads hs hadmissible hc
  | function =>
    refine functionExpression_rereads hg ht hs ?_ hc
    simpa [Tree.isExpression,hs] using he
  | array => exact array_rereads hg ht hs hc
  | object => exact object_rereads hg ht hs hc
  | assignment => exact assignment_rereads hg ht hs hc
  | binary => exact binary_rereads hg ht hs hc
  | unary => exact unary_rereads hg ht hs hc
  | update => exact update_rereads hg ht hs hc
  | conditional => exact conditional_rereads hg ht hs hc
  | call => exact call_rereads hg ht hs hc
  | construct => exact construct_rereads hg ht hs hc
  | member => exact member_rereads hg ht hs hc
  | sequence => exact sequence_rereads hg ht hs hc
  | _ => simp [Tree.isExpression,hs] at he

end Atoms

end ScriptLint.Grammar
