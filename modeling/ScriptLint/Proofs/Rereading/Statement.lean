import ScriptLint.Proofs.Rereading.Expression

/-! Printed statements are read again. An `if` without an `else` takes the next `else` for its own,
so what follows a statement that ends with one has to begin in another way. -/
namespace ScriptLint.Grammar

variable {g : Productions} {n : Nat} {s : Surroundings} {c : Cursor} {t : Tree} {k : TokenKind}
  {ws : Words} {inHead : Bool}

theorem endStatement_ends {Q : Unit → Cursor → Prop} (hc : c.Faces n (.punct .semicolon :: ws))
    (hQ : Q () c.advance) : Ends TooDeep endStatement s c Q := by
  simp only [endStatement,ends_bind,ends_eatPunct,hc.kind,if_true]
  exact hQ

section Variables
variable {ts : List Tree} {kind : VariableKind} (hg : g.Faithful n)
include hg

theorem declarator_rereads (ht : t.Grammatical) (hd : t.isDeclarator) (hk : 5 ≤ grip inHead k)
    (hc : c.Faces (n + 1) (t.words ++ k :: ws)) :
    Rereads n Tree.outline (declarator g inHead) s c t.outline (k :: ws) := by
  obtain ⟨id,value,hs⟩ := Tree.covers_of_isKind hd
  have hadmissible := ht.admissible
  rw [hs] at hadmissible
  obtain ⟨hn,hv⟩ := hadmissible
  have hw : t.words = id.words ++ (value.map Tree.printed).elim [] fun v => .punct .assign :: v.operand :=
    Tree.words_of_shape hs
  rw [hw,List.append_assoc] at hc
  simp only [declarator,ends_bind,ends_start]
  apply (bindingName_rereads hn hc).mono
  rintro u d ⟨hu,hd⟩
  cases value with
  | none =>
    have hassign : k ≠ .punct .assign := by
      rintro rfl
      cases inHead <;> exact absurd hk (by decide)
    have hd' : d.Faces n (k :: ws) := hd
    rw [ends_eatPunct,hd'.kind,if_neg hassign]
    exact finish_rereads (by rw [hs,Shape.map,Shape.map,hu]) hd'
  | some value =>
    have hvalue : value.Grammatical := ht.child (by rw [Tree.children,hs]; exact .tail _ (.head _))
    have hd' : d.Faces n (.punct .assign :: (value.printed.operand ++ k :: ws)) := hd
    simp only [ends_eatPunct,hd'.kind,if_true,ends_bind]
    apply (hg.assignment hvalue (hv value rfl) hk hd'.advance).mono
    rintro v e ⟨hv,he⟩
    exact finish_rereads (by rw [hs,Shape.map,Shape.map,hu,Option.map_some,hv]; rfl) he

theorem declarators_rereads (hne : ts ≠ []) (hts : ∀ t ∈ ts, t.Grammatical ∧ t.isDeclarator)
    (hk : 6 ≤ grip inHead k) (hc : c.Faces (n + 1) (separated (ts.map Tree.words) ++ k :: ws)) :
    Rereads n (List.map Tree.outline) (declarators g inHead) s c (ts.map Tree.outline) (k :: ws) := by
  obtain _ | ⟨t,ts⟩ := ts
  · contradiction
  obtain ⟨ht,hd⟩ := hts t (.head _)
  refine separated_rereads (ne_comma hk) (fun hk' hc => ?_) (fun hne hd => ?_) hc
  · refine declarator_rereads hg ht hd ?_ hc
    rcases hk' with rfl | rfl
    · exact five_le_grip_comma inHead
    · exact Nat.le_of_succ_le hk
  · exact hg.declarators hne (fun t ht => hts t (.tail _ ht)) hk hd

/-- A declaration up to its end. -/
theorem declarationHead_rereads (ht : t.Grammatical) (hs : t.shape = .variableDeclaration kind ts)
    (hk : 6 ≤ grip inHead k) (hc : c.Faces (n + 1) (t.words ++ k :: ws)) :
    Rereads n (fun r : Nat × Shape Tree => r.2.map Tree.outline) (declarationHead g kind inHead) s c
      (t.shape.map Tree.outline) (k :: ws) := by
  have hadmissible := ht.admissible
  rw [hs] at hadmissible
  have hw : t.words = kind.word :: separated (ts.map Tree.words) := by
    rw [Tree.words_of_shape hs]
    simp [Shape.map,Shape.layout,Tree.printed,Function.comp_def]
  have hts : ∀ d ∈ ts, d.Grammatical ∧ d.isDeclarator := fun d hmem =>
    ⟨ht.child (by rwa [Tree.children,hs]),hadmissible.2 d hmem⟩
  rw [hw] at hc
  simp only [declarationHead,ends_bind,ends_start,ends_advance]
  apply (hg.declarators hadmissible.1 hts hk hc.step).mono
  rintro us d ⟨hus,hd⟩
  exact ⟨by rw [hs,Shape.map,Shape.map,hus],hd⟩

omit hg in
/-- The word of a declaration is followed by a name. -/
theorem declares_eq_some (ht : t.Grammatical) (hs : t.shape = .variableDeclaration kind ts)
    (hc : c.Faces n (t.words ++ ws)) : c.declares? = some kind := by
  have hadmissible := ht.admissible
  rw [hs] at hadmissible
  obtain ⟨hne,hd⟩ := hadmissible
  obtain _ | ⟨d,ds⟩ := ts
  · contradiction
  have hw : t.words = kind.word :: separated ((d :: ds).map Tree.words) := by
    rw [Tree.words_of_shape hs]
    simp [Shape.map,Shape.layout,Tree.printed,Function.comp_def]
  have hgrammatical : d.Grammatical := ht.child (by rw [Tree.children,hs]; exact .head _)
  rw [hw] at hc
  unfold Cursor.declares?
  rw [hc.kind]
  cases kind with
  | var | const => rfl
  | let_ =>
    obtain ⟨id,value,hshape⟩ := Tree.covers_of_isKind (hd d (.head _))
    have hn := hgrammatical.admissible
    rw [hshape] at hn
    obtain ⟨x,_,hx⟩ := words_of_isName hn.1
    have hnext : c.next.kind = .name x := by
      rw [List.map_cons,separated_cons,Tree.words_of_shape hshape,Shape.map,Shape.layout,
        Tree.printed,hx] at hc
      exact hc.next_kind
    simp [VariableKind.word,hnext]

theorem variableStatement_rereads (ht : t.Grammatical) (hs : t.shape = .variableDeclaration kind ts)
    (hc : c.Faces (n + 1) (t.words ++ .punct .semicolon :: ws)) :
    Rereads n Tree.outline (variableStatement g kind) s c t.outline ws := by
  simp only [variableStatement,ends_bind]
  apply (declarationHead_rereads hg ht hs (by decide) hc).mono
  rintro ⟨start,shape⟩ d ⟨hshape,hd⟩
  exact endStatement_ends hd (finish_rereads hshape hd.advance)

end Variables

/-- A jump that has a word and a label, if any. -/
theorem jump_rereads {w : Keyword} {label : Option Tree} {shape : Option Tree → Shape Tree}
    (hs : t.shape = shape label) (hshape : ∀ label label' : Option Tree,
      label.map Tree.outline = label'.map Tree.outline →
        (shape label).map Tree.outline = (shape label').map Tree.outline)
    (hn : ∀ l ∈ label, l.isName)
    (hc : c.Faces (n + 1) (.reserved w :: (label.elim [] Tree.words ++ .punct .semicolon :: ws))) :
    Rereads n Tree.outline (jump shape) s c t.outline ws := by
  simp only [jump,ends_bind,ends_start,ends_advance,ends_current,hc.step.newline]
  cases label with
  | none =>
    have hd : c.advance.Faces n (.punct .semicolon :: ws) := hc.step
    simp only [hd.kind,ends_bind,ends_pure]
    exact endStatement_ends hd (finish_rereads (by rw [hs]) hd.advance)
  | some label =>
    have hd : c.advance.Faces n (label.words ++ .punct .semicolon :: ws) := hc.step
    obtain ⟨x,hx⟩ := name_kind (hn label rfl) hd
    simp only [hx,Bool.false_eq_true,if_false,ends_bind,ends_map]
    apply (bindingName_rereads (hn label rfl) hd.up).mono
    rintro u e ⟨hu,he⟩
    refine endStatement_ends he (finish_rereads ?_ he.advance)
    rw [hs]
    exact hshape _ _ (by simp [hu])

section Simple
variable {argument : Tree} (hg : g.Faithful n) (ht : t.Grammatical)
include hg

theorem parenthesized_rereads (ht : t.Grammatical) (he : t.isExpression)
    (hc : c.Faces (n + 1) (parens t.printed.operand ++ ws)) :
    Rereads n Tree.outline (parenthesized g) s c t.outline ws :=
  parens_rereads (fun hd => hg.expression ht he (by decide) hd) hc

include ht

theorem expressionStatement_rereads (hs : t.shape = .expressionStatement argument)
    (hc : c.Faces (n + 1) (t.words ++ ws)) :
    Rereads n Tree.outline (expressionStatement g) s c t.outline ws := by
  have he := ht.admissible
  rw [hs] at he
  have ha : argument.Grammatical := ht.child (by rw [Tree.children,hs]; exact .head _)
  have hw : t.words = argument.printed.operand ++ [.punct .semicolon] := Tree.words_of_shape hs
  rw [hw,List.append_assoc] at hc
  simp only [expressionStatement,ends_bind,ends_start]
  apply (operand_expression hg ha he (by decide) hc).mono
  rintro u d ⟨hu,hd⟩
  exact endStatement_ends hd (finish_rereads (by rw [hs,Shape.map,Shape.map,hu]) hd.advance)

theorem throwStatement_rereads (hs : t.shape = .throwStatement argument)
    (hc : c.Faces (n + 1) (t.words ++ ws)) :
    Rereads n Tree.outline (throwStatement g) s c t.outline ws := by
  have he := ht.admissible
  rw [hs] at he
  have ha : argument.Grammatical := ht.child (by rw [Tree.children,hs]; exact .head _)
  have hw : t.words = .reserved .kwThrow :: (argument.printed.operand ++ [.punct .semicolon]) :=
    Tree.words_of_shape hs
  rw [hw,List.cons_append,List.append_assoc] at hc
  simp only [throwStatement,ends_bind,ends_start,ends_advance,ends_current,hc.step.newline,
    Bool.false_eq_true,if_false]
  apply (hg.expression ha he (by decide) hc.step).mono
  rintro u d ⟨hu,hd⟩
  exact endStatement_ends hd (finish_rereads (by rw [hs,Shape.map,Shape.map,hu]) hd.advance)

theorem returnStatement_rereads {argument : Option Tree} (hs : t.shape = .returnStatement argument)
    (hr : t.Returns → s.inFunction = true) (hc : c.Faces (n + 1) (t.words ++ ws)) :
    Rereads n Tree.outline (returnStatement g) s c t.outline ws := by
  have he := ht.admissible
  rw [hs] at he
  have hin : s.inFunction = true := hr (.here (by rw [hs]; rfl))
  have hw : t.words = .reserved .kwReturn ::
      ((argument.map Tree.printed).elim [] (·.operand) ++ [.punct .semicolon]) :=
    Tree.words_of_shape hs
  rw [hw,List.cons_append,List.append_assoc] at hc
  simp only [returnStatement,ends_bind,ends_start,ends_read,hin,if_true,ends_advance,
    ends_current,hc.step.newline]
  cases argument with
  | none =>
    have hd : c.advance.Faces n (.punct .semicolon :: ws) := hc.step
    simp only [hd.kind,beq_self_eq_true,Bool.true_or,if_true,ends_bind,ends_pure]
    exact endStatement_ends hd (finish_rereads (by rw [hs]) hd.advance)
  | some argument =>
    have ha : argument.Grammatical := ht.child (by rw [Tree.children,hs]; exact .head _)
    have hd : c.advance.Faces n (argument.printed.operand ++ .punct .semicolon :: ws) := hc.step
    have hparen : c.advance.current.kind = .punct .openParen := hd.kind
    rw [hparen,ends_ite,if_neg (by simp),ends_bind,ends_map]
    apply (hg.expression ha (he argument rfl) (by decide) hd).mono
    rintro u e ⟨hu,he⟩
    rw [ends_bind]
    refine endStatement_ends he (finish_rereads ?_ he.advance)
    rw [hs,Shape.map,Shape.map,Option.map_some,Option.map_some,hu]

end Simple

theorem Cursor.Faces.kind_ne (hc : c.Faces n ws) (h : ws.head? ≠ some k) (hk : k ≠ .endOfInput) :
    c.current.kind ≠ k := by
  cases ws with
  | nil =>
    rw [hc.kind_nil]
    exact hk.symm
  | cons k' ws =>
    rw [hc.kind]
    exact fun he => h (congrArg some he)

/-- What a statement ends with is a statement. -/
theorem trailing_spec {body : Tree} (ht : t.Grammatical) (h : t.trailing? = some body) :
    body ∈ t.children ∧ body.isStatement ∧ t.isFunction = false := by
  have hadmissible := ht.admissible
  obtain ⟨i,span,shape⟩ := t
  cases shape with
  | ifStatement test consequent alternate =>
    cases alternate with
    | none => cases h
    | some alternate =>
      cases h
      exact ⟨by simp [Tree.children,Tree.shape,Shape.children],hadmissible.2.2.1 _ rfl,rfl⟩
  | forLoop | forIn | forOf =>
    cases h
    exact ⟨by simp [Tree.children,Tree.shape,Shape.children],hadmissible.2.2.2,rfl⟩
  | whileLoop | labeled | withStatement =>
    cases h
    exact ⟨by simp [Tree.children,Tree.shape,Shape.children],hadmissible.2,rfl⟩
  | _ => cases h

section Compound
variable {test body subject consequent label left right : Tree} {alternate : Option Tree}
  (hg : g.Faithful n) (ht : t.Grammatical) (hr : t.Returns → s.inFunction = true)
include hg ht hr

/-- A statement that stands in another one. -/
theorem inner_rereads {vs : Words} (hf : t.isFunction = false) (hmem : body ∈ t.children)
    (hb : body.isStatement) (ho : body.Precedes vs)
    (hc : c.Faces n (body.printed.statement ++ vs)) :
    Rereads n Tree.outline g.statement s c body.outline vs :=
  hg.statement (ht.child hmem) hb (fun h => hr (.under hf hmem h)) ho hc

theorem doWhile_rereads (hs : t.shape = .doWhile body test)
    (hc : c.Faces (n + 1) (t.words ++ ws)) : Rereads n Tree.outline (doWhile g) s c t.outline ws := by
  have hadmissible := ht.admissible
  rw [hs] at hadmissible
  obtain ⟨hbody,htest⟩ := hadmissible
  have hmem {u : Tree} (hu : u = body ∨ u = test) : u ∈ t.children := by
    rw [Tree.children,hs]
    simpa [Shape.children] using hu
  have hw : t.words = .reserved .kwDo :: (body.printed.statement ++
      .reserved .kwWhile :: (parens test.printed.operand ++ [.punct .semicolon])) :=
    Tree.words_of_shape hs
  rw [hw,List.cons_append,List.append_assoc,List.cons_append,List.append_assoc] at hc
  simp only [doWhile,ends_bind,ends_start,ends_advance]
  apply (inner_rereads hg ht hr (by rw [Tree.isFunction,hs]) (hmem (.inl rfl)) hbody
    (by simp [Tree.Precedes]) hc.step).mono
  rintro u d ⟨hu,hd⟩
  rw [ends_expectWord,if_pos hd.kind]
  apply (parenthesized_rereads hg (ht.child (hmem (.inr rfl))) htest hd.advance.up).mono
  rintro v e ⟨hv,he⟩
  rw [ends_eatPunct,if_pos he.kind]
  exact finish_rereads (by rw [hs,Shape.map,Shape.map,hu,hv]) he.advance

variable (ho : t.Precedes ws)
include ho

/-- The statement that a statement ends with. -/
theorem trailing_rereads (hbody : t.trailing? = some body)
    (hc : c.Faces n (body.printed.statement ++ ws)) :
    Rereads n Tree.outline g.statement s c body.outline ws := by
  obtain ⟨hmem,hstatement,hf⟩ := trailing_spec ht hbody
  exact inner_rereads hg ht hr hf hmem hstatement ⟨ho.1,fun h => ho.2 (.under hbody h)⟩ hc

theorem whileLoop_rereads (hs : t.shape = .whileLoop test body)
    (hc : c.Faces (n + 1) (t.words ++ ws)) :
    Rereads n Tree.outline (whileLoop g) s c t.outline ws := by
  have hadmissible := ht.admissible
  rw [hs] at hadmissible
  have htest : test.Grammatical := ht.child (by rw [Tree.children,hs]; exact .head _)
  have hw : t.words = .reserved .kwWhile :: (parens test.printed.operand ++ body.printed.statement) :=
    Tree.words_of_shape hs
  rw [hw,List.cons_append,List.append_assoc] at hc
  simp only [whileLoop,ends_bind,ends_start,ends_advance]
  apply (parenthesized_rereads hg htest hadmissible.1 hc.step.up).mono
  rintro u d ⟨hu,hd⟩
  apply (trailing_rereads hg ht hr ho (by rw [Tree.trailing?,hs]) hd).mono
  rintro v e ⟨hv,he⟩
  exact finish_rereads (by rw [hs,Shape.map,Shape.map,hu,hv]) he

theorem withStatement_rereads (hs : t.shape = .withStatement subject body)
    (hc : c.Faces (n + 1) (t.words ++ ws)) :
    Rereads n Tree.outline (withStatement g) s c t.outline ws := by
  have hadmissible := ht.admissible
  rw [hs] at hadmissible
  have hsubject : subject.Grammatical := ht.child (by rw [Tree.children,hs]; exact .head _)
  have hw : t.words = .reserved .kwWith :: (parens subject.printed.operand ++ body.printed.statement) :=
    Tree.words_of_shape hs
  rw [hw,List.cons_append,List.append_assoc] at hc
  simp only [withStatement,ends_bind,ends_start,ends_advance]
  apply (parenthesized_rereads hg hsubject hadmissible.1 hc.step.up).mono
  rintro u d ⟨hu,hd⟩
  apply (trailing_rereads hg ht hr ho (by rw [Tree.trailing?,hs]) hd).mono
  rintro v e ⟨hv,he⟩
  exact finish_rereads (by rw [hs,Shape.map,Shape.map,hu,hv]) he

theorem labeled_rereads (hs : t.shape = .labeled label body)
    (hc : c.Faces (n + 1) (t.words ++ ws)) :
    Rereads n Tree.outline (labeled g) s c t.outline ws := by
  have hadmissible := ht.admissible
  rw [hs] at hadmissible
  have hw : t.words = label.words ++ .punct .colon :: body.printed.statement :=
    Tree.words_of_shape hs
  rw [hw,List.append_assoc] at hc
  simp only [labeled,ends_bind,ends_start]
  apply (bindingName_rereads hadmissible.1 hc).mono
  rintro u d ⟨hu,hd⟩
  rw [ends_advance]
  apply (trailing_rereads hg ht hr ho (by rw [Tree.trailing?,hs]) hd.advance).mono
  rintro v e ⟨hv,he⟩
  exact finish_rereads (by rw [hs,Shape.map,Shape.map,hu,hv]) he

theorem ifStatement_rereads (hs : t.shape = .ifStatement test consequent alternate)
    (hc : c.Faces (n + 1) (t.words ++ ws)) :
    Rereads n Tree.outline (ifStatement g) s c t.outline ws := by
  have hadmissible := ht.admissible
  rw [hs] at hadmissible
  obtain ⟨htest,hconsequent,_,hclosed⟩ := hadmissible
  have hmem {u : Tree} (hu : u = test ∨ u = consequent) : u ∈ t.children := by
    rw [Tree.children,hs]
    rcases hu with rfl | rfl <;> simp [Shape.children]
  have hf : t.isFunction = false := by rw [Tree.isFunction,hs]
  have hw : t.words = .reserved .kwIf :: (parens test.printed.operand ++ (consequent.printed.statement ++
      (alternate.map Tree.printed).elim [] fun t => .reserved .kwElse :: t.statement)) :=
    Tree.words_of_shape hs
  rw [hw,List.cons_append,List.append_assoc,List.append_assoc] at hc
  simp only [ifStatement,ends_bind,ends_start,ends_advance]
  apply (parenthesized_rereads hg (ht.child (hmem (.inl rfl))) htest hc.step.up).mono
  rintro u d ⟨hu,hd⟩
  cases alternate with
  | none =>
    have hd' : d.Faces n (consequent.printed.statement ++ ws) := hd
    apply (inner_rereads hg ht hr hf (hmem (.inr rfl)) hconsequent
      ⟨ho.1,fun _ => ho.2 (.here hs)⟩ hd').mono
    rintro v e ⟨hv,he⟩
    rw [ends_eatWord,if_neg (he.kind_ne (ho.2 (.here hs)) (by simp))]
    exact finish_rereads (by rw [hs,Shape.map,Shape.map,hu,hv]) he
  | some alternate =>
    have hd' : d.Faces n
        (consequent.printed.statement ++ .reserved .kwElse :: (alternate.printed.statement ++ ws)) := hd
    apply (inner_rereads hg ht hr hf (hmem (.inr rfl)) hconsequent
      ⟨by simp,fun h => absurd h (hclosed rfl)⟩ hd').mono
    rintro v e ⟨hv,he⟩
    simp only [ends_eatWord,he.kind,if_true,ends_bind,ends_map]
    apply (trailing_rereads hg ht hr ho (by rw [Tree.trailing?,hs]) he.advance).mono
    rintro w f ⟨hw,hf⟩
    exact finish_rereads (by rw [hs,Shape.map,Shape.map,hu,hv,Option.map_some,hw]; rfl) hf

end Compound

section Loops
variable {left right body : Tree} {head test step : Option Tree}

lemma isLoopTarget_iff : isLoopTarget t ↔
    (∃ kind, (t.shape.map fun _ => ()) = .variableDeclaration kind [()]) ∨ isTarget t := by
  unfold isLoopTarget isTarget
  cases t.shape with
  | variableDeclaration kind declarators =>
    obtain _ | ⟨d,_ | ⟨d',ds⟩⟩ := declarators <;> simp [Shape.map]
  | _ => simp [Shape.map]

lemma isLoopTarget_of_outline {u : Tree} (h : u.outline = t.outline) :
    isLoopTarget u = isLoopTarget t := by
  rw [Bool.eq_iff_iff,isLoopTarget_iff,isLoopTarget_iff,Tree.shape_of_outline h,
    isTarget_of_outline h]

/-- The head of a loop is a declaration, or else it is an expression. -/
theorem head_cases (hh : t.isExpression ∨ t.isVariableDeclaration) :
    (∃ kind ds, t.shape = .variableDeclaration kind ds ∧ t.printed.head = t.words) ∨
      (t.isExpression ∧ t.printed.head = t.printed.operand) := by
  rcases hh with he | hd
  · refine .inr ⟨he,?_⟩
    unfold Printed.head
    split
    next hs =>
      rw [Tree.printed] at hs
      simp [Tree.isExpression,hs] at he
    next => rfl
  · obtain ⟨kind,ds,hs⟩ := Tree.covers_of_isKind hd
    refine .inl ⟨kind,ds,hs,?_⟩
    rw [Printed.head,Tree.printed,hs]

variable (hg : g.Faithful n)
include hg

theorem forHead_rereads (hh : ∀ t ∈ head, t.Grammatical ∧ (t.isExpression ∨ t.isVariableDeclaration))
    (hk : 6 ≤ grip true k) (hnone : head = none → k = .punct .semicolon)
    (hc : c.Faces n ((head.map Tree.printed).elim [] (·.head) ++ k :: ws)) :
    Rereads n (Option.map Tree.outline) (forHead g) s c (head.map Tree.outline) (k :: ws) := by
  simp only [forHead,ends_bind,ends_atPunct,ends_ite]
  cases head with
  | none =>
    obtain rfl := hnone rfl
    have hc' : c.Faces n (.punct .semicolon :: ws) := hc
    rw [hc'.kind]
    exact ⟨rfl,hc'⟩
  | some t =>
    obtain ⟨ht,hh⟩ := hh t rfl
    have hc' : c.Faces n (t.printed.head ++ k :: ws) := hc
    rcases head_cases hh with ⟨kind,ds,hs,hhead⟩ | ⟨he,hhead⟩
    · rw [hhead] at hc'
      have hne : c.current.kind ≠ .punct .semicolon := by
        rw [Tree.words_of_shape hs] at hc'
        rw [hc'.kind]
        cases kind <;> simp [VariableKind.word]
      rw [if_neg (by simpa using hne)]
      simp only [ends_get,declares_eq_some ht hs hc',ends_bind]
      apply (declarationHead_rereads hg ht hs hk hc'.up).mono
      rintro ⟨start,shape⟩ d ⟨hshape,hd⟩
      apply (finish_rereads hshape hd).mono
      rintro u e ⟨hu,he⟩
      exact ⟨by simp [hu],he⟩
    · rw [hhead] at hc'
      have hparen : c.current.kind = .punct .openParen := hc'.kind
      have hdeclares : c.declares? = none := by rw [Cursor.declares?,hparen]
      rw [hparen,if_neg (by simp)]
      simp only [ends_get,hdeclares,ends_bind]
      apply (hg.expression ht he hk hc').mono
      rintro u d ⟨hu,hd⟩
      exact ⟨by simp [hu],hd⟩

/-- A `for` loop, by what follows the first part of its head. -/
theorem forLoop_ends (head : Option Tree) {Q : Tree → Cursor → Prop}
    (hh : ∀ t ∈ head, t.Grammatical ∧ (t.isExpression ∨ t.isVariableDeclaration))
    (hk : 6 ≤ grip true k) (hnone : head = none → k = .punct .semicolon)
    (hQ : ∀ {head' d start}, head'.map Tree.outline = head.map Tree.outline → d.Faces n (k :: ws) →
      Ends TooDeep (match head',k with
        | some left,.name "of" => forMembers g start left .forOf (g.assignment false)
        | some left,.reserved .kwIn => forMembers g start left .forIn (g.expression false)
        | _,_ => forSteps g start head') s d Q)
    (hc : c.Faces (n + 1) (.reserved .kwFor :: .punct .openParen ::
      ((head.map Tree.printed).elim [] (·.head) ++ k :: ws))) :
    Ends TooDeep (forLoop g) s c Q := by
  have hparen : c.advance.current.kind = .punct .openParen := hc.step.kind
  simp only [forLoop,ends_bind,ends_start,ends_advance,ends_expectPunct,hparen,if_true]
  apply (forHead_rereads hg hh hk hnone hc.step.advance).mono
  rintro head' d ⟨hhead,hd⟩
  rw [ends_current,hd.kind]
  exact hQ hhead hd

/-- An expression that may be left out before a punctuator. -/
theorem optional_ends {o : Option Tree} {p : Punct} {rest : Option Tree → Parser Tree}
    {Q : Tree → Cursor → Prop} (hp : 6 ≤ grip false (.punct p))
    (ho : ∀ e ∈ o, e.Grammatical ∧ e.isExpression)
    (hc : c.Faces n ((o.map Tree.printed).elim [] (·.operand) ++ .punct p :: ws))
    (hrest : ∀ o' d, o'.map Tree.outline = o.map Tree.outline → d.Faces n (.punct p :: ws) →
      Ends TooDeep (rest o') s d Q) :
    Ends TooDeep (atPunct p) s c fun a d =>
      Ends TooDeep (if a = true then pure none >>= rest
        else some <$> g.expression false >>= rest) s d Q := by
  simp only [ends_atPunct,ends_ite,ends_bind,ends_pure,ends_map]
  cases o with
  | none =>
    have hc' : c.Faces n (.punct p :: ws) := hc
    simp only [hc'.kind,beq_self_eq_true,if_true]
    exact hrest none c rfl hc'
  | some e =>
    obtain ⟨he,he'⟩ := ho e rfl
    have hc' : c.Faces n (e.printed.operand ++ .punct p :: ws) := hc
    have hparen : c.current.kind = .punct .openParen := hc'.kind
    have hne : p ≠ .openParen := by
      rintro rfl
      exact absurd hp (by decide)
    rw [hparen,if_neg (by simpa using hne.symm)]
    apply (hg.expression he he' hp hc').mono
    rintro u d ⟨hu,hd⟩
    exact hrest _ d (by simp [hu]) hd

variable (ht : t.Grammatical) (hr : t.Returns → s.inFunction = true)
  (ho : t.Precedes ws)
include ht hr ho

theorem forMembers_rereads {shape : Tree → Tree → Tree → Shape Tree} {p : Parser Tree} {u : Tree}
    {start : Nat} (hbody : t.trailing? = some body) (htarget : isLoopTarget left)
    (hu : u.outline = left.outline)
    (hshape : ∀ {v w : Tree}, v.outline = right.outline → w.outline = body.outline →
      (shape u v w).map Tree.outline = t.shape.map Tree.outline)
    (hp : ∀ {d vs}, d.Faces n (right.printed.operand ++ .punct .closeParen :: vs) →
      Rereads n Tree.outline p s d right.outline (.punct .closeParen :: vs))
    (hc : c.Faces n
      (k :: (right.printed.operand ++ .punct .closeParen :: (body.printed.statement ++ ws)))) :
    Rereads n Tree.outline (forMembers g start u shape p) s c t.outline ws := by
  rw [← isLoopTarget_of_outline hu] at htarget
  simp only [forMembers,htarget,if_true,ends_bind,ends_advance]
  apply (hp hc.advance).mono
  rintro v d ⟨hv,hd⟩
  rw [ends_expectPunct,if_pos hd.kind]
  apply (trailing_rereads hg ht hr ho hbody hd.advance).mono
  rintro w e ⟨hw,he⟩
  exact finish_rereads (hshape hv hw) he

theorem forIn_rereads (hs : t.shape = .forIn left right body)
    (hc : c.Faces (n + 1) (t.words ++ ws)) : Rereads n Tree.outline (forLoop g) s c t.outline ws := by
  have hadmissible := ht.admissible
  rw [hs] at hadmissible
  obtain ⟨htarget,hleft,hright,_⟩ := hadmissible
  have hl : left.Grammatical := ht.child (by rw [Tree.children,hs]; exact .head _)
  have hright' : right.Grammatical := ht.child (by rw [Tree.children,hs]; exact .tail _ (.head _))
  have hw : t.words = .reserved .kwFor :: (parens (left.printed.head ++
      .reserved .kwIn :: right.printed.operand) ++ body.printed.statement) := Tree.words_of_shape hs
  simp only [hw,parens,List.cons_append,List.append_assoc,List.nil_append] at hc
  refine forLoop_ends hg (some left) ?_ ?_ ?_ ?_ hc
  · simpa using ⟨hl,hleft⟩
  · decide
  · simp
  · intro head' d start hhead hd
    obtain ⟨u,rfl,hu⟩ := Option.map_eq_some_iff.mp hhead
    exact forMembers_rereads hg ht hr ho (by rw [Tree.trailing?,hs]) htarget hu
      (fun hv hw => by rw [hs,Shape.map,Shape.map,hu,hv,hw])
      (fun hd => hg.expression hright' hright (by decide) hd) hd

theorem forOf_rereads (hs : t.shape = .forOf left right body)
    (hc : c.Faces (n + 1) (t.words ++ ws)) : Rereads n Tree.outline (forLoop g) s c t.outline ws := by
  have hadmissible := ht.admissible
  rw [hs] at hadmissible
  obtain ⟨htarget,hleft,hright,_⟩ := hadmissible
  have hl : left.Grammatical := ht.child (by rw [Tree.children,hs]; exact .head _)
  have hright' : right.Grammatical := ht.child (by rw [Tree.children,hs]; exact .tail _ (.head _))
  have hw : t.words = .reserved .kwFor :: (parens (left.printed.head ++
      .name "of" :: right.printed.operand) ++ body.printed.statement) := Tree.words_of_shape hs
  simp only [hw,parens,List.cons_append,List.append_assoc,List.nil_append] at hc
  refine forLoop_ends hg (some left) ?_ ?_ ?_ ?_ hc
  · simpa using ⟨hl,hleft⟩
  · decide
  · simp
  · intro head' d start hhead hd
    obtain ⟨u,rfl,hu⟩ := Option.map_eq_some_iff.mp hhead
    exact forMembers_rereads hg ht hr ho (by rw [Tree.trailing?,hs]) htarget hu
      (fun hv hw => by rw [hs,Shape.map,Shape.map,hu,hv,hw])
      (fun hd => hg.assignment hright' hright (by decide) hd) hd

theorem forLoop_rereads (hs : t.shape = .forLoop head test step body)
    (hc : c.Faces (n + 1) (t.words ++ ws)) : Rereads n Tree.outline (forLoop g) s c t.outline ws := by
  have hadmissible := ht.admissible
  rw [hs] at hadmissible
  obtain ⟨hhead,htest,hstep,_⟩ := hadmissible
  have hchild {u : Tree} (hu : u ∈ head ∨ u ∈ test ∨ u ∈ step) : u.Grammatical := by
    refine ht.child ?_
    rw [Tree.children,hs]
    simp only [Shape.children,List.mem_append,Option.mem_toList]
    tauto
  have hw : t.words = .reserved .kwFor :: (parens ((head.map Tree.printed).elim [] (·.head) ++
      .punct .semicolon :: ((test.map Tree.printed).elim [] (·.operand) ++
        .punct .semicolon :: (step.map Tree.printed).elim [] (·.operand))) ++
      body.printed.statement) := Tree.words_of_shape hs
  simp only [hw,parens,List.cons_append,List.append_assoc,List.nil_append] at hc
  refine forLoop_ends hg head (fun u hu => ⟨hchild (.inl hu),hhead u hu⟩) (by decide) (fun _ => rfl)
    ?_ hc
  intro head' d start hhead hd
  simp only [forSteps,ends_bind,ends_expectPunct,hd.kind,if_true]
  refine optional_ends hg (by decide) (fun u hu => ⟨hchild (.inr (.inl hu)),htest u hu⟩) hd.advance ?_
  intro test' e htest he
  simp only [ends_bind,ends_expectPunct,he.kind,if_true]
  refine optional_ends hg (by decide) (fun u hu => ⟨hchild (.inr (.inr hu)),hstep u hu⟩) he.advance ?_
  intro step' f hstep hf
  simp only [ends_bind,ends_expectPunct,hf.kind,if_true]
  apply (trailing_rereads hg ht hr ho (by rw [Tree.trailing?,hs]) hf.advance).mono
  rintro w e ⟨hw,he⟩
  exact finish_rereads (by rw [hs,Shape.map,Shape.map,hhead,htest,hstep,hw]) he

end Loops

end ScriptLint.Grammar
