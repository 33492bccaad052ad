import ScriptLint.Proofs.Rereading.Statement

/-! Printed programs are read again: statements that hold blocks and cases, lists of statements, and
the productions as often as they are unrolled. -/
namespace ScriptLint.Grammar

variable {g : Productions} {n : Nat} {s : Surroundings} {c : Cursor} {t : Tree} {k : TokenKind}
  {ws : Words}

section Blocks
variable {param handler finalizer : Option Tree} {body : Tree}

theorem catchParameter_rereads (hp : ∀ p ∈ param, p.isName)
    (hne : ws.head? ≠ some (.punct .openParen))
    (hc : c.Faces n (param.elim [] (fun p => parens p.words) ++ ws)) :
    Rereads n (Option.map Tree.outline) catchParameter s c (param.map Tree.outline) ws := by
  simp only [catchParameter,ends_bind,ends_eatPunct]
  cases param with
  | none =>
    have hc' : c.Faces n ws := hc
    rw [if_neg (hc'.kind_ne hne (by simp))]
    exact ⟨rfl,hc'⟩
  | some p =>
    have hc' : c.Faces n (.punct .openParen :: (p.words ++ .punct .closeParen :: ws)) := by
      simpa [parens] using hc
    rw [if_pos hc'.kind,ends_ite,if_true,ends_bind]
    apply (bindingName_rereads (hp p rfl) hc'.advance.up).mono
    rintro u d ⟨hu,hd⟩
    rw [ends_bind,ends_expectPunct,if_pos hd.kind]
    exact ⟨by simp [hu],hd.advance⟩

variable (hg : g.Faithful n)
include hg

theorem catchClause_rereads (hh : ∀ h ∈ handler, h.Grammatical ∧ h.isHandler)
    (hr : ∀ h ∈ handler, h.Returns → s.inFunction = true)
    (hne : handler = none → ws.head? ≠ some (.reserved .kwCatch))
    (hc : c.Faces n (handler.elim [] Tree.words ++ ws)) :
    Rereads n (Option.map Tree.outline) (catchClause g) s c (handler.map Tree.outline) ws := by
  simp only [catchClause,ends_bind,ends_start,ends_eatWord]
  cases handler with
  | none =>
    have hc' : c.Faces n ws := hc
    rw [if_neg (hc'.kind_ne (hne rfl) (by simp))]
    exact ⟨rfl,hc'⟩
  | some h =>
    obtain ⟨hgrammatical,hhandler⟩ := hh h rfl
    obtain ⟨param,body,hs⟩ := Tree.covers_of_isKind hhandler
    have hadmissible := hgrammatical.admissible
    rw [hs] at hadmissible
    obtain ⟨hparam,hblock⟩ := hadmissible
    have hmem : body ∈ h.children := by simp [Tree.children,hs,Shape.children]
    have hw : h.words = .reserved .kwCatch ::
        (param.elim [] (fun p => parens p.words) ++ body.words) := by
      rw [Tree.words_of_shape hs]
      cases param <;> rfl
    have hc' : c.Faces n (.reserved .kwCatch ::
        (param.elim [] (fun p => parens p.words) ++ (body.words ++ ws))) := by
      simpa [hw] using hc
    have hopen : (body.words ++ ws).head? ≠ some (.punct .openParen) := by
      obtain ⟨ts,_,hwords⟩ := words_of_isBlock hblock
      simp [hwords,braces]
    rw [if_pos hc'.kind,ends_ite,if_true,ends_bind]
    apply (catchParameter_rereads hparam hopen hc'.advance).mono
    rintro param' d ⟨hparam',hd⟩
    rw [ends_bind]
    have hreturns : body.Returns → s.inFunction = true := fun hret =>
      hr h rfl (.under (by rw [Tree.isFunction,hs]) hmem hret)
    apply (block_rereads hg (hgrammatical.child hmem) hblock hreturns hd.up).mono
    rintro u e ⟨hu,he⟩
    rw [ends_map]
    apply (finish_rereads (t := h) (by rw [hs,Shape.map,Shape.map,hparam',hu]) he).mono
    rintro v f ⟨hv,hf⟩
    exact ⟨by simp [hv],hf⟩

theorem tryStatement_rereads (ht : t.Grammatical) (hr : t.Returns → s.inFunction = true)
    (ho : t.Precedes ws) (hs : t.shape = .tryStatement body handler finalizer)
    (hc : c.Faces (n + 1) (t.words ++ ws)) :
    Rereads n Tree.outline (tryStatement g) s c t.outline ws := by
  have hadmissible := ht.admissible
  rw [hs] at hadmissible
  obtain ⟨hbody,hhandler,hfinalizer,hsome⟩ := hadmissible
  have hmem {u : Tree} (hu : u = body ∨ u ∈ handler ∨ u ∈ finalizer) : u ∈ t.children := by
    rw [Tree.children,hs]
    simpa [Shape.children] using hu
  have hreturns {u : Tree} (hu : u ∈ t.children) (h : u.Returns) : s.inFunction = true :=
    hr (.under (by rw [Tree.isFunction,hs]) hu h)
  have hw : t.words = .reserved .kwTry :: (body.words ++ (handler.elim [] Tree.words ++
      finalizer.elim [] fun f => .reserved .kwFinally :: f.words)) := by
    rw [Tree.words_of_shape hs]
    cases handler <;> cases finalizer <;> rfl
  rw [hw,List.cons_append,List.append_assoc,List.append_assoc] at hc
  simp only [tryStatement,ends_bind,ends_start,ends_advance]
  apply (block_rereads hg (ht.child (hmem (.inl rfl))) hbody (hreturns (hmem (.inl rfl)))
    hc.step.up).mono
  rintro u d ⟨hu,hd⟩
  have hcatch : handler = none → (finalizer.elim [] (fun f => .reserved .kwFinally :: f.words) ++
      ws).head? ≠ some (.reserved .kwCatch) := by
    rintro rfl
    obtain ⟨f,rfl⟩ := Option.isSome_iff_exists.mp (hsome.resolve_left (by simp))
    simp
  apply (catchClause_rereads hg (fun h hh => ⟨ht.child (hmem (.inr (.inl hh))),hhandler h hh⟩)
    (fun h hh => hreturns (hmem (.inr (.inl hh)))) hcatch hd).mono
  rintro handler' e ⟨hhandler',he⟩
  have hisNone : handler'.isNone = handler.isNone := by
    rw [← Option.isNone_map (f := Tree.outline),hhandler',Option.isNone_map]
  cases finalizer with
  | none =>
    have he' : e.Faces n ws := he
    have hnone : handler'.isNone = false := by
      rw [hisNone]
      simpa using hsome
    rw [ends_eatWord,if_neg (he'.kind_ne ho.1 (by simp))]
    simp only [Bool.false_eq_true,if_false,ends_pure,ends_bind,hnone,Bool.false_and]
    exact finish_rereads (by rw [hs,Shape.map,Shape.map,hu,hhandler']) he'
  | some f =>
    have he' : e.Faces n (.reserved .kwFinally :: (f.words ++ ws)) := he
    have hf : f ∈ t.children := hmem (.inr (.inr rfl))
    simp only [ends_eatWord,if_pos he'.kind,if_true,ends_bind,ends_map,Option.isNone_some,
      Bool.and_false,Bool.false_eq_true,if_false]
    apply (block_rereads hg (ht.child hf) (hfinalizer f rfl) (hreturns hf) he'.advance.up).mono
    rintro v i ⟨hv,hi⟩
    exact finish_rereads (by rw [hs,Shape.map,Shape.map,hu,hhandler',Option.map_some,hv]; rfl) hi

end Blocks

section Cases
variable {test : Option Tree} {consequent ts : List Tree} {hasDefault : Bool}

/-- What stands after the statements of a case. -/
theorem cases_head (hts : ∀ t ∈ ts, t.isCase) (ws : Words) :
    ∃ k vs, ts.flatMap Tree.words ++ .punct .closeBrace :: ws = k :: vs ∧
      (k = .punct .closeBrace ∨ k = .reserved .kwCase ∨ k = .reserved .kwDefault) := by
  cases ts with
  | nil => exact ⟨_,_,rfl,.inl rfl⟩
  | cons t ts =>
    obtain ⟨test,consequent,hs⟩ := Tree.covers_of_isKind (hts t (.head _))
    rw [List.flatMap_cons,Tree.words_of_shape hs]
    cases test with
    | none => exact ⟨_,_,rfl,.inr (.inr rfl)⟩
    | some test => exact ⟨_,_,rfl,.inr (.inl rfl)⟩

variable (hg : g.Faithful n)
include hg

theorem caseBody_rereads {test' : Option Tree} {start : Nat} (ht : t.Grammatical)
    (hs : t.shape = .switchCase test consequent) (hr : t.Returns → s.inFunction = true)
    (hts : ∀ t ∈ ts, t.Grammatical ∧ t.isCase) (hrs : ∀ t ∈ ts, t.Returns → s.inFunction = true)
    (hd : hasDefault.toNat + ts.countP Tree.isDefault ≤ 1)
    (htest : test'.map Tree.outline = test.map Tree.outline)
    (hc : c.Faces n (.punct .colon :: (consequent.flatMap (fun t => t.printed.statement) ++
      (ts.flatMap Tree.words ++ .punct .closeBrace :: ws)))) :
    Rereads n (List.map Tree.outline) (caseBody g start test' hasDefault) s c
      ((t :: ts).map Tree.outline) ws := by
  have hadmissible := ht.admissible
  rw [hs] at hadmissible
  have hmem {u : Tree} (hu : u ∈ consequent) : u ∈ t.children := by
    rw [Tree.children,hs]
    exact List.mem_append_right _ hu
  have hconsequent : ∀ u ∈ consequent, u.Grammatical ∧ u.isStatement :=
    fun u hu => ⟨ht.child (hmem hu),hadmissible.2 u hu⟩
  have hreturns : ∀ u ∈ consequent, u.Returns → s.inFunction = true :=
    fun u hu h => hr (.under (by rw [Tree.isFunction,hs]) (hmem hu) h)
  obtain ⟨k,vs,hvs,hk⟩ := cases_head (fun t ht => (hts t ht).2) ws
  have hnext := hc.advance
  rw [hvs] at hnext
  simp only [caseBody,ends_bind,ends_expectPunct,hc.kind,if_true]
  apply (hg.caseItems hconsequent hreturns hk hnext).mono
  rintro us d ⟨hus,hd'⟩
  apply (finish_rereads (t := t) (by rw [hs,Shape.map,Shape.map,htest,hus]) hd').mono
  rintro u e ⟨hu,he⟩
  rw [← hvs] at he
  apply (hg.cases hts hrs hd he).mono
  rintro vs f ⟨hvs,hf⟩
  exact ⟨by simp [hu,hvs],hf⟩

theorem cases_rereads (hts : ∀ t ∈ ts, t.Grammatical ∧ t.isCase)
    (hr : ∀ t ∈ ts, t.Returns → s.inFunction = true)
    (hd : hasDefault.toNat + ts.countP Tree.isDefault ≤ 1)
    (hc : c.Faces (n + 1) (ts.flatMap Tree.words ++ .punct .closeBrace :: ws)) :
    Rereads n (List.map Tree.outline) (cases g hasDefault) s c (ts.map Tree.outline) ws := by
  rw [Rereads,cases,ends_bind,ends_start,ends_bind,ends_current]
  cases ts with
  | nil =>
    have hc' : c.Faces (n + 1) (.punct .closeBrace :: ws) := hc
    rw [hc'.kind]
    exact ⟨rfl,hc'.step⟩
  | cons t ts =>
    obtain ⟨ht,hcase⟩ := hts t (.head _)
    obtain ⟨test,consequent,hs⟩ := Tree.covers_of_isKind hcase
    have hadmissible := ht.admissible
    rw [hs] at hadmissible
    have hothers : ∀ t ∈ ts, t.Grammatical ∧ t.isCase := fun t ht => hts t (.tail _ ht)
    have hreturns : ∀ t ∈ ts, t.Returns → s.inFunction = true := fun t ht => hr t (.tail _ ht)
    have hw : t.words = (test.map Tree.printed).elim [.reserved .kwDefault]
        (fun t => .reserved .kwCase :: t.operand) ++
        .punct .colon :: consequent.flatMap fun t => t.printed.statement := by
      rw [Tree.words_of_shape hs,Shape.map,Shape.layout,List.flatMap_map]
    rw [List.flatMap_cons,hw,List.append_assoc,List.append_assoc,List.cons_append] at hc
    cases test with
    | none =>
      have hc' : c.Faces (n + 1) (.reserved .kwDefault :: .punct .colon ::
        (consequent.flatMap (fun t => t.printed.statement) ++
          (ts.flatMap Tree.words ++ .punct .closeBrace :: ws))) := hc
      rw [List.countP_cons_of_pos (by rw [Tree.isDefault,hs])] at hd
      have hfirst : hasDefault = false := by
        cases hasDefault with
        | false => rfl
        | true => exact absurd hd (by simp)
      rw [hc'.kind]
      simp only [hfirst,Bool.false_eq_true,if_false,ends_bind,ends_advance]
      refine caseBody_rereads hg ht hs (hr t (.head _)) hothers hreturns ?_ rfl hc'.step
      rw [Bool.toNat_true]
      omega
    | some test =>
      have hc' : c.Faces (n + 1) (.reserved .kwCase :: (test.printed.operand ++ .punct .colon ::
        (consequent.flatMap (fun t => t.printed.statement) ++
          (ts.flatMap Tree.words ++ .punct .closeBrace :: ws)))) := hc
      have htest : test.Grammatical := ht.child (by rw [Tree.children,hs]; exact .head _)
      rw [List.countP_cons_of_neg (by simp [Tree.isDefault,hs])] at hd
      rw [hc'.kind]
      simp only [ends_bind,ends_advance]
      apply (hg.expression htest (hadmissible.1 test rfl) (by decide) hc'.step).mono
      rintro u d ⟨hu,hd'⟩
      exact caseBody_rereads hg ht hs (hr t (.head _)) hothers hreturns hd (by simp [hu]) hd'

theorem switchStatement_rereads {discriminant : Tree} (ht : t.Grammatical)
    (hr : t.Returns → s.inFunction = true) (hs : t.shape = .switchStatement discriminant ts)
    (hc : c.Faces (n + 1) (t.words ++ ws)) :
    Rereads n Tree.outline (switchStatement g) s c t.outline ws := by
  have hadmissible := ht.admissible
  rw [hs] at hadmissible
  obtain ⟨hdiscriminant,hcases,hdefault⟩ := hadmissible
  have hmem {u : Tree} (hu : u = discriminant ∨ u ∈ ts) : u ∈ t.children := by
    rw [Tree.children,hs]
    simpa [Shape.children] using hu
  have hts : ∀ u ∈ ts, u.Grammatical ∧ u.isCase :=
    fun u hu => ⟨ht.child (hmem (.inr hu)),hcases u hu⟩
  have hreturns : ∀ u ∈ ts, u.Returns → s.inFunction = true :=
    fun u hu h => hr (.under (by rw [Tree.isFunction,hs]) (hmem (.inr hu)) h)
  have hw : t.words = .reserved .kwSwitch ::
      (parens discriminant.printed.operand ++ braces (ts.flatMap Tree.words)) := by
    rw [Tree.words_of_shape hs,Shape.map,Shape.layout,List.flatMap_map]
    rfl
  rw [hw,List.cons_append,List.append_assoc,braces,List.cons_append,List.append_assoc] at hc
  simp only [switchStatement,ends_bind,ends_start,ends_advance]
  apply (parenthesized_rereads hg (ht.child (hmem (.inl rfl))) hdiscriminant hc.step.up).mono
  rintro u d ⟨hu,hd⟩
  rw [ends_expectPunct,if_pos hd.kind]
  apply (hg.cases hts hreturns (by simpa using hdefault) hd.advance).mono
  rintro us e ⟨hus,he⟩
  exact finish_rereads (by rw [hs,Shape.map,Shape.map,hu,hus]) he

end Cases

/-- A token that a statement may begin with, the only ones that are printed first. -/
def startsStatement : TokenKind → Bool
  | .reserved .kwElse | .reserved .kwFinally | .reserved .kwCase | .reserved .kwDefault
  | .punct .closeBrace | .endOfInput => false
  | _ => true

theorem statement_of_not_isVariableDeclaration (h : t.isVariableDeclaration = false) :
    t.printed.statement = t.words := by
  unfold Printed.statement
  split
  next hs =>
    have hs : t.shape = _ := hs
    simp [Tree.isVariableDeclaration,hs] at h
  next => rfl

theorem statement_of_variableDeclaration {kind : VariableKind} {ds : List Tree}
    (hs : t.shape = .variableDeclaration kind ds) :
    t.printed.statement = t.words ++ [.punct .semicolon] := by
  rw [Printed.statement,Tree.printed,hs]

theorem statement_first (ht : t.Grammatical) (hs : t.isStatement) :
    ∃ k vs, t.printed.statement = k :: vs ∧ startsStatement k := by
  have hadmissible := ht.admissible
  cases hshape : t.shape with
  | variableDeclaration kind ds =>
    rw [statement_of_variableDeclaration hshape,Tree.words_of_shape hshape]
    exact ⟨_,_,rfl,by cases kind <;> rfl⟩
  | labeled label body =>
    rw [hshape] at hadmissible
    obtain ⟨x,_,hx⟩ := words_of_isName hadmissible.1
    have hw : t.words = label.words ++ .punct .colon :: body.printed.statement :=
      Tree.words_of_shape hshape
    rw [statement_of_not_isVariableDeclaration (Tree.isKind_of_shape hshape _),hw,hx]
    exact ⟨_,_,rfl,rfl⟩
  | function kind name params body =>
    have hkind : kind = .declaration := by simpa [Tree.isStatement,hshape] using hs
    rw [statement_of_not_isVariableDeclaration (Tree.isKind_of_shape hshape _),
      Tree.words_of_shape hshape,hkind]
    exact ⟨_,_,rfl,rfl⟩
  | block | expressionStatement | returnStatement | ifStatement | switchStatement | forLoop | forIn
  | forOf | whileLoop | doWhile | tryStatement | withStatement | breakStatement | continueStatement
  | throwStatement | empty | debugger =>
    rw [statement_of_not_isVariableDeclaration (Tree.isKind_of_shape hshape _),
      Tree.words_of_shape hshape]
    exact ⟨_,_,rfl,rfl⟩
  | _ => simp [Tree.isStatement,hshape] at hs

/-- What the words of a node begin with. -/
theorem Cursor.Faces.kind_of_shape {shape : Shape Tree} {vs : Words} (hc : c.Faces n (t.words ++ ws))
    (hs : t.shape = shape) (hw : (shape.map Tree.printed).layout = k :: vs) :
    c.current.kind = k := by
  rw [Tree.words_of_shape hs,hw] at hc
  exact hc.kind

section Statements
variable (hg : g.Faithful n) (ht : t.Grammatical)
include hg ht

theorem declaration_rereads {kind : VariableKind} {ds : List Tree}
    (hs : t.shape = .variableDeclaration kind ds)
    (hc : c.Faces (n + 1) (t.printed.statement ++ ws)) :
    Rereads n Tree.outline (statement g) s c t.outline ws := by
  rw [statement_of_variableDeclaration hs,List.append_assoc] at hc
  have hdeclares := declares_eq_some ht hs hc
  have hkind := hc.kind_of_shape hs rfl
  apply nested_ends
  rw [ends_bind,ends_get,hkind]
  cases kind with
  | var | const => exact variableStatement_rereads hg ht hs hc
  | let_ =>
    rw [hdeclares]
    exact variableStatement_rereads hg ht hs hc

theorem statement_rereads (hs : t.isStatement) (hr : t.Returns → s.inFunction = true)
    (ho : t.Precedes ws)
    (hc : c.Faces (n + 1) (t.printed.statement ++ ws)) :
    Rereads n Tree.outline (statement g) s c t.outline ws := by
  by_cases hv : t.isVariableDeclaration = true
  · obtain ⟨kind,ds,hshape⟩ := Tree.covers_of_isKind hv
    exact declaration_rereads hg ht hshape hc
  rw [statement_of_not_isVariableDeclaration (Bool.eq_false_iff.mpr hv)] at hc
  have hadmissible := ht.admissible
  apply nested_ends
  rw [ends_bind,ends_get]
  cases hshape : t.shape with
  | block =>
    rw [hc.kind_of_shape hshape rfl]
    exact block_rereads hg ht (Tree.isKind_of_shape hshape _) hr hc
  | function kind name params body =>
    obtain rfl : kind = .declaration := by simpa [Tree.isStatement,hshape] using hs
    rw [hc.kind_of_shape hshape rfl]
    exact function_rereads hg ht hshape (by simp) hc
  | expressionStatement =>
    rw [hc.kind_of_shape hshape rfl]
    exact expressionStatement_rereads hg ht hshape hc
  | returnStatement =>
    rw [hc.kind_of_shape hshape rfl]
    exact returnStatement_rereads hg ht hshape hr hc
  | ifStatement =>
    rw [hc.kind_of_shape hshape rfl]
    exact ifStatement_rereads hg ht hr ho hshape hc
  | switchStatement =>
    rw [hc.kind_of_shape hshape rfl]
    exact switchStatement_rereads hg ht hr hshape hc
  | forLoop =>
    rw [hc.kind_of_shape hshape rfl]
    exact forLoop_rereads hg ht hr ho hshape hc
  | forIn =>
    rw [hc.kind_of_shape hshape rfl]
    exact forIn_rereads hg ht hr ho hshape hc
  | forOf =>
    rw [hc.kind_of_shape hshape rfl]
    exact forOf_rereads hg ht hr ho hshape hc
  | whileLoop =>
    rw [hc.kind_of_shape hshape rfl]
    exact whileLoop_rereads hg ht hr ho hshape hc
  | doWhile =>
    rw [hc.kind_of_shape hshape rfl]
    exact doWhile_rereads hg ht hr hshape hc
  | tryStatement =>
    rw [hc.kind_of_shape hshape rfl]
    exact tryStatement_rereads hg ht hr ho hshape hc
  | withStatement =>
    rw [hc.kind_of_shape hshape rfl]
    exact withStatement_rereads hg ht hr ho hshape hc
  | throwStatement =>
    rw [hc.kind_of_shape hshape rfl]
    exact throwStatement_rereads hg ht hshape hc
  | breakStatement label =>
    rw [hshape] at hadmissible
    have hw : t.words = .reserved .kwBreak :: (label.elim [] Tree.words ++ [.punct .semicolon]) := by
      rw [Tree.words_of_shape hshape]
      cases label <;> rfl
    rw [hc.kind_of_shape hshape rfl]
    rw [hw,List.cons_append,List.append_assoc] at hc
    exact jump_rereads hshape (fun _ _ h => congrArg Shape.breakStatement h) hadmissible hc
  | continueStatement label =>
    rw [hshape] at hadmissible
    have hw : t.words =
        .reserved .kwContinue :: (label.elim [] Tree.words ++ [.punct .semicolon]) := by
      rw [Tree.words_of_shape hshape]
      cases label <;> rfl
    rw [hc.kind_of_shape hshape rfl]
    rw [hw,List.cons_append,List.append_assoc] at hc
    exact jump_rereads hshape (fun _ _ h => congrArg Shape.continueStatement h) hadmissible hc
  | labeled label body =>
    rw [hshape] at hadmissible
    obtain ⟨x,_,hx⟩ := words_of_isName hadmissible.1
    have hw : t.words = .name x :: .punct .colon :: body.printed.statement := by
      rw [Tree.words_of_shape hshape,Shape.map,Shape.layout,Tree.printed,hx]
      rfl
    have hlabeled := labeled_rereads (s := { s with nesting := s.nesting + 1 }) hg ht hr ho hshape hc
    rw [hw] at hc
    have hdeclares : c.declares? = none := by
      unfold Cursor.declares?
      rw [hc.kind,hc.next_kind]
      split <;> simp_all
    simp only [hc.kind,hdeclares,hc.next_kind,beq_self_eq_true,if_true]
    exact hlabeled
  | empty =>
    have hw : t.words = [.punct .semicolon] := Tree.words_of_shape hshape
    rw [hw] at hc
    rw [hc.kind]
    simp only [ends_bind,ends_start,ends_advance]
    exact finish_rereads (by rw [hshape]) hc.step
  | debugger =>
    have hw : t.words = [.reserved .kwDebugger,.punct .semicolon] := Tree.words_of_shape hshape
    rw [hw] at hc
    rw [hc.kind]
    simp only [wordStatement,ends_bind,ends_start,ends_advance]
    exact endStatement_ends hc.step (finish_rereads (by rw [hshape]) hc.step.advance)
  | variableDeclaration => simp [Tree.isVariableDeclaration,hshape] at hv
  | _ => simp [Tree.isStatement,hshape] at hs

end Statements

section Lists
variable {ts : List Tree} (hg : g.Faithful n)

/-- No statement is continued by the first word of another one. -/
theorem precedes_of_startsStatement (hk : startsStatement k) : t.Precedes (k :: ws) := by
  constructor
  · rintro h
    cases h
    contradiction
  · rintro _ h
    cases h
    contradiction

theorem precedes_items (hts : ∀ t ∈ ts, t.Grammatical ∧ t.isStatement) (hws : t.Precedes ws) :
    t.Precedes (ts.flatMap (fun t => t.printed.statement) ++ ws) := by
  cases ts with
  | nil => exact hws
  | cons u ts =>
    obtain ⟨hu,hs⟩ := hts u (.head _)
    obtain ⟨k,vs,hw,hk⟩ := statement_first hu hs
    rw [List.flatMap_cons,hw]
    exact precedes_of_startsStatement hk

/-- The kind of token before which a list of statements is not at its end. -/
theorem items_kind (hts : ∀ u ∈ t :: ts, u.Grammatical ∧ u.isStatement)
    (hc : c.Faces n ((t :: ts).flatMap (fun t => t.printed.statement) ++ ws)) :
    startsStatement c.current.kind := by
  obtain ⟨ht,hs⟩ := hts t (.head _)
  obtain ⟨k,vs,hw,hk⟩ := statement_first ht hs
  rw [List.flatMap_cons,hw] at hc
  rwa [hc.kind]

include hg

/-- A statement and those that follow. -/
theorem items_rereads {more : Parser (List Tree)}
    (hts : ∀ u ∈ t :: ts, u.Grammatical ∧ u.isStatement)
    (hr : ∀ u ∈ t :: ts, u.Returns → s.inFunction = true) (hws : ∀ t : Tree, t.Precedes ws)
    (hmore : ∀ {d}, d.Faces n (ts.flatMap (fun t => t.printed.statement) ++ ws) →
      Rereads n (List.map Tree.outline) more s d (ts.map Tree.outline) ws)
    (hc : c.Faces (n + 1) ((t :: ts).flatMap (fun t => t.printed.statement) ++ ws)) :
    Rereads (n + 1) (List.map Tree.outline)
      (do
        let first ← statement g
        let others ← more
        return first :: others) s c ((t :: ts).map Tree.outline) ws := by
  obtain ⟨ht,hs⟩ := hts t (.head _)
  have ho := precedes_items (fun u hu => hts u (.tail _ hu)) (hws t)
  rw [List.flatMap_cons,List.append_assoc] at hc
  rw [Rereads,ends_bind]
  apply (statement_rereads hg ht hs (hr t (.head _)) ho hc).mono
  rintro u d ⟨hu,hd⟩
  rw [ends_bind]
  apply (hmore hd).mono
  rintro us e ⟨hus,he⟩
  exact ⟨by rw [List.map_cons,hu,hus]; rfl,he.up⟩

theorem blockItems_rereads (hts : ∀ t ∈ ts, t.Grammatical ∧ t.isStatement)
    (hr : ∀ t ∈ ts, t.Returns → s.inFunction = true)
    (hc : c.Faces (n + 1) (ts.flatMap (fun t => t.printed.statement) ++ .punct .closeBrace :: ws)) :
    Rereads (n + 1) (List.map Tree.outline) (blockItems g) s c (ts.map Tree.outline)
      (.punct .closeBrace :: ws) := by
  rw [Rereads,blockItems,ends_bind,ends_current]
  cases ts with
  | nil =>
    have hc' : c.Faces (n + 1) (.punct .closeBrace :: ws) := hc
    rw [hc'.kind]
    exact ⟨rfl,hc'⟩
  | cons t ts =>
    have hfirst := items_kind hts hc
    split
    next hk => simp [hk,startsStatement] at hfirst
    next hk => simp [hk,startsStatement] at hfirst
    next =>
      refine items_rereads hg hts hr (fun _ => ⟨by simp,by simp⟩) (fun hd => ?_) hc
      exact hg.blockItems (fun u hu => hts u (.tail _ hu)) (fun u hu => hr u (.tail _ hu)) hd

theorem caseItems_rereads (hts : ∀ t ∈ ts, t.Grammatical ∧ t.isStatement)
    (hr : ∀ t ∈ ts, t.Returns → s.inFunction = true)
    (hk : k = .punct .closeBrace ∨ k = .reserved .kwCase ∨ k = .reserved .kwDefault)
    (hc : c.Faces (n + 1) (ts.flatMap (fun t => t.printed.statement) ++ k :: ws)) :
    Rereads (n + 1) (List.map Tree.outline) (caseItems g) s c (ts.map Tree.outline) (k :: ws) := by
  rw [Rereads,caseItems,ends_bind,ends_current]
  cases ts with
  | nil =>
    have hc' : c.Faces (n + 1) (k :: ws) := hc
    rw [hc'.kind]
    rcases hk with rfl | rfl | rfl <;> exact ⟨rfl,hc'⟩
  | cons t ts =>
    have hfirst := items_kind hts hc
    have hws (t : Tree) : t.Precedes (k :: ws) := by
      rcases hk with rfl | rfl | rfl <;> exact ⟨by simp,by simp⟩
    split
    next hk => simp [hk,startsStatement] at hfirst
    next hk => simp [hk,startsStatement] at hfirst
    next hk => simp [hk,startsStatement] at hfirst
    next hk => simp [hk,startsStatement] at hfirst
    next =>
      refine items_rereads hg hts hr hws (fun hd => ?_) hc
      exact hg.caseItems (fun u hu => hts u (.tail _ hu)) (fun u hu => hr u (.tail _ hu)) hk hd

theorem programItems_rereads (hts : ∀ t ∈ ts, t.Grammatical ∧ t.isStatement)
    (hr : ∀ t ∈ ts, t.Returns → s.inFunction = true)
    (hc : c.Faces (n + 1) (ts.flatMap fun t => t.printed.statement)) :
    Rereads (n + 1) (List.map Tree.outline) (programItems g) s c (ts.map Tree.outline) [] := by
  rw [Rereads,programItems,ends_bind,ends_current]
  cases ts with
  | nil =>
    have hc' : c.Faces (n + 1) [] := hc
    rw [hc'.kind_nil]
    exact ⟨rfl,hc'⟩
  | cons t ts =>
    rw [← List.append_nil (List.flatMap ..)] at hc
    have hfirst := items_kind hts hc
    split
    next hk => simp [hk,startsStatement] at hfirst
    next =>
      refine items_rereads hg hts hr (fun _ => ⟨by simp,by simp⟩) (fun hd => ?_) hc
      rw [List.append_nil] at hd
      exact hg.programItems (fun u hu => hts u (.tail _ hu)) (fun u hu => hr u (.tail _ hu)) hd

end Lists

/-- Nothing is read where the productions are not unrolled at all. -/
theorem Productions.faithful_none : Productions.none.Faithful 0 := by
  have absurdity {c : Cursor} {ws : Words} (hc : c.Faces 0 ws) : False := Nat.not_lt_zero _ hc.bound
  constructor <;> intros <;> exact (absurdity ‹_›).elim

theorem Productions.Faithful.step (hg : g.Faithful n) : g.step.Faithful (n + 1) where
  words ht he hc := (words_rereads hg ht he hc).up
  expression ht he hk hc := (operand_expression hg ht he hk hc).up
  assignment ht he hk hc := (operand_assignment hg ht he hk hc).up
  binary ht he hk hc :=
    (binary_of_unary hk (operand_unary hg ht he (Nat.le_of_succ_le hk) hc)).up
  unary ht he hk hc := (operand_unary hg ht he hk hc).up
  binaryTail hk hc hQ := binaryTail_ends (hc.kind.symm ▸ hk) hQ
  accessTail hk hc hQ := accessTail_ends (hc.kind.symm ▸ hk) hQ
  sequenceTail hts hk hc := sequenceTail_rereads hg hts hk hc
  arguments hts hc := arguments_rereads hg hts hc
  elements hes hc := elements_rereads hg hes hc
  properties hts hc := properties_rereads hg hts hc
  parameters hts hc := parameters_rereads hg hts hc
  blockItems hts hr hc := blockItems_rereads hg hts hr hc
  declarators hne hts hk hc := (declarators_rereads hg hne hts hk hc).up
  statement ht hs hr ho hc := (statement_rereads hg ht hs hr ho hc).up
  caseItems hts hr hk hc := caseItems_rereads hg hts hr hk hc
  cases hts hr hd hc := (cases_rereads hg hts hr hd hc).up
  programItems hts hr hc := programItems_rereads hg hts hr hc

theorem faithful_productions (n : Nat) : (productions n).Faithful n := by
  induction n with
  | zero => exact Productions.faithful_none
  | succ n ih => exact ih.step

/-- A program is read again from its words. -/
theorem program_rereads (ht : t.Grammatical) (hp : t.isProgram) (hr : ¬ t.Returns)
    (hc : c.Faces n t.words) :
    Ends TooDeep (program (productions n)) ⟨0,false⟩ c fun u _ => u.outline = t.outline := by
  obtain ⟨body,hs⟩ := Tree.covers_of_isKind hp
  have hadmissible := ht.admissible
  rw [hs] at hadmissible
  have hmem {u : Tree} (hu : u ∈ body) : u ∈ t.children := by rwa [Tree.children,hs]
  have hw : t.words = body.flatMap fun t => t.printed.statement := by
    rw [Tree.words_of_shape hs,Shape.map,Shape.layout,List.flatMap_map]
  rw [hw] at hc
  rw [program,ends_bind]
  apply ((faithful_productions n).programItems (fun u hu => ⟨ht.child (hmem hu),hadmissible u hu⟩)
    (fun u hu h => absurd (.under (by rw [Tree.isFunction,hs]) (hmem hu) h) hr) hc).mono
  rintro us d ⟨hus,_⟩
  obtain ⟨i,span,shape⟩ := t
  obtain rfl : shape = .program body := hs
  exact Tree.outline_congr (congrArg Shape.program hus)

end ScriptLint.Grammar
