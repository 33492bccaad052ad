import ScriptLint.Proofs.Expression

/-! What the productions for statements read, given that the productions they call do as they
should. -/
namespace ScriptLint.Grammar
variable {g : Productions} {s : Surroundings} {c : Cursor}

/-- The end of a statement adds nothing but its semicolon. -/
theorem endStatement_yields {d : Cursor} {tokens : List Token} {trees : List Tree}
    (h : Built s.inFunction c tokens trees d) :
    Yields endStatement s d fun _ e =>
      ∃ more, Built s.inFunction c (tokens ++ more) trees e := by
  simp only [endStatement,yields_bind,yields_eatPunct,reduceIte,Bool.false_eq_true,
    yields_pure,yields_current]
  refine ⟨fun hk => ⟨_,h.punct hk⟩,fun _ => ?_⟩
  split
  · rw [yields_pure]
    exact ⟨[],by simpa using h⟩
  · exact yields_unexpected

/-- A statement that ends after what was read since `c`. -/
lemma ended_yields {d : Cursor} {tokens : List Token} {shape : Shape Tree}
    (h : Built s.inFunction c tokens shape.children d) (ha : shape.Admissible) (hne : tokens ≠ [])
    (hr : shape.isReturn = false ∨ s.inFunction = true)
    (hs : ∀ i span, (Tree.node i span shape).isStatement) :
    Yields (endStatement >>= fun _ => finish c.current.span.start shape) s d
      (One Tree.isStatement s.inFunction c) := by
  simp only [yields_bind,yields_finish]
  refine (endStatement_yields h).mono ?_
  rintro _ e ⟨more,hb⟩
  exact ⟨_,hb.finish ha (by simp [hne]) hr (.of_isStatement (hs 0 ⟨0,0⟩)),hs _ _⟩

theorem parenthesized_yields (hg : g.Sound) (hc : c.WellFormed) :
    Yields (parenthesized g) s c (One Tree.isExpression s.inFunction c) := by
  simp only [parenthesized,yields_bind,yields_expectPunct,yields_pure]
  intro hk
  refine (hg.expression hc.advance false).mono ?_
  rintro inner d ⟨_,hi,hx⟩ hk'
  exact ⟨_,(((Built.done hc).punct hk).append hi).punct hk',hx⟩

theorem declarator_yields (hg : g.Sound) (hc : c.WellFormed) (inHead : Bool) :
    Yields (declarator g inHead) s c (One Tree.isDeclarator s.inFunction c) := by
  simp only [declarator,yields_bind,yields_start,yields_eatPunct,reduceIte,
    Bool.false_eq_true,yields_finish]
  refine ((bindingName_yields hc).and bindingName_token).mono ?_
  rintro id d ⟨⟨_,hid,hn⟩,hstart,_⟩
  refine ⟨fun hk => ?_,fun _ => ?_⟩
  · refine (hg.assignment hid.stop.advance inHead).mono ?_
    rintro value e ⟨_,hv,hx⟩
    exact ⟨_,((hid.punct hk).append hv).finish ⟨hn,by simpa using hx⟩ (by simp) (.inl rfl) hstart,rfl⟩
  · have hchildren : Built s.inFunction c _ (Shape.declarator id none).children d := hid
    exact ⟨_,hchildren.finish ⟨hn,by simp⟩ (hid.tokens_ne_nil (by simp)) (.inl rfl) hstart,rfl⟩

theorem declarators_yields (hg : g.Sound) (hc : c.WellFormed) (inHead : Bool) :
    Yields (declarators g inHead) s c fun ts d =>
      Many Tree.isDeclarator s.inFunction c ts d ∧ ts ≠ [] := by
  simp only [declarators,yields_bind,yields_eatPunct,reduceIte,Bool.false_eq_true,yields_pure]
  refine (declarator_yields hg hc inHead).mono ?_
  rintro first d ⟨_,hf,hd⟩
  refine ⟨fun hk => ?_,fun _ => ⟨⟨_,hf,by simpa using hd⟩,by simp⟩⟩
  refine (hg.declarators hf.stop.advance inHead).mono ?_
  rintro others e ⟨⟨_,ho,hds⟩,_⟩
  exact ⟨⟨_,(hf.punct hk).append ho,List.forall_mem_cons.mpr ⟨hd,hds⟩⟩,by simp⟩

lemma isSilent_of_declares {kind : VariableKind} (h : c.declares? = some kind) :
    c.current.kind.isSilent := by
  unfold Cursor.declares? at h
  split at h
  · next hk => rw [hk]; rfl
  · next hk => rw [hk]; rfl
  · next hk => rw [hk]; rfl
  · contradiction

theorem declarationHead_yields (hg : g.Sound) (hc : c.WellFormed)
    (hk : c.current.kind.isSilent) (kind : VariableKind) (inHead : Bool) :
    Yields (declarationHead g kind inHead) s c fun r d =>
      ∃ tokens declarators, r = (c.current.span.start,.variableDeclaration kind declarators) ∧
        Built s.inFunction c tokens declarators d ∧ tokens ≠ [] ∧
        (Shape.variableDeclaration kind declarators).Admissible := by
  simp only [declarationHead,yields_bind,yields_start,yields_advance,yields_pure]
  refine (hg.declarators hc.advance inHead).mono ?_
  rintro declarators d ⟨⟨_,hd,hds⟩,hne⟩
  exact ⟨_,_,rfl,((Built.done hc).pass hk).append hd,by simp,hne,hds⟩

theorem variableStatement_yields (hg : g.Sound) (hc : c.WellFormed)
    (hk : c.current.kind.isSilent) (kind : VariableKind) :
    Yields (variableStatement g kind) s c (One Tree.isStatement s.inFunction c) := by
  rw [variableStatement,yields_bind]
  refine (declarationHead_yields hg hc hk kind false).mono ?_
  rintro r d ⟨_,declarators,rfl,hd,hne,ha⟩
  exact ended_yields hd ha hne (.inl rfl) fun _ _ => rfl

theorem expressionStatement_yields (hg : g.Sound) (hc : c.WellFormed) :
    Yields (expressionStatement g) s c (One Tree.isStatement s.inFunction c) := by
  rw [expressionStatement,yields_bind,yields_start,yields_bind]
  refine (expression_yields hg hc false).mono ?_
  rintro expression d ⟨_,he,hx⟩
  exact ended_yields he hx (he.tokens_ne_nil (by simp)) (.inl rfl) fun _ _ => rfl

section Worded
variable {w : Keyword}

theorem ifStatement_yields (hg : g.Sound) (hc : c.WellFormed) (hk : c.current.kind = .reserved w) :
    Yields (ifStatement g) s c (One Tree.isStatement s.inFunction c) := by
  have hif := (Built.done (b := s.inFunction) hc).word hk
  simp only [ifStatement,yields_bind,yields_start,yields_advance]
  refine (parenthesized_yields hg hc.advance).mono ?_
  rintro test d ⟨_,ht,hx⟩
  refine ((hg.statement ht.stop).and hg.greedy).mono ?_
  rintro consequent e ⟨⟨_,hq,hs⟩,hclosed⟩
  simp only [yields_eatWord,reduceIte,Bool.false_eq_true,yields_bind,yields_map,yields_pure,
    yields_finish]
  have hb := (hif.append ht).append hq
  refine ⟨fun hk' => ?_,fun _ => ?_⟩
  · refine (hg.statement hq.stop.advance).mono ?_
    rintro alternate f ⟨_,ha,hs'⟩
    have hadmissible : (Shape.ifStatement test consequent (some alternate)).Admissible :=
      ⟨hx,hs,by simpa using hs',fun _ hopen => hclosed hopen hk'⟩
    exact ⟨_,((hb.word hk').append ha).finish hadmissible (by simp) (.inl rfl) trivial,rfl⟩
  · have hchildren : Built s.inFunction c _ (Shape.ifStatement test consequent none).children e :=
      hb
    exact ⟨_,hchildren.finish ⟨hx,hs,by simp,by simp⟩ (by simp) (.inl rfl) trivial,rfl⟩

theorem whileLoop_yields (hg : g.Sound) (hc : c.WellFormed) (hk : c.current.kind = .reserved w) :
    Yields (whileLoop g) s c (One Tree.isStatement s.inFunction c) := by
  have hwhile := (Built.done (b := s.inFunction) hc).word hk
  simp only [whileLoop,yields_bind,yields_start,yields_advance,yields_finish]
  refine (parenthesized_yields hg hc.advance).mono ?_
  rintro test d ⟨_,ht,hx⟩
  refine (hg.statement ht.stop).mono ?_
  rintro body e ⟨_,hb,hs⟩
  exact ⟨_,((hwhile.append ht).append hb).finish ⟨hx,hs⟩ (by simp) (.inl rfl) trivial,rfl⟩

theorem doWhile_yields (hg : g.Sound) (hc : c.WellFormed) (hk : c.current.kind = .reserved w) :
    Yields (doWhile g) s c (One Tree.isStatement s.inFunction c) := by
  have hdo := (Built.done (b := s.inFunction) hc).word hk
  simp only [doWhile,yields_bind,yields_start,yields_advance,yields_expectWord,
    yields_eatPunct,yields_finish]
  refine (hg.statement hc.advance).mono ?_
  rintro body d ⟨_,hb,hs⟩ hk'
  refine (parenthesized_yields hg hb.stop.advance).mono ?_
  rintro test e ⟨_,ht,hx⟩
  have hall := ((hdo.append hb).word hk').append ht
  refine ⟨fun hk'' => ?_,fun _ => ?_⟩
  · exact ⟨_,(hall.punct hk'').finish ⟨hs,hx⟩ (by simp) (.inl rfl) trivial,rfl⟩
  · exact ⟨_,hall.finish ⟨hs,hx⟩ (by simp) (.inl rfl) trivial,rfl⟩

theorem withStatement_yields (hg : g.Sound) (hc : c.WellFormed)
    (hk : c.current.kind = .reserved w) :
    Yields (withStatement g) s c (One Tree.isStatement s.inFunction c) := by
  have hwith := (Built.done (b := s.inFunction) hc).word hk
  simp only [withStatement,yields_bind,yields_start,yields_advance,yields_finish]
  refine (parenthesized_yields hg hc.advance).mono ?_
  rintro subject d ⟨_,hsubject,hx⟩
  refine (hg.statement hsubject.stop).mono ?_
  rintro body e ⟨_,hb,hs⟩
  exact ⟨_,((hwith.append hsubject).append hb).finish ⟨hx,hs⟩ (by simp) (.inl rfl) trivial,rfl⟩

theorem returnStatement_yields (hg : g.Sound) (hc : c.WellFormed)
    (hk : c.current.kind = .reserved w) :
    Yields (returnStatement g) s c (One Tree.isStatement s.inFunction c) := by
  have hreturn := (Built.done (b := s.inFunction) hc).word hk
  simp only [returnStatement,yields_bind,yields_start,yields_read]
  split
  · next hf =>
    rw [yields_bind,yields_advance,yields_bind,yields_current]
    split
    · rw [yields_bind,yields_pure]
      have hchildren : Built s.inFunction c _ (Shape.returnStatement none).children c.advance :=
        hreturn
      exact ended_yields hchildren (by simp [Shape.Admissible]) (by simp) (.inr hf)
        fun _ _ => rfl
    · rw [yields_bind,yields_map]
      refine (hg.expression hc.advance false).mono ?_
      rintro argument d ⟨_,ha,hx⟩
      have hchildren : Built s.inFunction c _ (Shape.returnStatement (some argument)).children d :=
        hreturn.append ha
      exact ended_yields hchildren (by simpa [Shape.Admissible] using hx) (by simp) (.inr hf)
        fun _ _ => rfl
  · exact yields_fail

/-- Both jumps have nothing but their label below them. -/
theorem jump_yields (hc : c.WellFormed) (hk : c.current.kind = .reserved w)
    {shape : Option Tree → Shape Tree} (hchildren : ∀ label, (shape label).children = label.toList)
    (ha : ∀ label : Option Tree, (∀ l ∈ label, l.isName) → (shape label).Admissible)
    (hr : ∀ label, (shape label).isReturn = false)
    (hs : ∀ label i span, (Tree.node i span (shape label)).isStatement) :
    Yields (jump shape) s c (One Tree.isStatement s.inFunction c) := by
  have hjump := (Built.done (b := s.inFunction) hc).word hk
  have hend (label : Option Tree) {tokens : List Token} {d : Cursor}
      (h : Built s.inFunction c tokens label.toList d) (hne : tokens ≠ [])
      (hn : ∀ l ∈ label, l.isName) :
      Yields (endStatement >>= fun _ => finish c.current.span.start (shape label)) s d
        (One Tree.isStatement s.inFunction c) := by
    rw [← hchildren] at h
    exact ended_yields h (ha label hn) hne (.inl (hr label)) (hs label)
  have hbare : Yields (endStatement >>= fun _ => finish c.current.span.start (shape none)) s
      c.advance (One Tree.isStatement s.inFunction c) :=
    hend none hjump (by simp) (by simp)
  rw [jump,yields_bind,yields_start,yields_bind,yields_advance,yields_bind,yields_current]
  split
  · split
    · rw [yields_bind,yields_pure]
      exact hbare
    · rw [yields_bind,yields_map]
      refine (bindingName_yields hc.advance).mono ?_
      rintro label d ⟨_,hl,hn⟩
      exact hend (some label) (hjump.append hl) (by simp) (by simpa using hn)
  · rw [yields_bind,yields_pure]
    exact hbare

theorem throwStatement_yields (hg : g.Sound) (hc : c.WellFormed)
    (hk : c.current.kind = .reserved w) :
    Yields (throwStatement g) s c (One Tree.isStatement s.inFunction c) := by
  have hthrow := (Built.done (b := s.inFunction) hc).word hk
  simp only [throwStatement,yields_bind,yields_start,yields_advance,yields_current]
  split
  · exact yields_fail
  · rw [yields_bind]
    refine (hg.expression hc.advance false).mono ?_
    rintro argument d ⟨_,ha,hx⟩
    have hchildren : Built s.inFunction c _ (Shape.throwStatement argument).children d :=
      hthrow.append ha
    exact ended_yields hchildren hx (by simp) (.inl rfl) fun _ _ => rfl

end Worded

/-- The head of a loop may declare variables. -/
def Headed (b : Bool) (c : Cursor) (head : Option Tree) (d : Cursor) : Prop :=
  ∃ tokens, Built b c tokens head.toList d ∧
    ∀ t ∈ head, t.isExpression ∨ t.isVariableDeclaration

theorem forHead_yields (hg : g.Sound) (hc : c.WellFormed) :
    Yields (forHead g) s c (Headed s.inFunction c) := by
  rw [forHead,yields_bind,yields_atPunct]
  split
  · rw [yields_pure]
    exact ⟨_,.done hc,by simp⟩
  · rw [yields_bind,yields_get]
    split
    · next kind hk =>
      rw [yields_bind]
      refine (declarationHead_yields hg hc (isSilent_of_declares hk) kind true).mono ?_
      rintro r d ⟨_,declarators,rfl,hd,hne,ha⟩
      simp only [yields_bind,yields_finish,yields_pure]
      have hchildren : Built s.inFunction c _ (Shape.variableDeclaration kind declarators).children
        d := hd
      exact ⟨_,hchildren.finish ha hne (.inl rfl) trivial,
        by simp [Tree.isVariableDeclaration,Tree.shape]⟩
    · simp only [yields_bind,yields_pure]
      refine (hg.expression hc true).mono ?_
      rintro head d ⟨_,hb,hx⟩
      exact ⟨_,hb,by simp [hx]⟩

section Loops
variable {d : Cursor} {tokens : List Token}

/-- A loop over the members of a value, from the word that follows what it binds. -/
theorem forMembers_yields (hg : g.Sound) {left : Tree}
    (h : Built s.inFunction c tokens [left] d) (hk : d.current.kind.isSilent)
    (hl : left.isExpression ∨ left.isVariableDeclaration)
    {shape : Tree → Tree → Tree → Shape Tree} (hshape : shape = .forOf ∨ shape = .forIn)
    {right : Parser Tree}
    (hright : Yields right s d.advance (One Tree.isExpression s.inFunction d.advance)) :
    Yields (forMembers g c.current.span.start left shape right) s d
      (One Tree.isStatement s.inFunction c) := by
  rw [forMembers]
  split
  · next htarget =>
    simp only [yields_bind,yields_advance,yields_expectPunct,yields_finish]
    refine hright.mono ?_
    rintro right e ⟨_,hr,hx⟩ hk'
    refine (hg.statement hr.stop.advance).mono ?_
    rintro body f ⟨_,hb,hs⟩
    have hall := (((h.pass hk).append hr).punct hk').append hb
    rcases hshape with rfl | rfl
    · exact ⟨_,hall.finish ⟨htarget,hl,hx,hs⟩ (by simp) (.inl rfl) trivial,rfl⟩
    · exact ⟨_,hall.finish ⟨htarget,hl,hx,hs⟩ (by simp) (.inl rfl) trivial,rfl⟩
  · exact yields_failAt

/-- A part of the head of a loop that may be left out before a given token. -/
lemma optional_yields (hg : g.Sound) (hd : d.WellFormed) (p : Punct) {f : Option Tree → Parser Tree}
    {Q : Tree → Cursor → Prop}
    (hf : ∀ part e, (∃ more, Built s.inFunction d more part.toList e) →
      (∀ t ∈ part, t.isExpression) → Yields (f part) s e Q) :
    Yields (atPunct p >>= fun absent => if absent = true then pure none >>= f
      else some <$> g.expression false >>= f) s d Q := by
  rw [yields_bind,yields_atPunct]
  split
  · rw [yields_bind,yields_pure]
    exact hf none d ⟨_,.done hd⟩ (by simp)
  · rw [yields_bind,yields_map]
    refine (hg.expression hd false).mono ?_
    rintro part e ⟨more,hb,hx⟩
    exact hf (some part) e ⟨more,hb⟩ (by simpa using hx)

/-- A loop with a test and a step, from the semicolon after its first part. -/
theorem forSteps_yields (hg : g.Sound) {head : Option Tree}
    (h : Built s.inFunction c tokens head.toList d)
    (hh : ∀ t ∈ head, t.isExpression ∨ t.isVariableDeclaration) :
    Yields (forSteps g c.current.span.start head) s d (One Tree.isStatement s.inFunction c) := by
  rw [forSteps,yields_bind,yields_expectPunct]
  intro hk
  refine optional_yields hg h.stop.advance .semicolon ?_
  rintro test e ⟨_,ht⟩ hx
  rw [yields_bind,yields_expectPunct]
  intro hk'
  refine optional_yields hg ht.stop.advance .closeParen ?_
  rintro step f ⟨_,hstep⟩ hy
  simp only [yields_bind,yields_expectPunct,yields_finish]
  intro hk''
  refine (hg.statement hstep.stop.advance).mono ?_
  rintro body i ⟨_,hb,hs⟩
  have hall := (((((h.punct hk).append ht).punct hk').append hstep).punct hk'').append hb
  exact ⟨_,hall.finish ⟨hh,hx,hy,hs⟩ (by simp) (.inl rfl) trivial,rfl⟩

end Loops

theorem forLoop_yields (hg : g.Sound) (hc : c.WellFormed) {w : Keyword}
    (hk : c.current.kind = .reserved w) :
    Yields (forLoop g) s c (One Tree.isStatement s.inFunction c) := by
  rw [forLoop,yields_bind,yields_start,yields_bind,yields_advance,yields_bind,
    yields_expectPunct]
  intro hk'
  have hfor := ((Built.done (b := s.inFunction) hc).word hk).punct hk'
  rw [yields_bind]
  refine (forHead_yields hg hfor.stop).mono ?_
  rintro head d ⟨_,hb,hh⟩
  have hhead := hfor.append hb
  rw [yields_bind,yields_current]
  split
  · next left hk'' =>
    exact forMembers_yields hg hhead (by rw [hk'']; rfl) (hh left rfl) (.inl rfl)
      (hg.assignment hhead.stop.advance false)
  · next left hk'' =>
    exact forMembers_yields hg hhead (by rw [hk'']; rfl) (hh left rfl) (.inr rfl)
      (hg.expression hhead.stop.advance false)
  · exact forSteps_yields hg hhead hh

theorem catchParameter_yields (hc : c.WellFormed) :
    Yields catchParameter s c fun param d =>
      ∃ tokens, Built s.inFunction c tokens param.toList d ∧ ∀ p ∈ param, p.isName := by
  simp only [catchParameter,yields_bind,yields_eatPunct,reduceIte,Bool.false_eq_true,
    yields_expectPunct,yields_pure]
  refine ⟨fun hk => ?_,fun _ => ⟨_,.done hc,by simp⟩⟩
  refine (bindingName_yields hc.advance).mono ?_
  rintro param d ⟨_,hp,hn⟩ hk'
  exact ⟨_,(((Built.done hc).punct hk).append hp).punct hk',by simpa using hn⟩

theorem catchClause_yields (hg : g.Sound) (hc : c.WellFormed) :
    Yields (catchClause g) s c fun handler d =>
      ∃ tokens, Built s.inFunction c tokens handler.toList d ∧ ∀ h ∈ handler, h.isHandler := by
  simp only [catchClause,yields_bind,yields_start,yields_eatWord,reduceIte,
    Bool.false_eq_true,yields_map,yields_finish,yields_pure]
  refine ⟨fun hk => ?_,fun _ => ⟨_,.done hc,by simp⟩⟩
  refine (catchParameter_yields hc.advance).mono ?_
  rintro param d ⟨_,hp,hn⟩
  refine (block_yields hg hp.stop).mono ?_
  rintro body e ⟨_,hb,hblock⟩
  have hall := (((Built.done hc).word hk).append hp).append hb
  exact ⟨_,hall.finish ⟨hn,hblock⟩ (by simp) (.inl rfl) trivial,by simp [Tree.isHandler,Tree.shape]⟩

theorem tryStatement_yields (hg : g.Sound) (hc : c.WellFormed) {w : Keyword}
    (hk : c.current.kind = .reserved w) :
    Yields (tryStatement g) s c (One Tree.isStatement s.inFunction c) := by
  have htry := (Built.done (b := s.inFunction) hc).word hk
  rw [tryStatement,yields_bind,yields_start,yields_bind,yields_advance,yields_bind]
  refine (block_yields hg hc.advance).mono ?_
  rintro body d ⟨_,hb,hblock⟩
  rw [yields_bind]
  refine (catchClause_yields hg hb.stop).mono ?_
  rintro handler e ⟨_,hh,hhandler⟩
  have hall : Built s.inFunction c _ ([body] ++ handler.toList) e := (htry.append hb).append hh
  simp only [yields_bind,yields_eatWord,reduceIte,Bool.false_eq_true,yields_map,yields_pure]
  refine ⟨fun hk' => ?_,fun _ => ?_⟩
  · refine (block_yields hg hh.stop.advance).mono ?_
    rintro finalizer f ⟨_,hf,hblock'⟩
    simp only [Option.isNone_some,Bool.and_false,Bool.false_eq_true,reduceIte,yields_finish]
    have hchildren : Built s.inFunction c _
        (Shape.tryStatement body handler (some finalizer)).children f := (hall.word hk').append hf
    exact ⟨_,hchildren.finish ⟨hblock,hhandler,by simpa using hblock',by simp⟩ (by simp) (.inl rfl)
      trivial,rfl⟩
  · split
    · exact yields_fail
    · next hsome =>
      rw [yields_finish]
      have hchildren := hall
      rw [show [body] ++ handler.toList = (Shape.tryStatement body handler none).children by
        simp [Shape.children]] at hchildren
      exact ⟨_,hchildren.finish ⟨hblock,hhandler,by simp,
        .inl (by simpa [Option.isSome_iff_ne_none] using hsome)⟩ (by simp) (.inl rfl) trivial,rfl⟩

/-- A case from its colon on, and the cases after it. -/
theorem caseBody_yields (hg : g.Sound) {d : Cursor} {tokens : List Token} {test : Option Tree}
    (h : Built s.inFunction c tokens test.toList d) (ht : ∀ t ∈ test, t.isExpression)
    (hasDefault : Bool) :
    Yields (caseBody g c.current.span.start test hasDefault) s d fun ts e =>
      Many Tree.isCase s.inFunction c ts e ∧
        ts.countP Tree.isDefault + hasDefault.toNat ≤ 1 + if test.isNone then 1 else 0 := by
  simp only [caseBody,yields_bind,yields_expectPunct,yields_finish,yields_pure]
  intro hk
  refine (hg.caseItems h.stop.advance).mono ?_
  rintro consequent e ⟨_,hq,hs⟩
  have hchildren : Built s.inFunction c _ (Shape.switchCase test consequent).children e :=
    (h.punct hk).append hq
  have hfirst := hchildren.finish ⟨ht,hs⟩ (by simp) (.inl rfl) trivial
  refine (hg.cases hfirst.stop hasDefault).mono ?_
  rintro others f ⟨⟨_,ho,hcases⟩,hcount⟩
  refine ⟨⟨_,hfirst.append ho,List.forall_mem_cons.mpr ⟨rfl,hcases⟩⟩,?_⟩
  cases test with
  | none =>
    rw [List.countP_cons_of_pos rfl]
    simp only [Option.isNone_none,reduceIte]
    omega
  | some t =>
    rw [List.countP_cons_of_neg (by simp [Tree.isDefault,Tree.shape])]
    exact hcount

theorem cases_yields (hg : g.Sound) (hc : c.WellFormed) (hasDefault : Bool) :
    Yields (cases g hasDefault) s c fun ts d =>
      Many Tree.isCase s.inFunction c ts d ∧
        ts.countP Tree.isDefault + hasDefault.toNat ≤ 1 := by
  rw [cases,yields_bind,yields_start,yields_bind,yields_current]
  split
  · next hk =>
    simp only [yields_bind,yields_advance,yields_pure]
    exact ⟨⟨_,(Built.done hc).punct hk,by simp⟩,by simpa using hasDefault.toNat_le⟩
  · next hk =>
    rw [yields_bind,yields_advance,yields_bind]
    refine (hg.expression hc.advance false).mono ?_
    rintro test d ⟨_,ht,hx⟩
    have htest : Built s.inFunction c _ (some test).toList d :=
      ((Built.done hc).word hk).append ht
    exact caseBody_yields hg htest (by simpa using hx) hasDefault
  · next hk =>
    split
    · exact yields_fail
    · next hd =>
      rw [yields_bind,yields_advance]
      have htest : Built s.inFunction c _ (none : Option Tree).toList c.advance :=
        (Built.done hc).word hk
      refine (caseBody_yields hg htest (by simp) true).mono ?_
      rintro ts d ⟨hm,hcount⟩
      refine ⟨hm,?_⟩
      simp at hcount hd ⊢
      simp [hd]
      omega
  · exact yields_unexpected

theorem switchStatement_yields (hg : g.Sound) (hc : c.WellFormed) {w : Keyword}
    (hk : c.current.kind = .reserved w) :
    Yields (switchStatement g) s c (One Tree.isStatement s.inFunction c) := by
  have hswitch := (Built.done (b := s.inFunction) hc).word hk
  simp only [switchStatement,yields_bind,yields_start,yields_advance,yields_expectPunct,
    yields_finish]
  refine (parenthesized_yields hg hc.advance).mono ?_
  rintro discriminant d ⟨_,hd,hx⟩ hk'
  refine (hg.cases hd.stop.advance false).mono ?_
  rintro cases e ⟨⟨_,hcs,hcases⟩,hcount⟩
  have hall := ((hswitch.append hd).punct hk').append hcs
  exact ⟨_,hall.finish ⟨hx,hcases,by simpa using hcount⟩ (by simp) (.inl rfl) trivial,rfl⟩

/-- A label is told by the colon after it. -/
theorem labeled_yields (hg : g.Sound) (hc : c.WellFormed)
    (hk : c.next.kind = .punct .colon) :
    Yields (labeled g) s c (One Tree.isStatement s.inFunction c) := by
  simp only [labeled,yields_bind,yields_start,yields_advance,yields_finish]
  refine ((bindingName_yields hc).and bindingName_token).mono ?_
  rintro label d ⟨⟨_,hl,hn⟩,_,hd⟩
  have hcolon : d.current.kind = .punct .colon := by
    rw [hd,hc.advance_current]
    exact hk
  refine (hg.statement hl.stop.advance).mono ?_
  rintro body e ⟨_,hb,hs⟩
  exact ⟨_,((hl.punct hcolon).append hb).finish ⟨hn,hs⟩ (by simp) (.inl rfl) trivial,rfl⟩

theorem wordStatement_yields (hg : g.Sound) (hc : c.WellFormed) {w : Keyword}
    (hk : c.current.kind = .reserved w) :
    Yields (wordStatement g w) s c (One Tree.isStatement s.inFunction c) := by
  have hsilent : c.current.kind.isSilent := by rw [hk]; rfl
  unfold wordStatement
  split
  · exact variableStatement_yields hg hc hsilent .var
  · exact variableStatement_yields hg hc hsilent .const
  · refine (function_yields hg hc (by simp)).mono ?_
    rintro t d ⟨_,ht,hf⟩
    exact ⟨_,ht,Tree.isStatement_of_isFunctionOf hf⟩
  · exact ifStatement_yields hg hc hk
  · exact forLoop_yields hg hc hk
  · exact whileLoop_yields hg hc hk
  · exact doWhile_yields hg hc hk
  · exact returnStatement_yields hg hc hk
  · exact jump_yields hc hk (fun _ => rfl) (fun _ h => h) (fun _ => rfl) (fun _ _ _ => rfl)
  · exact jump_yields hc hk (fun _ => rfl) (fun _ h => h) (fun _ => rfl) (fun _ _ _ => rfl)
  · exact throwStatement_yields hg hc hk
  · exact tryStatement_yields hg hc hk
  · exact switchStatement_yields hg hc hk
  · exact withStatement_yields hg hc hk
  · rw [yields_bind,yields_start,yields_bind,yields_advance]
    have hchildren : Built s.inFunction c _ (Shape.debugger : Shape Tree).children c.advance :=
      (Built.done hc).word hk
    exact ended_yields hchildren trivial (by simp) (.inl rfl) fun _ _ => rfl
  · exact yields_fail
  · exact yields_fail
  · exact yields_fail
  · exact expressionStatement_yields hg hc

theorem statement_yields (hg : g.Sound) (hc : c.WellFormed) :
    Yields (statement g) s c (One Tree.isStatement s.inFunction c) := by
  rw [statement,yields_nested]
  intro _
  rw [yields_bind,yields_get]
  split
  · refine (block_yields hg hc).mono ?_
    rintro t d ⟨_,ht,hb⟩
    exact ⟨_,ht,Tree.isStatement_of_isBlock hb⟩
  · next hk =>
    simp only [yields_bind,yields_start,yields_advance,yields_finish]
    have hchildren : Built s.inFunction c _ (Shape.empty : Shape Tree).children c.advance :=
      (Built.done hc).punct hk
    exact ⟨_,hchildren.finish trivial (by simp) (.inl rfl) trivial,rfl⟩
  · next hk => exact wordStatement_yields hg hc hk
  · split
    · next hk => exact variableStatement_yields hg hc (isSilent_of_declares hk) _
    · split
      · next hk => exact labeled_yields hg hc (by simpa using hk)
      · exact expressionStatement_yields hg hc
  · exact expressionStatement_yields hg hc

/-- The statements of a list, of which the first is read and the others are next. -/
lemma items_yields (hg : g.Sound) (hc : c.WellFormed) {p : Parser (List Tree)} {R : Cursor → Prop}
    (hp : ∀ {d : Cursor}, d.WellFormed → Yields p s d fun ts e =>
      Many Tree.isStatement s.inFunction d ts e ∧ R e) :
    Yields (statement g >>= fun first => p >>= fun others => pure (first :: others)) s c
      fun ts d => Many Tree.isStatement s.inFunction c ts d ∧ R d := by
  simp only [yields_bind,yields_pure]
  refine (statement_yields hg hc).mono ?_
  rintro first d ⟨_,hf,hs⟩
  refine (hp hf.stop).mono ?_
  rintro others e ⟨⟨_,ho,hss⟩,hr⟩
  exact ⟨⟨_,hf.append ho,List.forall_mem_cons.mpr ⟨hs,hss⟩⟩,hr⟩

theorem blockItems_yields (hg : g.Sound) (hc : c.WellFormed) :
    Yields (blockItems g) s c fun ts d =>
      Many Tree.isStatement s.inFunction c ts d ∧ d.current.kind = .punct .closeBrace := by
  rw [blockItems,yields_bind,yields_current]
  split
  · next hk =>
    rw [yields_pure]
    exact ⟨⟨_,.done hc,by simp⟩,hk⟩
  · exact yields_fail
  · exact items_yields hg hc hg.blockItems

theorem caseItems_yields (hg : g.Sound) (hc : c.WellFormed) :
    Yields (caseItems g) s c (Many Tree.isStatement s.inFunction c) := by
  have hnone : Yields (pure []) s c (Many Tree.isStatement s.inFunction c) := by
    rw [yields_pure]
    exact ⟨_,.done hc,by simp⟩
  rw [caseItems,yields_bind,yields_current]
  split
  · exact hnone
  · exact hnone
  · exact hnone
  · exact yields_fail
  · have hitems := items_yields (R := fun _ => True) (s := s) hg hc fun hd =>
      (hg.caseItems hd).mono fun _ _ h => ⟨h,trivial⟩
    exact hitems.mono fun _ _ h => h.1

theorem programItems_yields (hg : g.Sound) (hc : c.WellFormed) :
    Yields (programItems g) s c fun ts d =>
      Many Tree.isStatement s.inFunction c ts d ∧ d.current.kind = .endOfInput := by
  rw [programItems,yields_bind,yields_current]
  split
  · next hk =>
    rw [yields_pure]
    exact ⟨⟨_,.done hc,by simp⟩,hk⟩
  · exact items_yields hg hc hg.programItems

end ScriptLint.Grammar
