import ScriptLint.Proofs.Closing
import ScriptLint.Proofs.Shallow

/-! What the productions for functions and expressions read, given that the productions they call do
as they should. -/
namespace ScriptLint.Grammar

/-- Every production reads trees of its category. A production that goes on from an operand reads
it again with what it adds, from where the operand began. -/
structure Productions.Sound (g : Productions) : Prop where
  expression {s : Surroundings} {c : Cursor} (hc : c.WellFormed) (inHead : Bool) :
    Yields (g.expression inHead) s c (One Tree.isExpression s.inFunction c)
  sequenceTail {s : Surroundings} {c : Cursor} (hc : c.WellFormed) (inHead : Bool) :
    Yields (g.sequenceTail inHead) s c (Many Tree.isExpression s.inFunction c)
  assignment {s : Surroundings} {c : Cursor} (hc : c.WellFormed) (inHead : Bool) :
    Yields (g.assignment inHead) s c (One Tree.isExpression s.inFunction c)
  binary {s : Surroundings} {c : Cursor} (hc : c.WellFormed) (least : Nat) (inHead : Bool) :
    Yields (g.binary least inHead) s c (One Tree.isExpression s.inFunction c)
  binaryTail {s : Surroundings} {c d : Cursor} {left : Tree}
    (h : One Tree.isExpression s.inFunction c left d) (least : Nat) (inHead : Bool) :
    Yields (g.binaryTail c.current.span.start least inHead left) s d
      (One Tree.isExpression s.inFunction c)
  unary {s : Surroundings} {c : Cursor} (hc : c.WellFormed) :
    Yields g.unary s c (One Tree.isExpression s.inFunction c)
  accessTail {s : Surroundings} {c d : Cursor} {owner : Tree}
    (h : One Tree.isExpression s.inFunction c owner d) :
    Yields (g.accessTail c.current.span.start owner) s d (One Tree.isExpression s.inFunction c)
  construct {s : Surroundings} {c : Cursor} (hc : c.WellFormed) :
    Yields g.construct s c (One Tree.isExpression s.inFunction c)
  constructTail {s : Surroundings} {c d : Cursor} {callee : Tree}
    (h : One Tree.isExpression s.inFunction c callee d) :
    Yields (g.constructTail c.current.span.start callee) s d (One Tree.isExpression s.inFunction c)
  arguments {s : Surroundings} {c : Cursor} (hc : c.WellFormed) :
    Yields g.arguments s c (Many Tree.isItem s.inFunction c)
  elements {s : Surroundings} {c : Cursor} (hc : c.WellFormed) :
    Yields g.elements s c fun es d =>
      Many Tree.isItem s.inFunction c (es.filterMap id) d ∧ d.current.kind = .punct .closeBracket
  properties {s : Surroundings} {c : Cursor} (hc : c.WellFormed) :
    Yields g.properties s c fun ts d =>
      Many Tree.isProperty s.inFunction c ts d ∧ d.current.kind = .punct .closeBrace
  parameters {s : Surroundings} {c : Cursor} (hc : c.WellFormed) :
    Yields g.parameters s c (Many Tree.isParameter s.inFunction c)
  declarators {s : Surroundings} {c : Cursor} (hc : c.WellFormed) (inHead : Bool) :
    Yields (g.declarators inHead) s c fun ts d =>
      Many Tree.isDeclarator s.inFunction c ts d ∧ ts ≠ []
  statement {s : Surroundings} {c : Cursor} (hc : c.WellFormed) :
    Yields g.statement s c (One Tree.isStatement s.inFunction c)
  greedy {s : Surroundings} {c : Cursor} : Yields g.statement s c Closed
  blockItems {s : Surroundings} {c : Cursor} (hc : c.WellFormed) :
    Yields g.blockItems s c fun ts d =>
      Many Tree.isStatement s.inFunction c ts d ∧ d.current.kind = .punct .closeBrace
  caseItems {s : Surroundings} {c : Cursor} (hc : c.WellFormed) :
    Yields g.caseItems s c (Many Tree.isStatement s.inFunction c)
  cases {s : Surroundings} {c : Cursor} (hc : c.WellFormed) (hasDefault : Bool) :
    Yields (g.cases hasDefault) s c fun ts d =>
      Many Tree.isCase s.inFunction c ts d ∧ ts.countP Tree.isDefault + hasDefault.toNat ≤ 1
  programItems {s : Surroundings} {c : Cursor} (hc : c.WellFormed) :
    Yields g.programItems s c fun ts d =>
      Many Tree.isStatement s.inFunction c ts d ∧ d.current.kind = .endOfInput
  capped : g.Capped
  closing : g.Closing

variable {g : Productions} {s : Surroundings} {c : Cursor}

theorem bindingName_yields (hc : c.WellFormed) :
    Yields bindingName s c (One Tree.isName s.inFunction c) := by
  simp only [bindingName,yields_bind,yields_start,yields_current]
  split
  · next name hk =>
    simp only [yields_bind,yields_advance,yields_finish]
    exact ⟨_,.leaf hc (hk ▸ .name name),hc.name hk⟩
  · exact yields_fail
  · exact yields_fail
  · exact yields_failWith

/-- A name is one token. -/
theorem bindingName_token :
    Yields bindingName s c fun t d =>
      t.span.start = c.current.span.start ∧ d.current = c.advance.current := by
  simp only [bindingName,yields_bind,yields_start,yields_current]
  split
  · simp only [yields_bind,yields_advance,yields_finish]
    exact ⟨rfl,trivial⟩
  · exact yields_fail
  · exact yields_fail
  · exact yields_failWith

theorem propertyName_yields (hc : c.WellFormed) :
    Yields propertyName s c (One (·.name?.isSome) s.inFunction c) := by
  simp only [propertyName,yields_bind,yields_start,yields_current]
  split
  · next name hk =>
    simp only [yields_bind,yields_advance,yields_finish]
    exact ⟨_,.leaf hc (hk ▸ .name name),rfl⟩
  · next w hk =>
    simp only [yields_bind,yields_advance,yields_finish]
    exact ⟨_,.leaf hc (hk ▸ .word w),rfl⟩
  · exact yields_failWith

theorem parameter_yields (hg : g.Sound) (hc : c.WellFormed) :
    Yields (parameter g) s c (One Tree.isParameter s.inFunction c) := by
  simp only [parameter,yields_bind,yields_start,yields_eatPunct,reduceIte,Bool.false_eq_true]
  refine ⟨fun he => ?_,fun _ => ?_⟩
  · refine (bindingName_yields hc.advance).mono ?_
    rintro target d ⟨_,ht,hn⟩
    rw [yields_finish]
    exact ⟨_,(((Built.done hc).punct he).append ht).finish hn (by simp) (.inl rfl) trivial,rfl⟩
  · refine (bindingName_yields hc).mono ?_
    rintro target d ⟨_,ht,hn⟩
    refine ⟨fun ha => ?_,fun _ => ?_⟩
    · refine (hg.assignment ht.stop.advance false).mono ?_
      rintro value e ⟨_,hv,hx⟩
      rw [yields_finish]
      exact ⟨_,((ht.punct ha).append hv).finish ⟨hn,hx⟩ (by simp) (.inl rfl) trivial,rfl⟩
    · rw [yields_pure]
      exact ⟨_,ht,Tree.isParameter_of_isName hn⟩

theorem parameters_yields (hg : g.Sound) (hc : c.WellFormed) :
    Yields (parameters g) s c (Many Tree.isParameter s.inFunction c) := by
  simp only [parameters,yields_bind,yields_atPunct]
  split
  · rw [yields_pure]
    exact ⟨_,.done hc,by simp⟩
  · simp only [yields_bind,yields_eatPunct,reduceIte,Bool.false_eq_true,yields_pure]
    refine (parameter_yields hg hc).mono ?_
    rintro first d ⟨_,hf,hp⟩
    refine ⟨fun hk => ?_,fun _ => ⟨_,hf,by simpa using hp⟩⟩
    refine (hg.parameters hf.stop.advance).mono ?_
    rintro others e ⟨_,ho,hps⟩
    exact ⟨_,(hf.punct hk).append ho,List.forall_mem_cons.mpr ⟨hp,hps⟩⟩

theorem parameterList_yields (hg : g.Sound) (hc : c.WellFormed) :
    Yields (parameterList g) s c (Many Tree.isParameter s.inFunction c) := by
  simp only [parameterList,yields_bind,yields_expectPunct,yields_pure]
  intro hk
  refine (hg.parameters hc.advance).mono ?_
  rintro params d ⟨_,hp,hps⟩ hk'
  exact ⟨_,(((Built.done hc).punct hk).append hp).punct hk',hps⟩

theorem block_yields (hg : g.Sound) (hc : c.WellFormed) :
    Yields (block g) s c (One Tree.isBlock s.inFunction c) := by
  simp only [block,yields_bind,yields_start,yields_expectPunct]
  intro hk
  refine (hg.blockItems hc.advance).mono ?_
  rintro body d ⟨⟨_,hb,hs⟩,hk'⟩
  simp only [yields_advance,yields_finish]
  exact ⟨_,((((Built.done hc).punct hk).append hb).punct hk').finish hs (by simp) (.inl rfl) trivial,rfl⟩

theorem functionBody_yields (hg : g.Sound) (hc : c.WellFormed) :
    Yields (functionBody g) s c (One Tree.isBlock true c) := by
  rw [functionBody,yields_insideFunction]
  exact block_yields hg hc

/-- A function from its parameters on, once its name is read. -/
lemma functionTail_yields (hg : g.Sound) {d : Cursor} {tokens : List Token} {kind : FunctionKind}
    {name : Option Tree} (h : Built s.inFunction c tokens name.toList d)
    (hn : ∀ n ∈ name, n.isName) (hd : kind = .declaration → name.isSome) (ha : kind ≠ .arrow) :
    Yields (parameterList g >>= fun params => functionBody g >>= fun body =>
        finish c.current.span.start (.function kind name params body)) s d
      (One (Tree.isFunctionOf kind) s.inFunction c) := by
  simp only [yields_bind,yields_finish]
  refine (parameterList_yields hg h.stop).mono ?_
  rintro params e ⟨_,hp,hps⟩
  refine (functionBody_yields hg hp.stop).mono ?_
  rintro body f ⟨_,hb,hblock⟩
  refine ⟨_,(h.append hp).function hb ⟨hn,hd,fun hk => absurd hk ha,hps,.inl hblock⟩,?_⟩
  simp [Tree.isFunctionOf,Tree.shape]

theorem function_yields (hg : g.Sound) (hc : c.WellFormed) {kind : FunctionKind}
    (ha : kind ≠ .arrow) :
    Yields (function g kind) s c
      (One (Tree.isFunctionOf kind) s.inFunction c) := by
  simp only [function,yields_bind,yields_start,yields_expectWord]
  intro hw
  have hstar : Yields (eatPunct .star) s c.advance
      (fun _ d => ∃ tokens, Built s.inFunction c tokens [] d) := by
    have hb := (Built.done (b := s.inFunction) hc).word hw
    rw [yields_eatPunct]
    exact ⟨fun hk => ⟨_,hb.punct hk⟩,fun _ => ⟨_,hb⟩⟩
  refine hstar.mono ?_
  rintro _ d ⟨tokens,hb⟩
  -- Whether there is a name is settled in several branches; the rest is the same in all of them.
  have hnamed : Yields (some <$> bindingName >>= fun name => parameterList g >>= fun params =>
      functionBody g >>= fun body =>
        finish c.current.span.start (.function kind name params body)) s d
      (One (Tree.isFunctionOf kind) s.inFunction c) := by
    rw [yields_bind,yields_map]
    refine (bindingName_yields hb.stop).mono ?_
    rintro name e ⟨_,hn,hname⟩
    exact functionTail_yields hg (hb.append hn) (by simpa using hname) (by simp) ha
  split
  · rw [yields_bind,yields_pure]
    exact hnamed
  · next hk =>
    rw [yields_bind,yields_current]
    split
    · rw [yields_bind,yields_pure]
      exact hnamed
    · rw [yields_bind,yields_pure]
      exact hnamed
    · rw [yields_bind,yields_pure,if_neg Bool.false_ne_true,yields_bind,yields_pure]
      have hnone : Built s.inFunction c tokens (none : Option Tree).toList d := hb
      exact functionTail_yields hg hnone (by simp) (fun h => absurd h hk) ha

/-- An arrow function from its arrow on, once its parameters are read. -/
lemma arrowTail_yields (hg : g.Sound) {d : Cursor} {tokens : List Token} {params : List Tree}
    (h : Built s.inFunction c tokens params d) (hps : ∀ p ∈ params, p.isParameter) :
    Yields (do
      expectPunct .arrow
      let body ← if ← atPunct .openBrace then functionBody g else g.assignment false
      finish c.current.span.start (.function .arrow none params body)) s d
      (One Tree.isExpression s.inFunction c) := by
  simp only [yields_bind,yields_expectPunct,yields_atPunct]
  intro hk
  have hparams : Built s.inFunction c (tokens ++ [d.current])
      ((none : Option Tree).toList ++ params) d.advance := h.punct hk
  split
  · simp only [yields_bind,yields_finish]
    refine (functionBody_yields hg hparams.stop).mono ?_
    rintro body e ⟨_,hb,hblock⟩
    exact ⟨_,hparams.function hb ⟨by simp,by simp,by simp,hps,.inl hblock⟩,rfl⟩
  · simp only [yields_bind,yields_finish]
    refine (hg.assignment hparams.stop false).mono ?_
    rintro body e ⟨_,hb,hx⟩
    exact ⟨_,hparams.function hb.inside ⟨by simp,by simp,by simp,hps,.inr ⟨rfl,hx⟩⟩,rfl⟩

theorem arrowFunction_yields (hg : g.Sound) (hc : c.WellFormed) :
    Yields (arrowFunction g) s c (One Tree.isExpression s.inFunction c) := by
  rw [arrowFunction,yields_bind,yields_start,yields_bind,yields_atPunct]
  split
  · rw [yields_bind]
    refine (parameterList_yields hg hc).mono ?_
    rintro params d ⟨_,hp,hps⟩
    exact arrowTail_yields hg hp hps
  · rw [yields_bind]
    refine (bindingName_yields hc).mono ?_
    rintro param d ⟨_,hp,hn⟩
    rw [yields_bind,yields_pure]
    exact arrowTail_yields hg hp (by simpa using Tree.isParameter_of_isName hn)

theorem argumentList_yields (hg : g.Sound) (hc : c.WellFormed) :
    Yields (argumentList g) s c (Many Tree.isItem s.inFunction c) := by
  simp only [argumentList,yields_bind,yields_expectPunct,yields_pure]
  intro hk
  refine (hg.arguments hc.advance).mono ?_
  rintro items d ⟨_,hi,his⟩ hk'
  exact ⟨_,(((Built.done hc).punct hk).append hi).punct hk',his⟩

theorem literal_yields {kind : LiteralKind} {raw : String} (hc : c.WellFormed)
    (hl : Leaf c.current.kind (.literal kind raw)) :
    Yields (literal kind raw) s c fun t d =>
      One Tree.isExpression s.inFunction c t d ∧ t.shape = .literal kind raw := by
  simp only [literal,yields_bind,yields_start,yields_advance,yields_finish]
  exact ⟨⟨_,.leaf hc hl,rfl⟩,rfl⟩

theorem array_yields (hg : g.Sound) (hc : c.WellFormed) :
    Yields (array g) s c (One Tree.isExpression s.inFunction c) := by
  simp only [array,yields_bind,yields_start,yields_expectPunct,yields_advance,yields_finish]
  intro hk
  refine (hg.elements hc.advance).mono ?_
  rintro elements d ⟨⟨_,he,hi⟩,hk'⟩
  exact ⟨_,((((Built.done hc).punct hk).append he).punct hk').finish hi (by simp) (.inl rfl) trivial,rfl⟩

theorem object_yields (hg : g.Sound) (hc : c.WellFormed) :
    Yields (object g) s c (One Tree.isExpression s.inFunction c) := by
  simp only [object,yields_bind,yields_start,yields_expectPunct,yields_advance,yields_finish]
  intro hk
  refine (hg.properties hc.advance).mono ?_
  rintro properties d ⟨⟨_,hp,hi⟩,hk'⟩
  exact ⟨_,((((Built.done hc).punct hk).append hp).punct hk').finish hi (by simp) (.inl rfl) trivial,rfl⟩

/-- A key is an expression when it is computed and is written out otherwise. What is passed after
it closes around it. -/
def Keyed (b : Bool) (c : Cursor) (key : Tree) (computed : Bool) (d : Cursor) : Prop :=
  ∃ tokens, Built b c tokens [key] d ∧ key.Trails tokens ∧
    (if computed then key.isExpression else key.isKey)

theorem propertyKey_yields (hg : g.Sound) (hc : c.WellFormed) :
    Yields (propertyKey g) s c fun key d => Keyed s.inFunction c key.1 key.2 d := by
  have hword : Yields (propertyName >>= fun key => pure (key,false)) s c
      fun key d => Keyed s.inFunction c key.1 key.2 d := by
    simp only [yields_bind,yields_pure]
    refine ((propertyName_yields hc).and propertyName_shut).mono ?_
    rintro key d ⟨⟨_,hk,hn⟩,hshut⟩
    exact ⟨_,hk,hshut.trails hc hk.reads,Tree.isKey_of_name hn⟩
  have hliteral {kind : LiteralKind} {raw : String} (hl : Leaf c.current.kind (.literal kind raw))
      (hkey : ∀ i span, (Tree.node i span (.literal kind raw)).isKey) :
      Yields (literal kind raw >>= fun key => pure (key,false)) s c
        fun key d => Keyed s.inFunction c key.1 key.2 d := by
    simp only [yields_bind,yields_pure]
    refine ((literal_yields hc hl).and literal_shut).mono ?_
    rintro ⟨i,span,shape⟩ d ⟨⟨⟨_,hk,_⟩,hs⟩,hshut⟩
    obtain rfl : shape = _ := hs
    exact ⟨_,hk,hshut.trails hc hk.reads,hkey i span⟩
  rw [propertyKey,yields_bind,yields_current]
  split
  · next hk =>
    simp only [yields_bind,yields_advance,yields_expectPunct,yields_pure]
    refine ((hg.assignment hc.advance false).and (hg.closing.assignment hc.advance false)).mono ?_
    rintro key d ⟨⟨_,hkey,hx⟩,hshut⟩ hk'
    refine ⟨_,(((Built.done hc).punct hk).append hkey).punct hk',?_,hx⟩
    exact ((hshut.trails hc.advance hkey.reads).prepend _).close (by rw [hk']; rfl)
  · exact hword
  · exact hword
  · next raw hk => exact hliteral (hk ▸ .string raw) fun _ _ => rfl
  · next raw hk => exact hliteral (hk ▸ .number raw) fun _ _ => rfl
  · exact yields_unexpected

/-- What is read after a key begins with the sign that follows it. -/
lemma followedBy {d e : Cursor} {tokens more : List Token} {key : Tree} {trees : List Tree}
    {sign : Punct} (hkey : key.Trails tokens) (h : Reads d more trees e) (hd : d.WellFormed)
    (hne : more ≠ []) (hk : d.current.kind = .punct sign) :
    key.FollowedBy (tokens ++ more) sign := by
  obtain ⟨others,rfl⟩ := h.exists_first hd hne
  exact ⟨tokens,d.current,others,rfl,hkey,hk⟩

theorem propertyValue_yields (hg : g.Sound) {d : Cursor} {key : Tree} {computed : Bool}
    (h : Keyed s.inFunction c key computed d) (accessor : Bool) :
    Yields (propertyValue g c.current.span.start accessor key computed) s d
      (One Tree.isProperty s.inFunction c) := by
  obtain ⟨tokens,hb,htrails,hkey⟩ := h
  rw [propertyValue,yields_bind,yields_current]
  split
  · next hk =>
    simp only [Bool.and_eq_true,beq_iff_eq] at hk
    simp only [yields_bind,yields_advance,yields_finish]
    refine (hg.assignment hb.stop.advance false).mono ?_
    rintro value e ⟨_,hv,hx⟩
    have hcolon := ((Built.done hb.stop).punct hk.2).append hv
    have hboth := hb.append hcolon
    have hordered := (hboth.reads.row hb.start).ordered
    have hnext := followedBy htrails hcolon.reads hb.stop (by simp) hk.2
    exact ⟨_,hboth.finish ⟨hkey,hx⟩ (by simp) (.inl rfl) (.inl ⟨hnext,by simpa using hordered⟩),rfl⟩
  · split
    · next hk =>
      simp only [yields_bind,yields_finish]
      refine (parameterList_yields hg hb.stop).mono ?_
      rintro params e ⟨_,hp,hps⟩
      refine (functionBody_yields hg hp.stop).mono ?_
      rintro body f ⟨_,hbody,hblock⟩
      have hnext := followedBy htrails (hp.reads.append hbody.reads) hb.stop
        (by simp [hbody.tokens_ne_nil]) (by simpa using hk)
      rw [← List.append_assoc] at hnext
      exact ⟨_,(hb.append hp).method hbody rfl hps hblock hkey hnext,rfl⟩
    · dsimp only
      split
      · next name hs =>
        split
        · next hk =>
          simp only [Bool.and_eq_true] at hk
          have hname : key.isName := by
            unfold Tree.isName
            rw [hs]
            exact hk.1.2.2
          rw [yields_finish]
          exact ⟨_,hb.finish hname (hb.tokens_ne_nil (by simp)) (.inl rfl) trivial,rfl⟩
        · exact yields_unexpected
      · simp only [Bool.and_false,Bool.false_and,Bool.false_eq_true,reduceIte]
        exact yields_unexpected

theorem property_yields (hg : g.Sound) (hc : c.WellFormed) :
    Yields (property g) s c (One Tree.isProperty s.inFunction c) := by
  simp only [property,yields_bind,yields_start,yields_eatPunct,reduceIte,Bool.false_eq_true,
    yields_get,yields_finish]
  refine ⟨fun hk => ?_,fun _ => ?_⟩
  · refine (hg.assignment hc.advance false).mono ?_
    rintro argument d ⟨_,ha,hx⟩
    exact ⟨_,(((Built.done hc).punct hk).append ha).finish hx (by simp) (.inl rfl) trivial,rfl⟩
  · split
    · next hk =>
      have hsilent : c.current.kind.isSilent := by
        simp only [Cursor.startsAccessor,Bool.and_eq_true,Bool.or_eq_true,beq_iff_eq] at hk
        rcases hk.1 with hk | hk <;> rw [hk] <;> rfl
      have hfirst := (Built.done (b := s.inFunction) hc).pass hsilent
      simp only [yields_bind,yields_advance]
      refine (propertyKey_yields hg hc.advance).mono ?_
      rintro ⟨key,computed⟩ d ⟨_,hkey,htrails,hx⟩
      exact propertyValue_yields hg ⟨_,hfirst.append hkey,htrails.prepend _,hx⟩ _
    · rw [yields_bind]
      refine (propertyKey_yields hg hc).mono ?_
      rintro ⟨key,computed⟩ d hkey
      exact propertyValue_yields hg hkey _

theorem properties_yields (hg : g.Sound) (hc : c.WellFormed) :
    Yields (properties g) s c fun ts d =>
      Many Tree.isProperty s.inFunction c ts d ∧ d.current.kind = .punct .closeBrace := by
  rw [properties,yields_bind,yields_atPunct]
  split
  · next hk =>
    rw [yields_pure]
    exact ⟨⟨_,.done hc,by simp⟩,by simpa using hk⟩
  · rw [yields_bind]
    refine (property_yields hg hc).mono ?_
    rintro first d ⟨_,hf,hp⟩
    rw [yields_bind,yields_atPunct]
    split
    · next hk =>
      rw [yields_pure]
      exact ⟨⟨_,hf,by simpa using hp⟩,by simpa using hk⟩
    · simp only [yields_bind,yields_expectPunct,yields_pure]
      intro hk
      refine (hg.properties hf.stop.advance).mono ?_
      rintro others e ⟨⟨_,ho,hps⟩,hk'⟩
      exact ⟨⟨_,(hf.punct hk).append ho,List.forall_mem_cons.mpr ⟨hp,hps⟩⟩,hk'⟩

theorem primary_yields (hg : g.Sound) (hc : c.WellFormed) :
    Yields (primary g) s c (One Tree.isExpression s.inFunction c) := by
  have hliteral {kind : LiteralKind} {raw : String} (hl : Leaf c.current.kind (.literal kind raw)) :
      Yields (literal kind raw) s c (One Tree.isExpression s.inFunction c) :=
    (literal_yields hc hl).mono fun _ _ h => h.1
  simp only [primary,yields_bind,yields_start,yields_current]
  split
  · next name hk =>
    simp only [yields_bind,yields_advance,yields_finish]
    exact ⟨_,.leaf hc (hk ▸ .name name),hc.name hk⟩
  · next w hk =>
    split
    · refine (function_yields hg hc (by simp)).mono ?_
      rintro t d ⟨_,ht,hf⟩
      exact ⟨_,ht,Tree.isExpression_of_isFunctionOf hf (by simp)⟩
    · simp only [yields_bind,yields_advance,yields_finish]
      exact ⟨_,.leaf hc (hk ▸ .this),rfl⟩
    · exact hliteral (hk ▸ .constant _ _ (.inl rfl) (.inr rfl))
    · exact hliteral (hk ▸ .constant _ _ (.inr rfl) (.inr rfl))
    · exact hliteral (hk ▸ .constant _ _ rfl (.inl rfl))
    · exact yields_fail
    · exact yields_fail
    · exact yields_fail
    · exact yields_unexpected
  · next raw hk => exact hliteral (hk ▸ .number raw)
  · next raw hk => exact hliteral (hk ▸ .string raw)
  · next raw hk => exact hliteral (hk ▸ .template raw)
  · next hk =>
    simp only [yields_bind,yields_advance,yields_expectPunct,yields_pure]
    refine (hg.expression hc.advance false).mono ?_
    rintro inner d ⟨_,hi,hx⟩ hk'
    exact ⟨_,(((Built.done hc).punct hk).append hi).punct hk',hx⟩
  · exact array_yields hg hc
  · exact object_yields hg hc
  · exact yields_fail
  · exact yields_unexpected

theorem computedKey_yields (hg : g.Sound) (hc : c.WellFormed) :
    Yields (computedKey g) s c (One Tree.isExpression s.inFunction c) := by
  simp only [computedKey,yields_bind,yields_expectPunct,yields_pure]
  refine (hg.expression hc false).mono ?_
  rintro key d ⟨_,hkey,hx⟩ hk
  exact ⟨_,hkey.punct hk,hx⟩

section Tails
variable {d : Cursor} {owner : Tree} {tokens : List Token}

/-- An access by name to what was read since `c`. -/
lemma memberName_yields (h : Built s.inFunction c tokens [owner] d) (ho : owner.isExpression)
    (optional : Bool) :
    Yields (propertyName >>= fun key =>
      finish c.current.span.start (.member owner key false optional)) s d
      (One Tree.isExpression s.inFunction c) := by
  simp only [yields_bind,yields_finish]
  refine (propertyName_yields h.stop).mono ?_
  rintro key e ⟨_,hkey,hn⟩
  have hne : tokens ≠ [] := h.tokens_ne_nil (by simp)
  exact ⟨_,(h.append hkey).finish ⟨ho,hn⟩ (by simp [hne]) (.inl rfl) trivial,rfl⟩

/-- An access by a computed key to what was read since `c`. -/
lemma memberComputed_yields (hg : g.Sound) (h : Built s.inFunction c tokens [owner] d)
    (ho : owner.isExpression) (optional : Bool) :
    Yields (computedKey g >>= fun key =>
      finish c.current.span.start (.member owner key true optional)) s d
      (One Tree.isExpression s.inFunction c) := by
  simp only [yields_bind,yields_finish]
  refine (computedKey_yields hg h.stop).mono ?_
  rintro key e ⟨_,hkey,hx⟩
  have hne : tokens ≠ [] := h.tokens_ne_nil (by simp)
  exact ⟨_,(h.append hkey).finish ⟨ho,hx⟩ (by simp [hne]) (.inl rfl) trivial,rfl⟩

/-- A call of what was read since `c`. -/
lemma call_yields (hg : g.Sound) (h : Built s.inFunction c tokens [owner] d)
    (ho : owner.isExpression) (optional : Bool) :
    Yields (argumentList g >>= fun arguments =>
      finish c.current.span.start (.call owner arguments optional)) s d
      (One Tree.isExpression s.inFunction c) := by
  simp only [yields_bind,yields_finish]
  refine (argumentList_yields hg h.stop).mono ?_
  rintro arguments e ⟨_,ha,hi⟩
  have hne : tokens ≠ [] := h.tokens_ne_nil (by simp)
  exact ⟨_,(h.append ha).finish ⟨ho,hi⟩ (by simp [hne]) (.inl rfl) trivial,rfl⟩

theorem constructTail_yields (hg : g.Sound) (h : One Tree.isExpression s.inFunction c owner d) :
    Yields (constructTail g c.current.span.start owner) s d
      (One Tree.isExpression s.inFunction c) := by
  obtain ⟨_,hb,ho⟩ := h
  simp only [constructTail,yields_bind,yields_eatPunct,reduceIte,Bool.false_eq_true]
  refine ⟨fun hk => ?_,fun _ => ⟨fun hk => ?_,fun _ => ?_⟩⟩
  · have hm := memberName_yields (hb.punct hk) ho false
    rw [yields_bind] at hm
    refine hm.mono fun key e he => he.mono fun access f hf => hg.constructTail hf
  · have hm := memberComputed_yields hg (hb.punct hk) ho false
    rw [yields_bind] at hm
    refine hm.mono fun key e he => he.mono fun access f hf => hg.constructTail hf
  · rw [yields_pure]
    exact ⟨_,hb,ho⟩

theorem accessTail_yields (hg : g.Sound) (h : One Tree.isExpression s.inFunction c owner d) :
    Yields (accessTail g c.current.span.start owner) s d
      (One Tree.isExpression s.inFunction c) := by
  have hmore {e : Cursor} {p : Parser Tree}
      (hp : Yields p s e (One Tree.isExpression s.inFunction c)) :
      Yields (p >>= g.accessTail c.current.span.start) s e
        (One Tree.isExpression s.inFunction c) := by
    rw [yields_bind]
    exact hp.mono fun access f hf => hg.accessTail hf
  obtain ⟨_,hb,ho⟩ := h
  rw [accessTail,yields_bind,yields_current]
  split
  · next hk =>
    rw [yields_bind,yields_advance]
    simpa only [yields_bind] using hmore (memberName_yields (hb.punct hk) ho false)
  · next hk =>
    have hb' := hb.punct hk
    simp only [yields_bind,yields_advance,yields_atPunct]
    split
    · simpa only [yields_bind] using hmore (call_yields hg hb' ho true)
    · simp only [yields_bind,yields_eatPunct,reduceIte,Bool.false_eq_true]
      refine ⟨fun hk' => ?_,fun _ => ?_⟩
      · simpa only [yields_bind] using hmore (memberComputed_yields hg (hb'.punct hk') ho true)
      · simpa only [yields_bind] using hmore (memberName_yields hb' ho true)
  · next hk =>
    rw [yields_bind,yields_advance]
    simpa only [yields_bind] using hmore (memberComputed_yields hg (hb.punct hk) ho false)
  · simpa only [yields_bind] using hmore (call_yields hg hb ho false)
  · rw [yields_pure]
    exact ⟨_,hb,ho⟩

end Tails

/-- An instantiation from its callee on, which is read already. -/
lemma constructEnd_yields (hg : g.Sound) {d : Cursor} {callee : Tree}
    (h : One Tree.isExpression s.inFunction c callee d) :
    Yields (do
      let callee ← constructTail g c.current.span.start callee
      let arguments ← if ← atPunct .openParen then argumentList g else pure []
      finish c.current.span.start (.construct callee arguments)) s d
      (One Tree.isExpression s.inFunction c) := by
  rw [yields_bind]
  refine (constructTail_yields hg h).mono ?_
  rintro callee e ⟨_,hb,hx⟩
  have hne := hb.tokens_ne_nil (by simp)
  rw [yields_bind,yields_atPunct]
  split
  · simp only [yields_bind,yields_finish]
    refine (argumentList_yields hg hb.stop).mono ?_
    rintro arguments f ⟨_,ha,hi⟩
    exact ⟨_,(hb.append ha).finish ⟨hx,hi⟩ (by simp [hne]) (.inl rfl) trivial,rfl⟩
  · simp only [yields_bind,yields_pure,yields_finish]
    have hcallee : Built s.inFunction c _ (Shape.construct callee []).children e := hb
    exact ⟨_,hcallee.finish ⟨hx,by simp⟩ hne (.inl rfl) trivial,rfl⟩

theorem construct_yields (hg : g.Sound) (hc : c.WellFormed) :
    Yields (construct g) s c (One Tree.isExpression s.inFunction c) := by
  simp only [construct,yields_bind,yields_start,yields_expectWord,yields_atPunct]
  intro hk
  have hnew := (Built.done (b := s.inFunction) hc).word hk
  split
  · exact yields_fail
  · rw [yields_bind,yields_atWord]
    split
    · rw [yields_bind]
      refine (hg.construct hnew.stop).mono ?_
      rintro callee d ⟨_,hb,hx⟩
      exact constructEnd_yields hg ⟨_,hnew.append hb,hx⟩
    · rw [yields_bind]
      refine (primary_yields hg hnew.stop).mono ?_
      rintro callee d ⟨_,hb,hx⟩
      exact constructEnd_yields hg ⟨_,hnew.append hb,hx⟩

theorem access_yields (hg : g.Sound) (hc : c.WellFormed) :
    Yields (access g) s c (One Tree.isExpression s.inFunction c) := by
  simp only [access,yields_bind,yields_start,yields_atWord]
  split
  · rw [yields_bind]
    exact (construct_yields hg hc).mono fun owner d h => accessTail_yields hg h
  · rw [yields_bind]
    exact (primary_yields hg hc).mono fun owner d h => accessTail_yields hg h

lemma isSilent_of_unaryOperator {kind : TokenKind} {operator : UnaryOperator}
    (h : unaryOperator? kind = some operator) : kind.isSilent := by
  cases kind with
  | reserved | punct => rfl
  | _ => contradiction

lemma isSilent_of_updateOperator {kind : TokenKind} {operator : UpdateOperator}
    (h : updateOperator? kind = some operator) : kind.isSilent := by
  cases kind with
  | reserved | punct => rfl
  | _ => contradiction

theorem unary_yields (hg : g.Sound) (hc : c.WellFormed) :
    Yields (unary g) s c (One Tree.isExpression s.inFunction c) := by
  rw [unary,yields_nested]
  intro _
  rw [yields_bind,yields_start,yields_bind,yields_current]
  split
  · next hk =>
    have hfirst := (Built.done (b := s.inFunction) hc).pass (isSilent_of_unaryOperator hk)
    simp only [yields_bind,yields_advance,yields_finish]
    refine ((hg.unary hc.advance).and hg.capped.unary).mono ?_
    rintro argument d ⟨⟨_,ha,hx⟩,hshallow⟩
    exact ⟨_,(hfirst.append ha).finish hx (by simp) (.inl rfl) hshallow.strain_lt,rfl⟩
  · next hk =>
    have hfirst := (Built.done (b := s.inFunction) hc).pass (isSilent_of_updateOperator hk)
    simp only [yields_bind,yields_advance,yields_finish]
    refine (hg.unary hc.advance).mono ?_
    rintro argument d ⟨_,ha,hx⟩
    exact ⟨_,(hfirst.append ha).finish hx (by simp) (.inl rfl) trivial,rfl⟩
  · rw [yields_bind]
    refine (access_yields hg hc).mono ?_
    rintro argument d ⟨_,ha,hx⟩
    rw [yields_bind,yields_current]
    split
    · next hk =>
      split
      · rw [yields_pure]
        exact ⟨_,ha,hx⟩
      · simp only [yields_bind,yields_advance,yields_finish]
        exact ⟨_,(ha.pass (isSilent_of_updateOperator hk)).finish hx (by simp) (.inl rfl) trivial,rfl⟩
    · rw [yields_pure]
      exact ⟨_,ha,hx⟩

lemma isSilent_of_binaryOperator {inHead : Bool} {kind : TokenKind} {operator : BinaryOperator}
    (h : binaryOperator? inHead kind = some operator) : kind.isSilent := by
  cases kind with
  | reserved | punct => rfl
  | _ => contradiction

theorem binaryTail_yields (hg : g.Sound) {d : Cursor} {left : Tree}
    (h : One Tree.isExpression s.inFunction c left d) (least : Nat) (inHead : Bool) :
    Yields (binaryTail g c.current.span.start least inHead left) s d
      (One Tree.isExpression s.inFunction c) := by
  rw [binaryTail,yields_bind,yields_current]
  split
  · next operator hk =>
    split
    · rw [yields_pure]
      exact h
    · obtain ⟨_,hl,hx⟩ := h
      simp only [yields_bind,yields_advance,yields_finish]
      refine (hg.binary hl.stop.advance _ _).mono ?_
      rintro right e ⟨_,hr,hy⟩
      have hboth : Built s.inFunction c _ (Shape.binary operator left right).children e :=
        (hl.pass (isSilent_of_binaryOperator hk)).append hr
      exact hg.binaryTail ⟨_,hboth.finish ⟨hx,hy⟩ (by simp) (.inl rfl) trivial,rfl⟩ _ _
  · rw [yields_pure]
    exact h

theorem binary_yields (hg : g.Sound) (hc : c.WellFormed) (least : Nat) (inHead : Bool) :
    Yields (binary g least inHead) s c (One Tree.isExpression s.inFunction c) := by
  rw [binary,yields_bind,yields_start,yields_bind]
  exact (unary_yields hg hc).mono fun left d h => binaryTail_yields hg h least inHead

theorem conditional_yields (hg : g.Sound) (hc : c.WellFormed) (inHead : Bool) :
    Yields (conditional g inHead) s c (One Tree.isExpression s.inFunction c) := by
  simp only [conditional,yields_bind,yields_start,yields_eatPunct,reduceIte,
    Bool.false_eq_true,yields_expectPunct,yields_pure,yields_finish]
  refine (binary_yields hg hc 1 inHead).mono ?_
  rintro test d ⟨_,ht,hx⟩
  refine ⟨fun hk => ?_,fun _ => ⟨_,ht,hx⟩⟩
  refine (hg.assignment ht.stop.advance false).mono ?_
  rintro consequent e ⟨_,hq,hy⟩ hk'
  refine (hg.assignment hq.stop.advance inHead).mono ?_
  rintro alternate f ⟨_,ha,hz⟩
  have hb := (((ht.punct hk).append hq).punct hk').append ha
  exact ⟨_,hb.finish ⟨hx,hy,hz⟩ (by simp) (.inl rfl) trivial,rfl⟩

lemma isSilent_of_assignmentOperator {kind : TokenKind} {operator : AssignmentOperator}
    (h : assignmentOperator? kind = some operator) : kind.isSilent := by
  cases kind with
  | reserved | punct => rfl
  | _ => contradiction

theorem assignment_yields (hg : g.Sound) (hc : c.WellFormed) (inHead : Bool) :
    Yields (assignment g inHead) s c (One Tree.isExpression s.inFunction c) := by
  rw [assignment,yields_nested]
  intro _
  rw [yields_bind,yields_get]
  split
  · exact arrowFunction_yields hg hc
  · rw [yields_bind,yields_start,yields_bind]
    refine (conditional_yields hg hc inHead).mono ?_
    rintro target d ⟨_,ht,hx⟩
    rw [yields_bind,yields_current]
    split
    · next hk =>
      split
      · next htarget =>
        simp only [yields_bind,yields_advance,yields_finish]
        refine ((hg.assignment ht.stop.advance inHead).and (hg.capped.assignment inHead)).mono ?_
        rintro value e ⟨⟨_,hv,hy⟩,hshallow⟩
        have hb := (ht.pass (isSilent_of_assignmentOperator hk)).append hv
        exact ⟨_,hb.finish ⟨htarget,hx,hy⟩ (by simp) (.inl rfl) hshallow.strain_lt,rfl⟩
      · exact yields_failAt
    · rw [yields_pure]
      exact ⟨_,ht,hx⟩

theorem sequenceTail_yields (hg : g.Sound) (hc : c.WellFormed) (inHead : Bool) :
    Yields (sequenceTail g inHead) s c fun ts d =>
      Many Tree.isExpression s.inFunction c ts d ∧
        (c.current.kind = .punct .comma → ts ≠ []) := by
  simp only [sequenceTail,yields_bind,yields_eatPunct,reduceIte,Bool.false_eq_true,yields_pure]
  refine ⟨fun hk => ?_,fun hk => ⟨⟨_,.done hc,by simp⟩,fun h => absurd h hk⟩⟩
  refine (hg.assignment hc.advance inHead).mono ?_
  rintro first d ⟨_,hf,hx⟩
  refine (hg.sequenceTail hf.stop inHead).mono ?_
  rintro others e ⟨_,ho,hy⟩
  have hb := (((Built.done hc).punct hk).append hf).append ho
  exact ⟨⟨_,hb,List.forall_mem_cons.mpr ⟨hx,hy⟩⟩,by simp⟩

theorem expression_yields (hg : g.Sound) (hc : c.WellFormed) (inHead : Bool) :
    Yields (expression g inHead) s c (One Tree.isExpression s.inFunction c) := by
  rw [expression,yields_bind,yields_start,yields_bind]
  refine (assignment_yields hg hc inHead).mono ?_
  rintro first d ⟨_,hf,hx⟩
  have hne := hf.tokens_ne_nil (by simp)
  rw [yields_bind,yields_atPunct]
  split
  · next hk =>
    simp only [yields_bind,yields_finish]
    refine (sequenceTail_yields hg hf.stop inHead).mono ?_
    rintro others e ⟨⟨_,ho,hy⟩,hsome⟩
    have hlength : 2 ≤ (first :: others).length := by
      have := List.length_pos_iff.mpr (hsome (by simpa using hk))
      simp only [List.length_cons]
      omega
    exact ⟨_,(hf.append ho).finish ⟨hlength,List.forall_mem_cons.mpr ⟨hx,hy⟩⟩
      (by simp [hne]) (.inl rfl) trivial,rfl⟩
  · rw [yields_pure]
    exact ⟨_,hf,hx⟩

theorem spreadOrAssignment_yields (hg : g.Sound) (hc : c.WellFormed) :
    Yields (spreadOrAssignment g) s c (One Tree.isItem s.inFunction c) := by
  simp only [spreadOrAssignment,yields_bind,yields_start,yields_eatPunct,reduceIte,
    Bool.false_eq_true,yields_finish]
  refine ⟨fun hk => ?_,fun _ => ?_⟩
  · refine (hg.assignment hc.advance false).mono ?_
    rintro argument d ⟨_,ha,hx⟩
    exact ⟨_,(((Built.done hc).punct hk).append ha).finish hx (by simp) (.inl rfl) trivial,rfl⟩
  · refine (assignment_yields hg hc false).mono ?_
    rintro item d ⟨_,hi,hx⟩
    exact ⟨_,hi,Tree.isItem_of_isExpression hx⟩

theorem arguments_yields (hg : g.Sound) (hc : c.WellFormed) :
    Yields (arguments g) s c (Many Tree.isItem s.inFunction c) := by
  rw [arguments,yields_bind,yields_atPunct]
  split
  · rw [yields_pure]
    exact ⟨_,.done hc,by simp⟩
  · simp only [yields_bind,yields_eatPunct,reduceIte,Bool.false_eq_true,yields_pure]
    refine (spreadOrAssignment_yields hg hc).mono ?_
    rintro first d ⟨_,hf,hx⟩
    refine ⟨fun hk => ?_,fun _ => ⟨_,hf,by simpa using hx⟩⟩
    refine (hg.arguments hf.stop.advance).mono ?_
    rintro others e ⟨_,ho,hy⟩
    exact ⟨_,(hf.punct hk).append ho,List.forall_mem_cons.mpr ⟨hx,hy⟩⟩

theorem elements_yields (hg : g.Sound) (hc : c.WellFormed) :
    Yields (elements g) s c fun es d =>
      Many Tree.isItem s.inFunction c (es.filterMap id) d ∧
        d.current.kind = .punct .closeBracket := by
  rw [elements,yields_bind,yields_atPunct]
  split
  · next hk =>
    rw [yields_pure]
    exact ⟨⟨_,.done hc,by simp⟩,by simpa using hk⟩
  · simp only [yields_bind,yields_eatPunct,reduceIte,Bool.false_eq_true,yields_pure]
    refine ⟨fun hk => ?_,fun _ => ?_⟩
    · refine (hg.elements hc.advance).mono ?_
      rintro others d ⟨⟨_,ho,hy⟩,hk'⟩
      exact ⟨⟨_,((Built.done hc).punct hk).append ho,hy⟩,hk'⟩
    · refine (spreadOrAssignment_yields hg hc).mono ?_
      rintro first d ⟨_,hf,hx⟩
      rw [yields_atPunct]
      split
      · next hk =>
        rw [yields_pure]
        exact ⟨⟨_,hf,by simpa using hx⟩,by simpa using hk⟩
      · simp only [yields_bind,yields_expectPunct,yields_pure]
        intro hk
        refine (hg.elements hf.stop.advance).mono ?_
        rintro others e ⟨⟨_,ho,hy⟩,hk'⟩
        exact ⟨⟨_,(hf.punct hk).append ho,List.forall_mem_cons.mpr ⟨hx,hy⟩⟩,hk'⟩

end ScriptLint.Grammar
