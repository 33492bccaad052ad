import ScriptLint.Proofs.Rereading.Basic

/-! Printed expressions are read again as what they were printed from. Each production is followed
over the words of a tree; what it calls further on is taken to read fewer words as it should. -/
namespace ScriptLint.Grammar

/-- The productions read printed trees again where fewer than `n` words are left. -/
structure Productions.Faithful (g : Productions) (n : Nat) : Prop where
  /-- An expression between parentheses. -/
  words {t : Tree} {c : Cursor} {s : Surroundings} {ws : Words} (ht : t.Grammatical)
    (he : t.isExpression) (hc : c.Faces n (t.words ++ .punct .closeParen :: ws)) :
    Rereads n Tree.outline (g.expression false) s c t.outline (.punct .closeParen :: ws)
  expression {inHead : Bool} {t : Tree} {c : Cursor} {s : Surroundings} {k : TokenKind} {ws : Words}
    (ht : t.Grammatical) (he : t.isExpression) (hk : 6 ≤ grip inHead k)
    (hc : c.Faces n (t.printed.operand ++ k :: ws)) :
    Rereads n Tree.outline (g.expression inHead) s c t.outline (k :: ws)
  assignment {inHead : Bool} {t : Tree} {c : Cursor} {s : Surroundings} {k : TokenKind} {ws : Words}
    (ht : t.Grammatical) (he : t.isExpression) (hk : 5 ≤ grip inHead k)
    (hc : c.Faces n (t.printed.operand ++ k :: ws)) :
    Rereads n Tree.outline (g.assignment inHead) s c t.outline (k :: ws)
  binary {least : Nat} {inHead : Bool} {t : Tree} {c : Cursor} {s : Surroundings} {k : TokenKind}
    {ws : Words} (ht : t.Grammatical) (he : t.isExpression) (hk : 3 ≤ grip inHead k)
    (hc : c.Faces n (t.printed.operand ++ k :: ws)) :
    Rereads n Tree.outline (g.binary least inHead) s c t.outline (k :: ws)
  unary {inHead : Bool} {t : Tree} {c : Cursor} {s : Surroundings} {k : TokenKind} {ws : Words}
    (ht : t.Grammatical) (he : t.isExpression) (hk : 2 ≤ grip inHead k)
    (hc : c.Faces n (t.printed.operand ++ k :: ws)) :
    Rereads n Tree.outline g.unary s c t.outline (k :: ws)
  binaryTail {start least : Nat} {inHead : Bool} {left : Tree} {c : Cursor} {s : Surroundings}
    {k : TokenKind} {ws : Words} {Q : Tree → Cursor → Prop} (hk : 3 ≤ grip inHead k)
    (hc : c.Faces n (k :: ws)) (hQ : Q left c) :
    Ends TooDeep (g.binaryTail start least inHead left) s c Q
  accessTail {start : Nat} {inHead : Bool} {owner : Tree} {c : Cursor} {s : Surroundings}
    {k : TokenKind} {ws : Words} {Q : Tree → Cursor → Prop} (hk : 1 ≤ grip inHead k)
    (hc : c.Faces n (k :: ws)) (hQ : Q owner c) : Ends TooDeep (g.accessTail start owner) s c Q
  sequenceTail {inHead : Bool} {ts : List Tree} {c : Cursor} {s : Surroundings} {k : TokenKind}
    {ws : Words} (hts : ∀ t ∈ ts, t.Grammatical ∧ t.isExpression) (hk : 6 ≤ grip inHead k)
    (hc : c.Faces n (ts.flatMap (fun t => .punct .comma :: t.printed.operand) ++ k :: ws)) :
    Rereads n (List.map Tree.outline) (g.sequenceTail inHead) s c (ts.map Tree.outline) (k :: ws)
  arguments {ts : List Tree} {c : Cursor} {s : Surroundings} {ws : Words}
    (hts : ∀ t ∈ ts, t.Grammatical ∧ t.isItem)
    (hc : c.Faces n (separated (ts.map fun t => t.printed.item) ++ .punct .closeParen :: ws)) :
    Rereads n (List.map Tree.outline) g.arguments s c (ts.map Tree.outline)
      (.punct .closeParen :: ws)
  elements {es : List (Option Tree)} {c : Cursor} {s : Surroundings} {ws : Words}
    (hes : ∀ t ∈ es.filterMap id, t.Grammatical ∧ t.isItem)
    (hc : c.Faces n (es.flatMap (fun e => e.elim [] (fun t => t.printed.item) ++ [.punct .comma]) ++
      .punct .closeBracket :: ws)) :
    Rereads n (List.map (Option.map Tree.outline)) g.elements s c
      (es.map (Option.map Tree.outline)) (.punct .closeBracket :: ws)
  properties {ts : List Tree} {c : Cursor} {s : Surroundings} {ws : Words}
    (hts : ∀ t ∈ ts, t.Grammatical ∧ t.isProperty)
    (hc : c.Faces n (separated (ts.map Tree.words) ++ .punct .closeBrace :: ws)) :
    Rereads n (List.map Tree.outline) g.properties s c (ts.map Tree.outline)
      (.punct .closeBrace :: ws)
  parameters {ts : List Tree} {c : Cursor} {s : Surroundings} {ws : Words}
    (hts : ∀ t ∈ ts, t.Grammatical ∧ t.isParameter)
    (hc : c.Faces n (separated (ts.map Tree.words) ++ .punct .closeParen :: ws)) :
    Rereads n (List.map Tree.outline) g.parameters s c (ts.map Tree.outline)
      (.punct .closeParen :: ws)
  blockItems {ts : List Tree} {c : Cursor} {s : Surroundings} {ws : Words}
    (hts : ∀ t ∈ ts, t.Grammatical ∧ t.isStatement)
    (hr : ∀ t ∈ ts, t.Returns → s.inFunction = true)
    (hc : c.Faces n (ts.flatMap (fun t => t.printed.statement) ++ .punct .closeBrace :: ws)) :
    Rereads n (List.map Tree.outline) g.blockItems s c (ts.map Tree.outline)
      (.punct .closeBrace :: ws)
  declarators {inHead : Bool} {ts : List Tree} {c : Cursor} {s : Surroundings} {k : TokenKind}
    {ws : Words} (hne : ts ≠ []) (hts : ∀ t ∈ ts, t.Grammatical ∧ t.isDeclarator)
    (hk : 6 ≤ grip inHead k) (hc : c.Faces n (separated (ts.map Tree.words) ++ k :: ws)) :
    Rereads n (List.map Tree.outline) (g.declarators inHead) s c (ts.map Tree.outline) (k :: ws)
  statement {t : Tree} {c : Cursor} {s : Surroundings} {ws : Words} (ht : t.Grammatical)
    (hs : t.isStatement) (hr : t.Returns → s.inFunction = true) (ho : t.Precedes ws)
    (hc : c.Faces n (t.printed.statement ++ ws)) :
    Rereads n Tree.outline g.statement s c t.outline ws
  caseItems {ts : List Tree} {c : Cursor} {s : Surroundings} {k : TokenKind} {ws : Words}
    (hts : ∀ t ∈ ts, t.Grammatical ∧ t.isStatement)
    (hr : ∀ t ∈ ts, t.Returns → s.inFunction = true)
    (hk : k = .punct .closeBrace ∨ k = .reserved .kwCase ∨ k = .reserved .kwDefault)
    (hc : c.Faces n (ts.flatMap (fun t => t.printed.statement) ++ k :: ws)) :
    Rereads n (List.map Tree.outline) g.caseItems s c (ts.map Tree.outline) (k :: ws)
  cases {hasDefault : Bool} {ts : List Tree} {c : Cursor} {s : Surroundings} {ws : Words}
    (hts : ∀ t ∈ ts, t.Grammatical ∧ t.isCase) (hr : ∀ t ∈ ts, t.Returns → s.inFunction = true)
    (hd : hasDefault.toNat + ts.countP Tree.isDefault ≤ 1)
    (hc : c.Faces n (ts.flatMap Tree.words ++ .punct .closeBrace :: ws)) :
    Rereads n (List.map Tree.outline) (g.cases hasDefault) s c (ts.map Tree.outline) ws
  programItems {ts : List Tree} {c : Cursor} {s : Surroundings}
    (hts : ∀ t ∈ ts, t.Grammatical ∧ t.isStatement)
    (hr : ∀ t ∈ ts, t.Returns → s.inFunction = true)
    (hc : c.Faces n (ts.flatMap fun t => t.printed.statement)) :
    Rereads n (List.map Tree.outline) g.programItems s c (ts.map Tree.outline) []

variable {g : Productions} {n : Nat} {s : Surroundings} {c : Cursor} {t : Tree} {k : TokenKind}
  {ws : Words} {inHead : Bool}

section Ladder
variable {b : Outline}

theorem accessTail_ends {E : Halt → Prop} {start : Nat} {owner : Tree}
    {Q : Tree → Cursor → Prop} (hk : 1 ≤ grip inHead c.current.kind) (hQ : Q owner c) :
    Ends E (accessTail g start owner) s c Q := by
  rw [accessTail,ends_bind,ends_current]
  split
  case h_5 => exact hQ
  all_goals
    next h => exact absurd hk (by simp [grip,h])

theorem access_of_primary (hk : 1 ≤ grip inHead k) (hnew : c.current.kind ≠ .reserved .kwNew)
    (h : Rereads n Tree.outline (primary g) s c b (k :: ws)) :
    Rereads n Tree.outline (access g) s c b (k :: ws) := by
  simp only [access,ends_bind,ends_start,ends_atWord,ends_ite,beq_iff_eq,if_neg hnew]
  apply h.mono
  rintro u d ⟨hu,hd⟩
  exact accessTail_ends (hd.kind.symm ▸ hk) ⟨hu,hd⟩

/-- A unary expression without operators around it. -/
theorem unary_ends {E : Halt → Prop} {Q : Tree → Cursor → Prop} (hs : s.nesting < maxNesting)
    (hunary : unaryOperator? c.current.kind = none)
    (hupdate : updateOperator? c.current.kind = none)
    (h : ∀ s, Ends E (access g) s c fun u d => updateOperator? d.current.kind = none ∧ Q u d) :
    Ends E (unary g) s c Q := by
  rw [unary,ends_nested,if_pos hs]
  simp only [ends_bind,ends_start,ends_current,hunary,hupdate]
  apply (h _).mono
  rintro u d ⟨hnone,hQ⟩
  rw [hnone]
  exact hQ

theorem unary_of_access (hk : 2 ≤ grip inHead k) (hunary : unaryOperator? c.current.kind = none)
    (hupdate : updateOperator? c.current.kind = none)
    (h : ∀ s, Rereads n Tree.outline (access g) s c b (k :: ws)) :
    Rereads n Tree.outline (unary g) s c b (k :: ws) := by
  apply nested_ends
  simp only [ends_bind,ends_start,ends_current,hunary,hupdate]
  apply (h _).mono
  rintro u d ⟨hu,hd⟩
  rw [hd.kind,updateOperator_eq_none hk]
  exact ⟨hu,hd⟩

theorem binaryTail_ends {E : Halt → Prop} {start least : Nat} {left : Tree}
    {Q : Tree → Cursor → Prop} (hk : 3 ≤ grip inHead c.current.kind) (hQ : Q left c) :
    Ends E (binaryTail g start least inHead left) s c Q := by
  rw [binaryTail,ends_bind,ends_current,binaryOperator_eq_none hk]
  exact hQ

theorem binary_of_unary {least : Nat} (hk : 3 ≤ grip inHead k)
    (h : Rereads n Tree.outline (unary g) s c b (k :: ws)) :
    Rereads n Tree.outline (binary g least inHead) s c b (k :: ws) := by
  simp only [binary,ends_bind,ends_start]
  apply h.mono
  rintro u d ⟨hu,hd⟩
  exact binaryTail_ends (hd.kind.symm ▸ hk) ⟨hu,hd⟩

theorem conditional_of_binary (hk : 4 ≤ grip inHead k)
    (h : Rereads n Tree.outline (binary g 1 inHead) s c b (k :: ws)) :
    Rereads n Tree.outline (conditional g inHead) s c b (k :: ws) := by
  simp only [conditional,ends_bind,ends_start]
  apply h.mono
  rintro u d ⟨hu,hd⟩
  rw [ends_eatPunct,hd.kind,if_neg (ne_question hk)]
  exact ⟨hu,hd⟩

theorem assignment_of_conditional (hk : 5 ≤ grip inHead k) (harrow : c.startsArrow = false)
    (h : ∀ s, Rereads n Tree.outline (conditional g inHead) s c b (k :: ws)) :
    Rereads n Tree.outline (assignment g inHead) s c b (k :: ws) := by
  apply nested_ends
  simp only [ends_bind,ends_get,harrow,ends_ite,ends_start]
  apply (h _).mono
  rintro u d ⟨hu,hd⟩
  rw [ends_current,hd.kind,assignmentOperator_eq_none hk]
  exact ⟨hu,hd⟩

theorem expression_of_assignment (hk : 6 ≤ grip inHead k)
    (h : Rereads n Tree.outline (assignment g inHead) s c b (k :: ws)) :
    Rereads n Tree.outline (expression g inHead) s c b (k :: ws) := by
  simp only [expression,ends_bind,ends_start]
  apply h.mono
  rintro u d ⟨hu,hd⟩
  rw [ends_atPunct,hd.kind,ends_ite,if_neg (by simpa using ne_comma hk)]
  exact ⟨hu,hd⟩

end Ladder

section Operand
variable (hg : g.Faithful n) (ht : t.Grammatical) (he : t.isExpression)
include hg ht he

theorem operand_primary (hc : c.Faces (n + 1) (t.printed.operand ++ ws)) :
    Rereads n Tree.outline (primary g) s c t.outline ws := by
  have hinner : c.advance.Faces n (t.words ++ .punct .closeParen :: ws) := by
    rw [Printed.operand,parens,List.cons_append,List.append_assoc] at hc
    exact hc.step
  simp only [primary,ends_bind,ends_start,ends_current,hc.kind,ends_advance]
  apply (hg.words ht he hinner).mono
  rintro u d ⟨hu,hd⟩
  rw [ends_expectPunct,if_pos hd.kind]
  exact ⟨hu,hd.advance⟩

theorem operand_unary (hk : 2 ≤ grip inHead k) (hc : c.Faces (n + 1) (t.printed.operand ++ k :: ws)) :
    Rereads n Tree.outline (unary g) s c t.outline (k :: ws) := by
  have hkind : c.current.kind = .punct .openParen := hc.kind
  refine unary_of_access hk (by rw [hkind]; rfl) (by rw [hkind]; rfl) fun _ => ?_
  exact access_of_primary (Nat.le_of_succ_le hk) (by simp [hkind]) (operand_primary hg ht he hc)

theorem operand_conditional (hk : 4 ≤ grip inHead k)
    (hc : c.Faces (n + 1) (t.printed.operand ++ k :: ws)) :
    Rereads n Tree.outline (conditional g inHead) s c t.outline (k :: ws) :=
  conditional_of_binary hk (binary_of_unary (Nat.le_of_succ_le hk)
    (operand_unary hg ht he (Nat.le_trans (by decide) hk) hc))

theorem operand_assignment (hk : 5 ≤ grip inHead k)
    (hc : c.Faces (n + 1) (t.printed.operand ++ k :: ws)) :
    Rereads n Tree.outline (assignment g inHead) s c t.outline (k :: ws) := by
  have harrow : c.startsArrow = false := by
    rw [startsArrow_of_parens hc (balanced_words t)]
    exact beq_eq_false_iff_ne.mpr (ne_arrow hk)
  exact assignment_of_conditional hk harrow fun _ => operand_conditional hg ht he (by omega) hc

theorem operand_expression (hk : 6 ≤ grip inHead k)
    (hc : c.Faces (n + 1) (t.printed.operand ++ k :: ws)) :
    Rereads n Tree.outline (expression g inHead) s c t.outline (k :: ws) :=
  expression_of_assignment hk (operand_assignment hg ht he (by omega) hc)

end Operand

section Names

theorem words_of_isName (h : t.isName) : ∃ x, t.shape = .identifier x ∧ t.words = [.name x] := by
  obtain ⟨i,span,shape⟩ := t
  cases shape with
  | identifier x =>
    refine ⟨x,rfl,?_⟩
    rw [Tree.words_eq]
    change [TokenKind.ofWord x] = _
    rw [TokenKind.ofWord,Option.isNone_iff_eq_none.mp h]
  | _ => contradiction

theorem bindingName_rereads (hn : t.isName) (hc : c.Faces (n + 1) (t.words ++ ws)) :
    Rereads n Tree.outline bindingName s c t.outline ws := by
  obtain ⟨x,hshape,hwords⟩ := words_of_isName hn
  rw [hwords] at hc
  simp only [bindingName,ends_bind,ends_start,ends_current,hc.kind,ends_advance]
  exact finish_rereads (by rw [hshape]) hc.step

lemma ofWord_ne_punct (x : String) (p : Punct) : TokenKind.ofWord x ≠ .punct p := by
  unfold TokenKind.ofWord
  split <;> simp

theorem propertyName_kind (hn : t.name?.isSome) (hc : c.Faces n (t.words ++ ws)) (p : Punct) :
    c.current.kind ≠ .punct p := by
  obtain ⟨x,hx⟩ := Option.isSome_iff_exists.mp hn
  have hwords : t.words = [.ofWord x] := Tree.words_of_shape (Tree.shape_of_name hx)
  rw [hwords] at hc
  rw [hc.kind]
  exact ofWord_ne_punct x p

theorem propertyName_rereads (hn : t.name?.isSome) (hc : c.Faces (n + 1) (t.words ++ ws)) :
    Rereads n Tree.outline propertyName s c t.outline ws := by
  obtain ⟨x,hx⟩ := Option.isSome_iff_exists.mp hn
  have hshape := Tree.shape_of_name hx
  have hwords : t.words = [.ofWord x] := Tree.words_of_shape hshape
  rw [hwords,TokenKind.ofWord] at hc
  cases hw : Keyword.ofText? x with
  | none =>
    rw [hw] at hc
    simp only [propertyName,ends_bind,ends_start,ends_current,hc.kind,ends_advance]
    exact finish_rereads (by rw [hshape]) hc.step
  | some w =>
    have htext : w.text = x := by simpa using List.find?_some hw
    rw [hw] at hc
    simp only [propertyName,ends_bind,ends_start,ends_current,hc.kind,ends_advance]
    exact finish_rereads (by rw [hshape,htext]) hc.step

theorem literal_rereads {kind : LiteralKind} {raw : String} (hshape : t.shape = .literal kind raw)
    (hc : c.Faces (n + 1) (k :: ws)) :
    Rereads n Tree.outline (literal kind raw) s c t.outline ws := by
  simp only [literal,ends_bind,ends_start,ends_advance]
  exact finish_rereads (by rw [hshape]) hc.step

end Names

section Separated
variable {f : Tree → Words} {ts : List Tree}

lemma separated_cons (vs : Words) (more : List Words) :
    separated (vs :: more) = vs ++ more.flatMap (.punct .comma :: ·) := by
  induction more generalizing vs with
  | nil => simp [separated]
  | cons us more ih =>
    change vs ++ .punct .comma :: separated (us :: more) = _
    rw [ih,List.flatMap_cons,List.cons_append]

/-- A list with commas in between begins with its first entry. -/
theorem separated_faces (hc : c.Faces n (separated ((t :: ts).map f) ++ ws)) :
    c.Faces n (f t ++ ((ts.map f).flatMap (.punct .comma :: ·) ++ ws)) := by
  rwa [List.map_cons,separated_cons,List.append_assoc] at hc

/-- The entries of a list that is not empty, with commas in between. -/
theorem separated_rereads {p : Parser Tree} {more : Parser (List Tree)} (hk : k ≠ .punct .comma)
    (hp : ∀ {k' ws'}, k' = .punct .comma ∨ k' = k → c.Faces (n + 1) (f t ++ k' :: ws') →
      Rereads n Tree.outline p s c t.outline (k' :: ws'))
    (hmore : ∀ {d}, ts ≠ [] → d.Faces n (separated (ts.map f) ++ k :: ws) →
      Rereads n (List.map Tree.outline) more s d (ts.map Tree.outline) (k :: ws))
    (hc : c.Faces (n + 1) (separated ((t :: ts).map f) ++ k :: ws)) :
    Rereads n (List.map Tree.outline)
      (do
        let first ← p
        if ← eatPunct .comma then
          let others ← more
          return first :: others
        else
          return [first]) s c ((t :: ts).map Tree.outline) (k :: ws) := by
  simp only [ends_bind]
  cases ts with
  | nil =>
    apply (hp (.inr rfl) hc).mono
    rintro u d ⟨hu,hd⟩
    rw [ends_eatPunct,hd.kind,if_neg hk]
    exact ⟨by simp [hu],hd⟩
  | cons t' ts =>
    have hc' : c.Faces (n + 1)
        (f t ++ .punct .comma :: (separated ((t' :: ts).map f) ++ k :: ws)) := by
      simpa [separated] using hc
    apply (hp (.inl rfl) hc').mono
    rintro u d ⟨hu,hd⟩
    simp only [ends_eatPunct,hd.kind,if_true,ends_bind]
    apply (hmore (List.cons_ne_nil _ _) hd.advance).mono
    rintro us e ⟨hus,he⟩
    exact ⟨by rw [List.map_cons,hu,hus]; rfl,he⟩

end Separated

section Items
variable {ts : List Tree}

lemma five_le_grip_comma (inHead : Bool) : 5 ≤ grip inHead (.punct .comma) := by
  cases inHead <;> decide

/-- An item is spread, or else it is an expression. -/
theorem item_cases (hi : t.isItem) :
    (∃ a, t.shape = .spread a ∧ t.printed.item = .punct .ellipsis :: a.printed.operand) ∨
      (t.isExpression ∧ t.printed.item = t.printed.operand) := by
  unfold Tree.isItem at hi
  split at hi
  next a hs =>
    refine .inl ⟨a,hs,?_⟩
    rw [Printed.item,Tree.printed,hs]
    exact Tree.words_of_shape hs
  next hs =>
    refine .inr ⟨hi,?_⟩
    unfold Printed.item
    split
    next a hs' => exact absurd hs' (hs a)
    next => rfl

theorem item_kind (hi : t.isItem) (hc : c.Faces n (t.printed.item ++ ws)) :
    c.current.kind = .punct .ellipsis ∨ c.current.kind = .punct .openParen := by
  rcases item_cases hi with ⟨a,_,hitem⟩ | ⟨_,hitem⟩
  · rw [hitem] at hc
    exact .inl hc.kind
  · rw [hitem] at hc
    exact .inr hc.kind

variable (hg : g.Faithful n)
include hg

theorem sequenceTail_rereads (hts : ∀ t ∈ ts, t.Grammatical ∧ t.isExpression)
    (hk : 6 ≤ grip inHead k)
    (hc : c.Faces (n + 1) (ts.flatMap (fun t => .punct .comma :: t.printed.operand) ++ k :: ws)) :
    Rereads (n + 1) (List.map Tree.outline) (sequenceTail g inHead) s c (ts.map Tree.outline)
      (k :: ws) := by
  cases ts with
  | nil =>
    simp only [sequenceTail,ends_bind,ends_eatPunct,hc.kind,if_neg (ne_comma hk)]
    exact ⟨rfl,hc⟩
  | cons t ts =>
    obtain ⟨ht,he⟩ := hts t (.head _)
    obtain ⟨k',ws',hrest,hk'⟩ : ∃ k' ws',
        ts.flatMap (fun t => .punct .comma :: t.printed.operand) ++ k :: ws = k' :: ws' ∧
          5 ≤ grip inHead k' := by
      cases ts with
      | nil => exact ⟨k,ws,rfl,Nat.le_of_succ_le hk⟩
      | cons => exact ⟨_,_,rfl,five_le_grip_comma inHead⟩
    rw [List.flatMap_cons,List.append_assoc,hrest] at hc
    simp only [sequenceTail,ends_bind,ends_eatPunct,hc.kind,if_true]
    apply (hg.assignment ht he hk' hc.step).mono
    rintro u d ⟨hu,hd⟩
    rw [← hrest] at hd
    apply (hg.sequenceTail (fun t ht => hts t (.tail _ ht)) hk hd).mono
    rintro us e ⟨hus,he⟩
    exact ⟨by rw [List.map_cons,List.map_cons,hu,hus],he.up⟩

/-- An argument after an ellipsis, which begins a spread item or property. -/
theorem spread_rereads {a : Tree} {start : Nat} (ht : t.Grammatical) (hs : t.shape = .spread a)
    (hk : 5 ≤ grip false k) (hc : c.Faces n (a.printed.operand ++ k :: ws)) :
    Ends TooDeep (g.assignment false) s c fun u d =>
      Rereads n Tree.outline (finish start (.spread u)) s d t.outline (k :: ws) := by
  have he := ht.admissible
  rw [hs] at he
  have ha : a.Grammatical := ht.child (by simp [Tree.children,hs,Shape.children])
  apply (hg.assignment ha he hk hc).mono
  rintro u d ⟨hu,hd⟩
  exact finish_rereads (by rw [hs,Shape.map,Shape.map,hu]) hd

theorem spreadOrAssignment_rereads (ht : t.Grammatical) (hi : t.isItem) (hk : 5 ≤ grip false k)
    (hc : c.Faces (n + 1) (t.printed.item ++ k :: ws)) :
    Rereads n Tree.outline (spreadOrAssignment g) s c t.outline (k :: ws) := by
  simp only [spreadOrAssignment,ends_bind,ends_start,ends_eatPunct]
  rcases item_cases hi with ⟨a,hs,hitem⟩ | ⟨he,hitem⟩
  · rw [hitem] at hc
    simp only [hc.kind,if_true,ends_bind]
    exact spread_rereads hg ht hs hk hc.step
  · rw [hitem] at hc
    have hkind : c.current.kind = .punct .openParen := hc.kind
    simp only [hkind]
    exact operand_assignment hg ht he hk hc

theorem arguments_rereads (hts : ∀ t ∈ ts, t.Grammatical ∧ t.isItem)
    (hc : c.Faces (n + 1)
      (separated (ts.map fun t => t.printed.item) ++ .punct .closeParen :: ws)) :
    Rereads (n + 1) (List.map Tree.outline) (arguments g) s c (ts.map Tree.outline)
      (.punct .closeParen :: ws) := by
  rw [Rereads,arguments,ends_bind,ends_atPunct,ends_ite]
  cases ts with
  | nil =>
    rw [hc.kind]
    exact ⟨rfl,hc⟩
  | cons t ts =>
    obtain ⟨ht,hi⟩ := hts t (.head _)
    have hkind := item_kind hi (separated_faces hc)
    rw [if_neg (by rcases hkind with hkind | hkind <;> simp [hkind])]
    refine (separated_rereads (by simp) (fun hk hc => ?_) (fun _ hd => ?_) hc).up
    · exact spreadOrAssignment_rereads hg ht hi (by rcases hk with rfl | rfl <;> decide) hc
    · exact hg.arguments (fun t ht => hts t (.tail _ ht)) hd

theorem elements_rereads {es : List (Option Tree)}
    (hes : ∀ t ∈ es.filterMap id, t.Grammatical ∧ t.isItem)
    (hc : c.Faces (n + 1)
      (es.flatMap (fun e => e.elim [] (fun t => t.printed.item) ++ [.punct .comma]) ++
        .punct .closeBracket :: ws)) :
    Rereads (n + 1) (List.map (Option.map Tree.outline)) (elements g) s c
      (es.map (Option.map Tree.outline)) (.punct .closeBracket :: ws) := by
  simp only [elements,ends_bind,ends_atPunct,ends_ite]
  cases es with
  | nil =>
    rw [hc.kind]
    exact ⟨rfl,hc⟩
  | cons e es =>
    rw [List.flatMap_cons,List.append_assoc,List.append_assoc] at hc
    cases e with
    | none =>
      have hkind : c.current.kind = .punct .comma := hc.kind
      simp only [hkind,ends_eatPunct,if_true]
      apply (hg.elements (fun t ht => hes t (by simpa using ht)) hc.step).mono
      rintro us d ⟨hus,hd⟩
      exact ⟨by rw [List.map_cons,List.map_cons,hus],hd.up⟩
    | some t =>
      obtain ⟨ht,hi⟩ := hes t (by simp)
      have hkind := item_kind hi hc
      rw [if_neg (by rcases hkind with hkind | hkind <;> simp [hkind]),ends_eatPunct,
        if_neg (by rcases hkind with hkind | hkind <;> simp [hkind])]
      apply (spreadOrAssignment_rereads hg ht hi (five_le_grip_comma _) hc).mono
      rintro u d ⟨hu,hd⟩
      simp only [hd.kind,ends_expectPunct,if_true]
      apply (hg.elements (fun t ht => hes t (by simp_all)) hd.advance).mono
      rintro us e ⟨hus,he⟩
      exact ⟨by rw [List.map_cons,List.map_cons,hus]; simp [hu],he.up⟩

end Items

/-- What stands between parentheses. -/
theorem parens_rereads {α β : Type} {f : α → β} {b : β} {p : Parser α} {vs : Words}
    (hp : ∀ {d}, d.Faces n (vs ++ .punct .closeParen :: ws) →
      Rereads n f p s d b (.punct .closeParen :: ws))
    (hc : c.Faces (n + 1) (parens vs ++ ws)) :
    Rereads n f
      (do
        expectPunct .openParen
        let inner ← p
        expectPunct .closeParen
        return inner) s c b ws := by
  rw [parens,List.cons_append,List.append_assoc] at hc
  simp only [ends_bind,ends_expectPunct,hc.kind,if_true]
  apply (hp hc.step).mono
  rintro a d ⟨ha,hd⟩
  rw [if_pos hd.kind]
  exact ⟨ha,hd.advance⟩

end ScriptLint.Grammar
