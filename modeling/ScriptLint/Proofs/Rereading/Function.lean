import ScriptLint.Proofs.Rereading.Operand

/-! Printed functions and objects are read again: their parameters, bodies, keys and values. -/
namespace ScriptLint.Grammar

variable {g : Productions} {n : Nat} {s : Surroundings} {c : Cursor} {t : Tree} {k : TokenKind}
  {ws : Words}

section Functions
variable {ts : List Tree} (hg : g.Faithful n)

theorem words_of_isBlock (hb : t.isBlock) : ∃ body, t.shape = .block body ∧
    t.words = braces (body.flatMap fun t => t.printed.statement) := by
  obtain ⟨i,span,shape⟩ := t
  cases shape with
  | block body =>
    refine ⟨body,rfl,?_⟩
    rw [Tree.words_eq,Tree.shape,Shape.map,Shape.layout,List.flatMap_map]
  | _ => contradiction

theorem block_kind (hb : t.isBlock) (hc : c.Faces n (t.words ++ ws)) :
    c.current.kind = .punct .openBrace := by
  obtain ⟨body,_,hwords⟩ := words_of_isBlock hb
  rw [hwords] at hc
  exact hc.kind

theorem body_of_isBlock (hb : t.isBlock) : t.printed.body = t.words := by
  obtain ⟨body,hs,_⟩ := words_of_isBlock hb
  rw [Printed.body,Tree.printed,hs]

theorem body_of_isExpression (he : t.isExpression) : t.printed.body = t.printed.operand := by
  unfold Printed.body
  split
  next hs =>
    have hblock : t.shape = .block _ := hs
    rw [Tree.isExpression,hblock] at he
    cases he
  next => rfl

theorem name_kind (hn : t.isName) (hc : c.Faces n (t.words ++ ws)) : ∃ x, c.current.kind = .name x := by
  obtain ⟨x,_,hwords⟩ := words_of_isName hn
  rw [hwords] at hc
  exact ⟨x,hc.kind⟩

theorem parameter_kind (ht : t.Grammatical) (hp : t.isParameter) (hc : c.Faces n (t.words ++ ws)) :
    c.current.kind = .punct .ellipsis ∨ ∃ x, c.current.kind = .name x := by
  have hadmissible := ht.admissible
  cases hs : t.shape with
  | identifier x =>
    exact .inr (name_kind (by simpa [Tree.isName,Tree.isParameter,hs] using hp) hc)
  | defaultParam target value =>
    rw [hs] at hadmissible
    have hw : t.words = target.words ++ .punct .assign :: value.printed.operand :=
      Tree.words_of_shape hs
    rw [hw,List.append_assoc] at hc
    exact .inr (name_kind hadmissible.1 hc)
  | restParam target =>
    have hw : t.words = .punct .ellipsis :: target.words := Tree.words_of_shape hs
    rw [hw] at hc
    exact .inl hc.kind
  | _ => simp [Tree.isParameter,hs] at hp

include hg

theorem argumentList_rereads (hts : ∀ t ∈ ts, t.Grammatical ∧ t.isItem)
    (hc : c.Faces (n + 1) (parens (separated (ts.map fun t => t.printed.item)) ++ ws)) :
    Rereads n (List.map Tree.outline) (argumentList g) s c (ts.map Tree.outline) ws :=
  parens_rereads (fun hd => hg.arguments hts hd) hc

theorem parameter_rereads (ht : t.Grammatical) (hp : t.isParameter)
    (hk : k = .punct .comma ∨ k = .punct .closeParen) (hc : c.Faces (n + 1) (t.words ++ k :: ws)) :
    Rereads n Tree.outline (parameter g) s c t.outline (k :: ws) := by
  have hassign : k ≠ .punct .assign := by rcases hk with rfl | rfl <;> simp
  have hgrip : 5 ≤ grip false k := by rcases hk with rfl | rfl <;> decide
  have hadmissible := ht.admissible
  simp only [parameter,ends_bind,ends_start,ends_eatPunct,ends_ite,Bool.false_eq_true,if_true,
    if_false]
  cases hs : t.shape with
  | identifier x =>
    have hn : t.isName := by simpa [Tree.isName,Tree.isParameter,hs] using hp
    obtain ⟨y,hkind⟩ := name_kind hn hc
    rw [hkind,if_neg (by simp)]
    apply (bindingName_rereads hn hc).mono
    rintro u d ⟨hu,hd⟩
    rw [hd.kind,if_neg hassign]
    exact ⟨hu,hd⟩
  | defaultParam target value =>
    rw [hs] at hadmissible
    obtain ⟨hn,he⟩ := hadmissible
    have hv : value.Grammatical := ht.child (by simp [Tree.children,hs,Shape.children])
    have hw : t.words = target.words ++ .punct .assign :: value.printed.operand :=
      Tree.words_of_shape hs
    rw [hw,List.append_assoc] at hc
    obtain ⟨y,hkind⟩ := name_kind hn hc
    rw [hkind,if_neg (by simp)]
    apply (bindingName_rereads hn hc).mono
    rintro u d ⟨hu,hd⟩
    rw [if_pos hd.kind]
    apply (hg.assignment hv he hgrip hd.advance).mono
    rintro v e ⟨hv,he⟩
    exact finish_rereads (by rw [hs,Shape.map,Shape.map,hu,hv]) he
  | restParam target =>
    rw [hs] at hadmissible
    have hw : t.words = .punct .ellipsis :: target.words := Tree.words_of_shape hs
    rw [hw] at hc
    rw [if_pos hc.kind]
    apply (bindingName_rereads hadmissible hc.step.up).mono
    rintro u d ⟨hu,hd⟩
    exact finish_rereads (by rw [hs,Shape.map,Shape.map,hu]) hd
  | _ => simp [Tree.isParameter,hs] at hp

theorem parameters_rereads (hts : ∀ t ∈ ts, t.Grammatical ∧ t.isParameter)
    (hc : c.Faces (n + 1) (separated (ts.map Tree.words) ++ .punct .closeParen :: ws)) :
    Rereads (n + 1) (List.map Tree.outline) (parameters g) s c (ts.map Tree.outline)
      (.punct .closeParen :: ws) := by
  rw [Rereads,parameters,ends_bind,ends_atPunct,ends_ite]
  cases ts with
  | nil =>
    rw [hc.kind]
    exact ⟨rfl,hc⟩
  | cons t ts =>
    obtain ⟨ht,hp⟩ := hts t (.head _)
    have hkind := parameter_kind ht hp (separated_faces hc)
    rw [if_neg (by rcases hkind with hkind | ⟨x,hkind⟩ <;> simp [hkind])]
    refine (separated_rereads (by simp) (fun hk hc => ?_) (fun _ hd => ?_) hc).up
    · exact parameter_rereads hg ht hp hk hc
    · exact hg.parameters (fun t ht => hts t (.tail _ ht)) hd

theorem parameterList_rereads (hts : ∀ t ∈ ts, t.Grammatical ∧ t.isParameter)
    (hc : c.Faces (n + 1) (parens (separated (ts.map Tree.words)) ++ ws)) :
    Rereads n (List.map Tree.outline) (parameterList g) s c (ts.map Tree.outline) ws :=
  parens_rereads (fun hd => hg.parameters hts hd) hc

theorem block_rereads (ht : t.Grammatical) (hb : t.isBlock) (hr : t.Returns → s.inFunction = true)
    (hc : c.Faces (n + 1) (t.words ++ ws)) : Rereads n Tree.outline (block g) s c t.outline ws := by
  obtain ⟨body,hs,hw⟩ := words_of_isBlock hb
  have hadmissible := ht.admissible
  rw [hs] at hadmissible
  have hmem {u : Tree} (hu : u ∈ body) : u ∈ t.children := by rwa [Tree.children,hs]
  rw [hw,braces,List.cons_append,List.append_assoc] at hc
  simp only [block,ends_bind,ends_start,ends_expectPunct,hc.kind,if_true]
  have hts : ∀ u ∈ body, u.Grammatical ∧ u.isStatement :=
    fun u hu => ⟨ht.child (hmem hu),hadmissible u hu⟩
  have hf : t.isFunction = false := by rw [Tree.isFunction,hs]
  apply (hg.blockItems hts (fun u hu h => hr (.under hf (hmem hu) h)) hc.step).mono
  rintro us d ⟨hus,hd⟩
  rw [ends_advance]
  exact finish_rereads (by rw [hs,Shape.map,Shape.map,hus]) hd.advance

/-- The parameters and the body of a function whose keyword and name are read. -/
theorem functionEnd_rereads {kind : FunctionKind} {name name' : Option Tree} {params : List Tree}
    {body : Tree} {start : Nat} (ht : t.Grammatical) (hs : t.shape = .function kind name params body)
    (hb : body.isBlock) (hn : name'.map Tree.outline = name.map Tree.outline)
    (hc : c.Faces n (parens (separated (params.map Tree.words)) ++ (body.words ++ ws))) :
    Ends TooDeep (parameterList g) s c fun us d => Ends TooDeep (functionBody g) s d fun v e =>
      Rereads n Tree.outline (finish start (.function kind name' us v)) s e t.outline ws := by
  have hadmissible := ht.admissible
  rw [hs] at hadmissible
  obtain ⟨_,_,_,hparams,_⟩ := hadmissible
  have hchild {u : Tree} (hu : u ∈ params ∨ u = body) : u.Grammatical :=
    ht.child (by rw [Tree.children,hs]; simp [Shape.children,hu])
  apply (parameterList_rereads hg (fun p hp => ⟨hchild (.inl hp),hparams p hp⟩) hc.up).mono
  rintro us d ⟨hus,hd⟩
  apply (block_rereads hg (hchild (.inr rfl)) hb (fun _ => rfl) hd.up).mono
  rintro v e ⟨hv,he⟩
  exact finish_rereads (by rw [hs,Shape.map,Shape.map,hn,hus,hv]) he

theorem function_rereads {kind : FunctionKind} {name : Option Tree} {params : List Tree}
    {body : Tree} (ht : t.Grammatical) (hs : t.shape = .function kind name params body)
    (hk : kind ≠ .arrow) (hc : c.Faces (n + 1) (t.words ++ ws)) :
    Rereads n Tree.outline (function g kind) s c t.outline ws := by
  have hadmissible := ht.admissible
  rw [hs] at hadmissible
  obtain ⟨hname,hdeclaration,_,_,hbody⟩ := hadmissible
  have hb : body.isBlock := hbody.resolve_right fun h => hk h.1
  have hw : t.words = .reserved .kwFunction :: (name.elim [] Tree.words ++
      (parens (separated (params.map Tree.words)) ++ body.words)) := by
    rw [Tree.words_of_shape hs]
    cases kind with
    | arrow => contradiction
    | _ => cases name <;> simp [Shape.map,Shape.layout,Tree.printed,Function.comp_def]
  rw [hw,List.cons_append,List.append_assoc,List.append_assoc] at hc
  simp only [function,ends_bind,ends_start,ends_expectWord,hc.kind,if_true,ends_eatPunct]
  cases name with
  | none =>
    have hkind : kind ≠ .declaration := fun h => absurd (hdeclaration h) (by simp)
    have hd : c.advance.Faces n
        (parens (separated (params.map Tree.words)) ++ (body.words ++ ws)) := hc.step
    have hopen : c.advance.current.kind = .punct .openParen := hd.kind
    rw [hopen,if_neg (by simp)]
    simp only [if_neg hkind,ends_bind,ends_current,hopen,ends_pure,ends_ite,Bool.false_eq_true,
      if_false]
    exact functionEnd_rereads hg ht hs hb rfl hd
  | some name =>
    have hd : c.advance.Faces n
        (name.words ++ (parens (separated (params.map Tree.words)) ++ (body.words ++ ws))) := hc.step
    obtain ⟨x,hx⟩ := name_kind (hname name rfl) hd
    rw [hx,if_neg (by simp)]
    simp only [ends_bind,ends_current,hx,ends_pure,ends_ite,if_true,ite_self,ends_map]
    apply (bindingName_rereads (hname name rfl) hd.up).mono
    rintro u e ⟨hu,he⟩
    exact functionEnd_rereads hg ht hs hb (by simp [hu]) he

theorem arrowFunction_rereads {name : Option Tree} {params : List Tree} {body : Tree}
    (ht : t.Grammatical) (hs : t.shape = .function .arrow name params body) (hk : 5 ≤ grip false k)
    (hc : c.Faces (n + 1) (t.words ++ k :: ws)) :
    Rereads n Tree.outline (arrowFunction g) s c t.outline (k :: ws) := by
  have hadmissible := ht.admissible
  rw [hs] at hadmissible
  obtain ⟨_,_,hname,hparams,hbody⟩ := hadmissible
  obtain rfl := hname rfl
  have hchild {u : Tree} (hu : u ∈ params ∨ u = body) : u.Grammatical :=
    ht.child (by rw [Tree.children,hs]; simpa [Shape.children] using hu)
  have hw : t.words = parens (separated (params.map Tree.words)) ++
      .punct .arrow :: body.printed.body := by
    rw [Tree.words_of_shape hs]
    simp [Shape.map,Shape.layout,Tree.printed,Function.comp_def]
  rw [hw,List.append_assoc] at hc
  have hopen : c.current.kind = .punct .openParen := hc.kind
  simp only [arrowFunction,ends_bind,ends_start,ends_atPunct,hopen,beq_self_eq_true,if_true]
  apply (parameterList_rereads hg (fun p hp => ⟨hchild (.inl hp),hparams p hp⟩) hc).mono
  rintro us d ⟨hus,hd⟩
  rw [ends_expectPunct,if_pos hd.kind]
  have hafter := hd.advance
  rcases hbody with hb | ⟨_,he⟩
  · rw [body_of_isBlock hb] at hafter
    simp only [block_kind hb hafter,beq_self_eq_true,if_true,ends_bind]
    apply (block_rereads hg (hchild (.inr rfl)) hb (fun _ => rfl) hafter.up).mono
    rintro v e ⟨hv,he⟩
    exact finish_rereads (by rw [hs,Shape.map,Shape.map,hus,hv]) he
  · rw [body_of_isExpression he] at hafter
    have hparen : d.advance.current.kind = .punct .openParen := hafter.kind
    rw [hparen,ends_ite,if_neg (by simp),ends_bind]
    apply (hg.assignment (hchild (.inr rfl)) he hk hafter).mono
    rintro v e ⟨hv,he⟩
    exact finish_rereads (by rw [hs,Shape.map,Shape.map,hus,hv]) he

end Functions

section Properties
variable {ts : List Tree} {key value : Tree} {computed : Bool}

theorem identifier_of_outline {u : Tree} {x : String} (h : u.outline = t.outline)
    (hs : t.shape = .identifier x) : u.shape = .identifier x := by
  have hshape := Tree.shape_of_outline h
  rw [hs] at hshape
  cases hu : u.shape <;> simp_all [Shape.map]

/-- Before a colon, a comma or a closing brace, a word is no accessor. -/
theorem startsAccessor_eq_false {k' : TokenKind} (hc : c.Faces n (k :: k' :: ws))
    (hk : k' = .punct .colon ∨ k' = .punct .comma ∨ k' = .punct .closeBrace) :
    c.startsAccessor = false := by
  unfold Cursor.startsAccessor
  rw [hc.next_kind]
  rcases hk with rfl | rfl | rfl <;> exact Bool.and_false _

theorem key_first (hkey : (if computed then key.isExpression else key.isKey) = true)
    (hc : c.Faces n (key.printed.key computed ++ .punct .colon :: ws)) :
    c.current.kind ≠ .punct .ellipsis ∧ c.current.kind ≠ .punct .closeBrace ∧
      c.startsAccessor = false := by
  cases computed with
  | true =>
    have hkind : c.current.kind = .punct .openBracket := hc.kind
    exact ⟨by simp [hkind],by simp [hkind],by simp [Cursor.startsAccessor,hkind]⟩
  | false =>
    obtain ⟨k,hword,hne⟩ : ∃ k, key.words = [k] ∧ ∀ p, k ≠ .punct p := by
      cases hs : key.shape with
      | identifier x => exact ⟨.ofWord x,Tree.words_of_shape hs,ofWord_ne_punct x⟩
      | literal kind raw =>
        refine ⟨kind.word raw,Tree.words_of_shape hs,?_⟩
        cases kind <;> simp_all [Tree.isKey,LiteralKind.word]
      | _ => simp [Tree.isKey,hs] at hkey
    rw [Printed.key,if_neg (by simp),Tree.printed,hword] at hc
    rw [hc.kind]
    exact ⟨hne _,hne _,startsAccessor_eq_false hc (.inl rfl)⟩

theorem property_kind (ht : t.Grammatical) (hp : t.isProperty) (hc : c.Faces n (t.words ++ ws)) :
    c.current.kind ≠ .punct .closeBrace := by
  have hadmissible := ht.admissible
  cases hs : t.shape with
  | spread a =>
    have hw : t.words = .punct .ellipsis :: a.printed.operand := Tree.words_of_shape hs
    rw [hw] at hc
    rw [hc.kind]
    simp
  | shorthand name =>
    rw [hs] at hadmissible
    have hw : t.words = name.words := Tree.words_of_shape hs
    rw [hw] at hc
    obtain ⟨x,hx⟩ := name_kind hadmissible hc
    simp [hx]
  | property key value computed =>
    rw [hs] at hadmissible
    have hw : t.words = key.printed.key computed ++ .punct .colon :: value.printed.operand :=
      Tree.words_of_shape hs
    rw [hw,List.append_assoc] at hc
    exact (key_first hadmissible.1 hc).2.1
  | _ => simp [Tree.isProperty,hs] at hp

variable (hg : g.Faithful n)
include hg

theorem propertyKey_rereads (ht : key.Grammatical)
    (hkey : (if computed then key.isExpression else key.isKey) = true)
    (hc : c.Faces (n + 1) (key.printed.key computed ++ ws)) :
    Rereads n (fun r : Tree × Bool => (r.1.outline,r.2)) (propertyKey g) s c (key.outline,computed)
      ws := by
  cases computed with
  | true =>
    have hc' : c.Faces (n + 1)
        (.punct .openBracket :: (key.printed.operand ++ .punct .closeBracket :: ws)) := by
      simpa [Printed.key,brackets] using hc
    simp only [propertyKey,ends_bind,ends_current,hc'.kind,ends_advance]
    apply (hg.assignment ht hkey (by decide) hc'.step).mono
    rintro u d ⟨hu,hd⟩
    rw [ends_expectPunct,if_pos hd.kind]
    exact ⟨by rw [hu],hd.advance⟩
  | false =>
    rw [Printed.key,if_neg (by simp),Tree.printed] at hc
    cases hs : key.shape with
    | identifier x =>
      have hn : key.name?.isSome := by simp [Tree.name?,hs,Shape.name?]
      have hw : key.words = [.ofWord x] := Tree.words_of_shape hs
      have hname : Ends TooDeep propertyName s c fun u d =>
          (u.outline,false) = (key.outline,false) ∧ d.Faces n ws := by
        apply (propertyName_rereads hn hc).mono
        rintro u d ⟨hu,hd⟩
        exact ⟨by rw [hu],hd⟩
      have hkind : c.current.kind = .ofWord x := by
        rw [hw] at hc
        exact hc.kind
      unfold TokenKind.ofWord at hkind
      split at hkind <;> 
        simpa only [propertyKey,ends_bind,ends_current,hkind,ends_pure] using hname
    | literal kind raw =>
      have hw : key.words = [kind.word raw] := Tree.words_of_shape hs
      rw [hw] at hc
      cases kind with
      | string | number =>
        have hkind := hc.kind
        simp only [propertyKey,ends_bind,ends_current,hkind,LiteralKind.word]
        apply (literal_rereads hs hc).mono
        rintro u d ⟨hu,hd⟩
        exact ⟨by rw [hu],hd⟩
      | _ => simp [Tree.isKey,hs] at hkey
    | _ => simp [Tree.isKey,hs] at hkey

theorem property_rereads (ht : t.Grammatical) (hp : t.isProperty)
    (hk : k = .punct .comma ∨ k = .punct .closeBrace) (hc : c.Faces (n + 1) (t.words ++ k :: ws)) :
    Rereads n Tree.outline (property g) s c t.outline (k :: ws) := by
  have hgrip : 5 ≤ grip false k := by rcases hk with rfl | rfl <;> decide
  have hadmissible := ht.admissible
  simp only [property,ends_bind,ends_start,ends_eatPunct,ends_ite,ends_get,Bool.false_eq_true,
    if_true,if_false]
  cases hs : t.shape with
  | spread a =>
    have hw : t.words = .punct .ellipsis :: a.printed.operand := Tree.words_of_shape hs
    rw [hw] at hc
    rw [if_pos hc.kind]
    exact spread_rereads hg ht hs hgrip hc.step
  | shorthand name =>
    rw [hs] at hadmissible
    have hname : name.Grammatical := ht.child (by simp [Tree.children,hs,Shape.children])
    have hw : t.words = name.words := Tree.words_of_shape hs
    obtain ⟨x,hx,hword⟩ := words_of_isName hadmissible
    have hkey : (if false = true then name.isExpression else name.isKey) = true := by
      rw [if_neg (by simp),Tree.isKey,hx]
    have hfree : (Keyword.ofText? x).isNone := by
      have hn : name.isName := hadmissible
      rwa [Tree.isName,hx] at hn
    rw [hw] at hc
    have haccessor : c.startsAccessor = false := by
      rw [hword] at hc
      exact startsAccessor_eq_false hc (.inr hk)
    obtain ⟨y,hkind⟩ := name_kind hadmissible hc
    rw [hkind,if_neg (by simp)]
    simp only [haccessor,Bool.false_eq_true,if_false]
    apply (propertyKey_rereads hg hname hkey hc).mono
    rintro ⟨u,computed⟩ d ⟨hresult,hd⟩
    obtain ⟨hu,rfl⟩ : u.outline = name.outline ∧ computed = false := Prod.mk.inj hresult
    have hshape := identifier_of_outline hu hx
    simp only [propertyValue,ends_bind,ends_current,hd.kind,hshape]
    rw [if_neg (by rcases hk with rfl | rfl <;> simp),if_neg (by rcases hk with rfl | rfl <;> simp),
      if_pos (by rcases hk with rfl | rfl <;> simpa using hfree)]
    exact finish_rereads (by rw [hs,Shape.map,Shape.map,hu]) hd
  | property key value computed =>
    rw [hs] at hadmissible
    obtain ⟨hkey,hvalue⟩ := hadmissible
    have hchild {u : Tree} (hu : u = key ∨ u = value) : u.Grammatical :=
      ht.child (by rw [Tree.children,hs]; simpa [Shape.children] using hu)
    have hw : t.words = key.printed.key computed ++ .punct .colon :: value.printed.operand :=
      Tree.words_of_shape hs
    rw [hw,List.append_assoc] at hc
    obtain ⟨hellipsis,_,haccessor⟩ := key_first hkey hc
    rw [if_neg hellipsis]
    simp only [haccessor,Bool.false_eq_true,if_false]
    apply (propertyKey_rereads hg (hchild (.inl rfl)) hkey hc).mono
    rintro ⟨u,computed'⟩ d ⟨hresult,hd⟩
    obtain ⟨hu,rfl⟩ : u.outline = key.outline ∧ computed' = computed := Prod.mk.inj hresult
    simp only [propertyValue,ends_bind,ends_current,hd.kind,Bool.not_false,Bool.true_and,
      beq_self_eq_true,if_true,ends_advance]
    apply (hg.assignment (hchild (.inr rfl)) hvalue hgrip hd.advance).mono
    rintro v e ⟨hv,he⟩
    exact finish_rereads (by rw [hs,Shape.map,Shape.map,hu,hv]) he
  | _ => simp [Tree.isProperty,hs] at hp

theorem properties_rereads (hts : ∀ t ∈ ts, t.Grammatical ∧ t.isProperty)
    (hc : c.Faces (n + 1) (separated (ts.map Tree.words) ++ .punct .closeBrace :: ws)) :
    Rereads (n + 1) (List.map Tree.outline) (properties g) s c (ts.map Tree.outline)
      (.punct .closeBrace :: ws) := by
  simp only [properties,ends_bind,ends_atPunct,ends_ite]
  cases ts with
  | nil =>
    rw [hc.kind]
    exact ⟨rfl,hc⟩
  | cons t ts =>
    obtain ⟨ht,hp⟩ := hts t (.head _)
    rw [if_neg (by simpa using property_kind ht hp (separated_faces hc))]
    cases ts with
    | nil =>
      apply (property_rereads hg ht hp (.inr rfl) hc).mono
      rintro u d ⟨hu,hd⟩
      rw [hd.kind]
      exact ⟨by simp [hu],hd.up⟩
    | cons t' ts =>
      have hc' : c.Faces (n + 1) (t.words ++ .punct .comma ::
          (separated ((t' :: ts).map Tree.words) ++ .punct .closeBrace :: ws)) := by
        simpa [separated] using hc
      apply (property_rereads hg ht hp (.inl rfl) hc').mono
      rintro u d ⟨hu,hd⟩
      simp only [hd.kind,ends_expectPunct,if_true]
      apply (hg.properties (fun t ht => hts t (.tail _ ht)) hd.advance).mono
      rintro us e ⟨hus,he⟩
      exact ⟨by rw [List.map_cons,hu,hus]; rfl,he.up⟩

end Properties

end ScriptLint.Grammar
