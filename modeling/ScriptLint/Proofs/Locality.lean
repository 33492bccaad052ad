import ScriptLint.Proofs.Resolution

/-! To which scope a declaration belongs, and to which function a scope. A node declares a name in
one scope only, and what a statement declares is a local variable right there. -/
namespace ScriptLint

lemma eq_of_mem_declared {id : Tree} {node : NodeId} {kind : DeclarationKind} {d : Declaration}
    (h : d ∈ declared id node kind) : d.node = node ∧ d.kind = kind := by
  unfold declared at h
  split at h <;> simp_all

lemma mem_declared {id : Tree} {node : NodeId} {kind : DeclarationKind} {d : Declaration} :
    d ∈ declared id node kind ↔ declaration? id node kind = some d := by
  rw [declared_eq,Option.mem_toList]

namespace Position
variable {root : Tree} {p q : Position} {d : Declaration}

/-- The scope that a declaration of some kind by a position belongs to. -/
def home (p : Position) : DeclarationKind → Option NodeId
  | .var | .param => p.nearest isBoundary
  | .let_ | .const | .function | .catchParam => p.nearest opensScope
  | .functionName => some p.id

/-- What a position declares, wherever that belongs: a declarator its variable, a function its name,
and an identifier in the place of a parameter itself. -/
def declares? (p : Position) : Option Declaration :=
  match p.node.shape, p.parent?.map Tree.shape with
  | .declarator id _, some (.variableDeclaration kind _) =>
    declaration? id p.id kind.declarationKind
  | .function kind (some name) _ _, _ =>
    declaration? name p.id (if kind = .declaration then .function else .functionName)
  | .identifier _, some (.function _ _ params _) =>
    if p.id ∈ params.map Tree.id then declaration? p.node p.id .param else none
  | .identifier _, some (.defaultParam target _) | .identifier _, some (.restParam target) =>
    if p.id = target.id then declaration? p.node p.id .param else none
  | .identifier _, some (.catchClause (some param) _) =>
    if p.id = param.id then declaration? p.node p.id .catchParam else none
  | _, _ => none

/-- A declaration is made by an identifier and is that of a node. -/
lemma declaration_eq_some {id : Tree} {node : NodeId} {kind : DeclarationKind}
    (h : declaration? id node kind = some d) : id.shape = .identifier d.name ∧ d.node = node := by
  have hnode := (eq_of_mem_declared (mem_declared.mpr h)).1
  have hmem := mem_declared.mpr h
  unfold declared at hmem
  split at hmem
  next name hs =>
    obtain rfl := List.mem_singleton.mp hmem
    exact ⟨hs,rfl⟩
  next => contradiction

/-- A declaration is that of the position that makes it. -/
lemma declares_node (h : p.declares? = some d) : d.node = p.id := by
  unfold declares? at h
  split at h
  case h_1 | h_2 => exact (declaration_eq_some h).2
  case h_7 => contradiction
  all_goals
    split at h
    · exact (declaration_eq_some h).2
    · contradiction

theorem home_of_mem_contributed {scope : NodeId} (h : d ∈ p.contributed scope) :
    p.declares? = some d ∧ p.home d.kind = some scope := by
  unfold contributed at h
  split at h
  case h_5 => contradiction
  all_goals
    split at h
    next hscope =>
      refine ⟨?_,(eq_of_mem_declared h).2 ▸ hscope⟩
      simp [*,declares?,VariableKind.declarationKind,mem_declared.mp h]
    next => contradiction

/-- A parameter is bound by an identifier right below its function or one step further down. -/
lemma home_of_parameter {kind : FunctionKind} {name : Option Tree} {params : List Tree} {body c : Tree}
    (hp : p ∈ root.top.preorder) (hs : p.node.shape = .function kind name params body)
    (hc : c ∈ params)
    (h : d ∈ match c.shape with
      | .defaultParam target _ | .restParam target => declared target target.id .param
      | _ => declared c c.id .param) :
    ∃ q ∈ root.top.preorder, q.declares? = some d ∧ q.home d.kind = some p.id := by
  have hb : p.isBoundary := by simp [isBoundary,Tree.isFunction,hs]
  have hchild : p.child c ∈ root.top.preorder :=
    child_mem_preorder hp (by simp [Tree.children,hs,Shape.children,hc])
  have hnear : (p.child c).nearest isBoundary = some p.id := by
    rw [nearest_child (.inr hb),if_pos hb]
  have hbelow (target : Tree) (htarget : target ∈ c.children) (hc' : (p.child c).isBoundary = false)
      (hparent : ∀ id, target.shape = .identifier id →
        ((p.child c).child target).declares? = declaration? target target.id .param)
      (h : d ∈ declared target target.id .param) :
      ∃ q ∈ root.top.preorder, q.declares? = some d ∧ q.home d.kind = some p.id := by
    have hd := mem_declared.mp h
    refine ⟨(p.child c).child target,child_mem_preorder hchild htarget,?_,?_⟩
    · rw [hparent _ (declaration_eq_some hd).1,hd]
    · rw [(eq_of_mem_declared h).2]
      change ((p.child c).child target).nearest isBoundary = _
      rw [nearest_child (.inl (List.cons_ne_nil _ _)),if_neg (by simp [hc']),hnear]
  split at h
  next target value hs' =>
    refine hbelow target (by simp [Tree.children,hs',Shape.children])
      (by simp [isBoundary,Tree.isFunction,Tree.isProgram,hs']) (fun id hid => ?_) h
    simp [declares?,parent?,hid,hs']
  next target hs' =>
    refine hbelow target (by simp [Tree.children,hs',Shape.children])
      (by simp [isBoundary,Tree.isFunction,Tree.isProgram,hs']) (fun id hid => ?_) h
    simp [declares?,parent?,hid,hs']
  next =>
    have hd := mem_declared.mp h
    refine ⟨p.child c,hchild,?_,?_⟩
    · have hmem : c.id ∈ params.map Tree.id := List.mem_map_of_mem hc
      have hid := (declaration_eq_some hd).1
      rw [← hd]
      simp only [declares?,parent?,child_node,child_ancestors,hid,List.head?_cons,
        Option.map_some,hs,child_id]
      exact if_pos hmem
    · rw [(eq_of_mem_declared h).2]
      exact hnear

theorem home_of_mem_introduced (hp : p ∈ root.top.preorder) (ho : p.opensScope)
    (h : d ∈ p.introduced) :
    ∃ q ∈ root.top.preorder, q.declares? = some d ∧ q.home d.kind = some p.id := by
  unfold introduced at h
  split at h
  next kind name params body hs =>
    rcases List.mem_append.mp h with h | h
    · split at h
      next => contradiction
      next hkind =>
        obtain ⟨id,hid,hd⟩ := List.mem_flatMap.mp h
        obtain rfl := Option.mem_toList.mp hid
        refine ⟨p,hp,?_,by rw [(eq_of_mem_declared hd).2]; rfl⟩
        rw [← mem_declared.mp hd]
        simp [declares?,hs,hkind]
    · obtain ⟨c,hc,hd⟩ := List.mem_flatMap.mp h
      exact home_of_parameter hp hs hc hd
  next param body hs =>
    have hd := mem_declared.mp h
    have hc : param ∈ p.node.children := by simp [Tree.children,hs,Shape.children]
    refine ⟨p.child param,child_mem_preorder hp hc,?_,?_⟩
    · have hid := (declaration_eq_some hd).1
      rw [← hd]
      simp [declares?,parent?,hid,hs]
    · rw [(eq_of_mem_declared h).2]
      change (p.child param).nearest opensScope = _
      rw [nearest_child (.inr ho),if_pos ho]
  next => contradiction

theorem home_of_mem_declarations (hp : p ∈ root.top.preorder) (ho : p.opensScope)
    (h : d ∈ p.declarations) :
    ∃ q ∈ root.top.preorder, q.declares? = some d ∧ q.home d.kind = some p.id := by
  rcases List.mem_append.mp h with h | h
  · exact home_of_mem_introduced hp ho h
  · obtain ⟨q,hq,hd⟩ := List.mem_flatMap.mp h
    have hmem : q ∈ p.preorder := by
      rw [preorder_eq_cons_below]
      exact .tail _ hq
    exact ⟨q,(preorder_sublist hp).subset hmem,home_of_mem_contributed hd⟩

/-- One node makes one declaration, in one scope. -/
theorem scope_unique (h : root.Numbered) {e : Declaration} (hp : p ∈ root.top.preorder)
    (hq : q ∈ root.top.preorder) (hpo : p.opensScope) (hqo : q.opensScope)
    (hd : d ∈ p.declarations) (he : e ∈ q.declarations) (hnode : d.node = e.node) :
    p = q ∧ d = e := by
  obtain ⟨r,hr,hrd,hhome⟩ := home_of_mem_declarations hp hpo hd
  obtain ⟨r',hr',hre,hhome'⟩ := home_of_mem_declarations hq hqo he
  obtain rfl := h.eq_of_id hr hr' (by rw [← declares_node hrd,← declares_node hre,hnode])
  obtain rfl := Option.some.inj (hrd.symm.trans hre)
  exact ⟨h.eq_of_id hp hq (Option.some.inj (hhome.symm.trans hhome')),rfl⟩

/-- The positions above a position go on with those above each of them. -/
lemma above_of_split {inner outer : List Position} (h : p.above = inner ++ q :: outer) :
    outer = q.above := by
  obtain ⟨t,ancestors⟩ := p
  change outward ancestors = _ at h
  induction ancestors generalizing inner with
  | nil => simp [outward] at h
  | cons parent above ih =>
    rw [outward] at h
    cases inner with
    | nil =>
      cases h
      rfl
    | cons first inner => exact ih (List.cons.inj h).2

lemma around_of_split {inner outer : List Position} (h : p.around = inner ++ q :: outer) :
    outer = q.above := by
  unfold around at h
  split at h
  next he =>
    cases inner with
    | nil =>
      cases h
      rw [above,List.isEmpty_iff.mp he]
      rfl
    | cons => simp at h
  next => exact above_of_split h

/-- The scopes up to the nearest function or program are part of it. -/
theorem owner_of_split {inner outer : List Position} (h : p.around = inner ++ q :: outer)
    (hinner : ∀ r ∈ inner, r.isBoundary = false) (hq : q.isBoundary) :
    ∀ r ∈ inner ++ [q], r.owner = some q.id := by
  intro r hr
  rcases List.mem_append.mp hr with hr | hr
  · obtain ⟨front,back,rfl⟩ := List.append_of_mem hr
    have habove : back ++ q :: outer = r.above := by
      apply around_of_split (p := p)
      rw [h,List.append_assoc]
      rfl
    have hfind : (r :: back).find? isBoundary = none := by
      rw [List.find?_eq_none]
      intro u hu
      simpa using hinner u (List.mem_append_right _ hu)
    rw [owner,← habove,← List.cons_append,List.find?_append,hfind,List.find?_cons_of_pos hq]
    rfl
  · obtain rfl := List.mem_singleton.mp hr
    rw [owner,List.find?_cons_of_pos hq]
    rfl

lemma top_mem_around : ∀ p ∈ root.top.preorder, root.top ∈ p.around := by
  apply preorder_induction
  · exact .head _
  · intro p hp ih c hc
    change root.top ∈ p :: p.above
    rcases eq_or_child p hp with rfl | ⟨q,hq,d,hd,rfl⟩
    · exact .head _
    · exact .tail _ ih

/-- A declarator is among the declarations of the scope it belongs to. -/
lemma exists_declaration {x : String} (hp : p ∈ root.top.preorder)
    {kind : VariableKind} {declarators : List Tree} {d id : Tree} {value : Option Tree}
    (hs : p.node.shape = .variableDeclaration kind declarators) (hd : d ∈ declarators)
    (hds : d.shape = .declarator id value) (hx : id.name? = some x) (hne : p.ancestors ≠ [])
    (hq : q ∈ p.around)
    (hhome : (if kind.isBlockScoped then p.nearest opensScope else p.nearest isBoundary) =
      some q.id) : ∃ e ∈ q.declarations, e.name = x := by
  have habove : q ∈ p.above := by simpa [around,hne] using hq
  obtain ⟨_,c,hc,hbelow⟩ := below_of_mem_above rfl p hp q habove
  have hmem : d ∈ p.node.children := by
    rw [Tree.children,hs]
    exact hd
  have hchild : p.child d ∈ q.below := List.mem_flatMap.mpr ⟨c,hc,child_mem_preorder hbelow hmem⟩
  have htarget : p.target = some q.id := by
    cases kind <;> simpa [target,hs,VariableKind.isBlockScoped] using hhome
  have hcontributed : ⟨x,d.id,kind.declarationKind⟩ ∈ (p.child d).contributed q.id := by
    rw [contributed_declarator hs hds hne,if_pos htarget,declared,Tree.shape_of_name hx]
    exact .head _
  exact ⟨_,List.mem_append_right _ (List.mem_flatMap.mpr ⟨_,hchild,hcontributed⟩),rfl⟩

end Position

namespace Parsed
open Position
variable {bytes : List UInt8} {root : Tree} {p q : Position} {x : String} (h : Parsed bytes root)
include h

/-- Around every position is a function or the program, with no other in between. -/
theorem exists_boundary (hp : p ∈ root.top.preorder) :
    ∃ inner f outer, p.around = inner ++ f :: outer ∧ (∀ r ∈ inner, r.isBoundary = false) ∧
      f.isBoundary ∧ p.nearest isBoundary = some f.id := by
  have htop : root.top.isBoundary := by simp [isBoundary,Tree.top,h.program]
  obtain ⟨f,hf⟩ := Option.isSome_iff_exists.mp
    (List.find?_isSome.mpr ⟨root.top,top_mem_around p hp,htop⟩)
  obtain ⟨hb,inner,outer,hsplit,hinner⟩ := List.find?_eq_some_iff_append.mp hf
  refine ⟨inner,f,outer,hsplit,fun r hr => by simpa using hinner r hr,hb,?_⟩
  rw [nearest,hf]
  rfl

/-- A name that is declared in the function around stands for a local variable. -/
theorem isLocal_of_declared (hp : p ∈ root.top.preorder) {inner outer : List Position}
    {f : Position} (hsplit : p.around = inner ++ f :: outer)
    (hinner : ∀ r ∈ inner, r.isBoundary = false) (hf : f.isBoundary)
    (hnear : p.nearest isBoundary = some f.id) (hq : q ∈ inner ++ [f])
    (ho : q.opensScope) {d : Declaration} (hd : d ∈ q.declarations) (hx : d.name = x) :
    (root.scopeGraph.resolve x p.id).isLocal := by
  have hscopes : p.scopes = (inner ++ [f]).filter opensScope ++ outer.filter opensScope := by
    rw [scopes,hsplit,← List.filter_append,List.append_assoc]
    rfl
  have hqs : q ∈ (inner ++ [f]).filter opensScope := List.mem_filter.mpr ⟨hq,ho⟩
  have hresolved : root.scopeGraph.resolve x p.id ≠ .unresolved := by
    rw [ne_eq,h.resolve_eq_unresolved hp]
    intro hnone
    exact hnone q (by rw [hscopes]; exact List.mem_append_left _ hqs) d hd hx
  obtain ⟨r,e,hfinds⟩ := h.exists_finds hp hresolved
  -- The scope that is found is not further out than `q`, which declares the name too.
  have hr : r ∈ inner ++ [f] := by
    obtain ⟨front,back,hfront,hnot⟩ := hfinds.innermost
    have hqf : q ∉ front := fun hmem => hnot q hmem d hd hx
    rw [hscopes] at hfront
    rcases List.append_eq_append_iff.mp hfront with ⟨more,rfl,_⟩ | ⟨more,hmore,hback⟩
    · exact absurd (List.mem_append_left _ hqs) hqf
    · cases more with
      | nil => exact absurd (by simpa [hmore] using hqs) hqf
      | cons first more =>
        cases hback
        have hr : r ∈ (inner ++ [f]).filter opensScope := by simp [hmore]
        exact List.mem_of_mem_filter hr
  obtain ⟨i,hi,hresolve⟩ := h.resolve_of_finds hp hfinds
  rw [owner_of_split hsplit hinner hf r hr] at hi
  rw [hresolve,hnear,if_pos hi]
  rfl

/-- What a declaration of variables declares is local right there. -/
theorem isLocal_of_declarator (hp : p ∈ root.top.preorder) {kind : VariableKind}
    {declarators : List Tree} {d id : Tree} {value : Option Tree}
    (hs : p.node.shape = .variableDeclaration kind declarators) (hd : d ∈ declarators)
    (hds : d.shape = .declarator id value) (hx : id.name? = some x) :
    (root.scopeGraph.resolve x p.id).isLocal := by
  obtain ⟨inner,f,outer,hsplit,hinner,hf,hnear⟩ := h.exists_boundary hp
  have hne : p.ancestors ≠ [] := by
    intro he
    have hprogram := h.isProgram_eq hp
    simp [Tree.isProgram,hs,he] at hprogram
  cases hk : kind.isBlockScoped with
  | false =>
    obtain ⟨e,he,hx⟩ := exists_declaration hp hs hd hds hx hne (q := f) (by simp [hsplit])
      (by simp [hk,hnear])
    exact h.isLocal_of_declared hp hsplit hinner hf hnear (by simp) (opensScope_of_isBoundary hf)
      he hx
  | true =>
    -- The nearest scope is not further out than `f`, which is one itself.
    have hopen : ((inner ++ [f]).find? opensScope).isSome :=
      List.find?_isSome.mpr ⟨f,by simp,opensScope_of_isBoundary hf⟩
    obtain ⟨r,hr⟩ := Option.isSome_iff_exists.mp hopen
    have haround : p.around.find? opensScope = some r := by
      have happend : p.around = (inner ++ [f]) ++ outer := by simp [hsplit]
      rw [happend,List.find?_append,hr]
      rfl
    obtain ⟨e,he,hx⟩ := exists_declaration hp hs hd hds hx hne (List.mem_of_find?_eq_some haround)
      (by simp [hk,nearest,haround])
    exact h.isLocal_of_declared hp hsplit hinner hf hnear (List.mem_of_find?_eq_some hr)
      (List.find?_some hr) he hx

end Parsed
end ScriptLint
