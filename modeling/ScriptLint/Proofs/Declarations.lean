import ScriptLint.Proofs.Scoping

/-! When a pass over a tree comes to what is declared in a scope. It notes the variables of a
declaration when it comes to the declaration, and not when it comes to their declarators. Since
nothing else is declared between the two, all that it notes of a scope is what is declared in that
scope, in the same order. -/
namespace ScriptLint

lemma declared_eq (id : Tree) (node : NodeId) (kind : DeclarationKind) :
    declared id node kind = (declaration? id node kind).toList := by
  unfold declared declaration? Tree.name? Shape.name?
  split <;> simp_all

/-- What a node declares in a scope around it. -/
def Tree.outward (t : Tree) : List Declaration :=
  match t.shape with
  | .variableDeclaration kind declarators => variableDeclarations kind declarators
  | .function .declaration (some name) _ _ => declared name t.id .function
  | _ => []

namespace Position
variable {bytes : List UInt8} {root : Tree} {p q : Position} {scope : NodeId}

/-- The scope around a position that it declares names in. -/
def target (p : Position) : Option NodeId :=
  match p.node.shape with
  | .variableDeclaration .var _ => p.nearest isBoundary
  | _ => p.nearest opensScope

/-- What a pass notes of the scope with a number when it comes to a position. -/
def noted (scope : NodeId) (p : Position) : List Declaration :=
  (if p.target = some scope then p.node.outward else []) ++
    if p.id = scope then p.introduced else []

lemma target_cases (p : Position) :
    p.target = p.nearest isBoundary ∨ p.target = p.nearest opensScope := by
  unfold target
  split
  · exact .inl rfl
  · exact .inr rfl

lemma outward_eq_nil_of_role (h : p.node.role = .inner) : p.node.outward = [] := by
  unfold Tree.role at h
  unfold Tree.outward
  split <;> simp_all

/-- What comes to a scope from outside of the node that opens it: from the positions that are in it,
and not from expressions. -/
structure Supplies (scope : NodeId) (f : Position → List Declaration) : Prop where
  far : ∀ p, p.id ≠ scope → p.nearest isBoundary ≠ some scope → p.nearest opensScope ≠ some scope →
    f p = []
  inner : ∀ p, p.id ≠ scope → p.node.role = .inner → f p = []

theorem contributed_supplies (scope : NodeId) : Supplies scope (contributed scope) where
  far _ _ := contributed_eq_nil
  inner _ _ := contributed_eq_nil_of_role

theorem noted_supplies (scope : NodeId) : Supplies scope (noted scope) where
  far p hne hb hs := by
    have htarget : p.target ≠ some scope := by rcases p.target_cases with h | h <;> rwa [h]
    rw [noted,if_neg htarget,if_neg hne,List.append_nil]
  inner p hne hrole := by
    rw [noted,outward_eq_nil_of_role hrole,if_neg hne,ite_self,List.append_nil]

namespace Supplies
variable {f : Position → List Declaration}

/-- Nothing below a function is declared outside of it. -/
lemma below_function (hf : Supplies scope f) (h : root.Numbered) (hp : p ∈ root.top.preorder)
    (hfunction : p.node.isFunction) (hlt : p.id < scope) : p.below.flatMap f = [] := by
  have hb : p.isBoundary := by simp [isBoundary,hfunction]
  rw [List.flatMap_eq_nil_iff]
  intro q hq
  obtain ⟨i,hi,hbound⟩ := nearest_of_mem_below h hp hb q hq
  obtain ⟨j,hj,hopen⟩ := nearest_of_mem_below h hp (opensScope_of_isBoundary hb) q hq
  have hle : q.id ≤ p.id := h.id_le hp q (preorder_eq_cons_below p ▸ .tail _ hq)
  refine hf.far q (Nat.ne_of_lt (Nat.lt_of_le_of_lt hle hlt)) ?_ ?_
  · rw [hbound]
    rintro ⟨⟩
    exact absurd hlt (Nat.not_lt.mpr hi)
  · rw [hopen]
    rintro ⟨⟩
    exact absurd hlt (Nat.not_lt.mpr hj)

/-- Nothing below an expression or a declarator is declared outside of it. -/
theorem below_inner (hf : Supplies scope f) (h : Parsed bytes root) (hp : p ∈ root.top.preorder)
    (hrole : p.node.role = .inner ∨ p.node.role = .declarator) (hlt : p.id < scope) :
    p.below.flatMap f = [] := by
  induction p using below_induction with
  | step p ih =>
    cases hfunction : p.node.isFunction with
    | true => exact hf.below_function h.numbered hp hfunction hlt
    | false =>
      rw [below,List.flatMap_assoc,List.flatMap_eq_nil_iff]
      intro c hc
      have hlt' := Nat.lt_trans (h.numbered.child_id_lt hp hc) hlt
      have hinner := (h.grammatical_at p hp).role_child_eq_inner hrole hfunction hc
      rw [preorder_eq_cons_below,List.flatMap_cons,hf.inner (p.child c) (Nat.ne_of_lt hlt') hinner,
        List.nil_append]
      exact ih c hc (child_mem_preorder hp hc) (.inl hinner) hlt'

end Supplies

/-- What a node other than a declaration of variables declares around it. -/
lemma noted_eq (hne : p.id ≠ scope) (hv : p.node.isVariableDeclaration = false)
    (hrole : p.node.role ≠ .declarator) : p.noted scope = p.contributed scope := by
  rw [noted,if_neg hne,List.append_nil]
  cases hs : p.node.shape with
  | variableDeclaration => simp [Tree.isVariableDeclaration,hs] at hv
  | declarator => simp [Tree.role,hs] at hrole
  | function kind name =>
    cases kind <;> cases name <;> simp [contributed,target,Tree.outward,hs,Position.id]
  | _ => simp [contributed,Tree.outward,hs]

/-- What a declarator declares depends on where its declaration stands. -/
lemma contributed_declarator {kind : VariableKind} {declarators : List Tree} {d id : Tree}
    {value : Option Tree} (hs : p.node.shape = .variableDeclaration kind declarators)
    (hd : d.shape = .declarator id value) (hne : p.ancestors ≠ []) :
    (p.child d).contributed scope =
      if p.target = some scope then declared id d.id kind.declarationKind else [] := by
  have hopen : p.opensScope = false := by simp [opensScope,hs]
  have hbound : p.isBoundary = false := by
    simp [isBoundary,Tree.isFunction,Tree.isProgram,hs]
  have hparent : (p.child d).parent?.map Tree.shape =
      some (.variableDeclaration kind declarators) := congrArg some hs
  unfold contributed
  rw [hparent,nearest_child (.inl hne),nearest_child (.inl hne),hopen,hbound,child_node,child_id,hd]
  cases kind <;> simp [target,hs,VariableKind.declarationKind]

/-- A declaration of variables declares what its declarators do. -/
lemma noted_eq_below (h : Parsed bytes root) (hp : p ∈ root.top.preorder)
    (hv : p.node.isVariableDeclaration) (hne : p.ancestors ≠ []) (hlt : p.id < scope) :
    p.noted scope = p.below.flatMap (contributed scope) := by
  obtain ⟨kind,declarators,hs⟩ := Tree.covers_of_isKind hv
  have hadmissible := (h.grammatical_at p hp).admissible
  rw [hs] at hadmissible
  have hchild (d : Tree) (hd : d ∈ declarators) :
      (p.child d).preorder.flatMap (contributed scope) =
        if p.target = some scope then d.declaredNames.map fun name =>
          ⟨name,d.id,kind.declarationKind⟩ else [] := by
    have hmem : d ∈ p.node.children := by
      rw [Tree.children,hs]
      exact hd
    obtain ⟨id,value,hd'⟩ := Tree.covers_of_isKind (hadmissible.2 d hd)
    rw [preorder_eq_cons_below,List.flatMap_cons,(contributed_supplies scope).below_inner h
      (child_mem_preorder hp hmem)
      (.inr (Tree.role_of_isKind (hadmissible.2 d hd) (by decide)))
      (Nat.lt_trans (h.numbered.child_id_lt hp hmem) hlt),List.append_nil,
      contributed_declarator hs hd' hne,declared_eq,Tree.declaredNames,hd']
    cases hname : id.name? <;> simp [declaration?,hname]
  rw [noted,if_neg (Nat.ne_of_lt hlt),List.append_nil,below,List.flatMap_assoc,Tree.children,
    Tree.outward,hs]
  rw [Shape.children,List.flatMap_congr hchild]
  split
  · rfl
  · simp

lemma contributed_of_isVariableDeclaration (hv : p.node.isVariableDeclaration) :
    p.contributed scope = [] := by
  obtain ⟨kind,declarators,hs⟩ := Tree.covers_of_isKind hv
  simp [contributed,hs]

/-- Nothing is noted of the scopes around a declaration of variables while the pass goes through its
declarators. -/
lemma below_flatMap_noted (h : Parsed bytes root) (hp : p ∈ root.top.preorder)
    (hv : p.node.isVariableDeclaration) (hlt : p.id < scope) :
    p.below.flatMap (noted scope) = [] := by
  obtain ⟨kind,declarators,hs⟩ := Tree.covers_of_isKind hv
  have hadmissible := (h.grammatical_at p hp).admissible
  rw [hs] at hadmissible
  rw [below,List.flatMap_assoc,List.flatMap_eq_nil_iff]
  intro d hd
  have hlt' : d.id < scope := Nat.lt_trans (h.numbered.child_id_lt hp hd) hlt
  have hdeclarator : d.isDeclarator := by
    rw [Tree.children,hs] at hd
    exact hadmissible.2 d hd
  obtain ⟨id,value,hd'⟩ := Tree.covers_of_isKind hdeclarator
  have hnone : (p.child d).noted scope = [] := by
    rw [noted,child_id,if_neg (Nat.ne_of_lt hlt'),Tree.outward,child_node,hd']
    simp
  rw [preorder_eq_cons_below,List.flatMap_cons,hnone,List.nil_append]
  exact (noted_supplies scope).below_inner h (child_mem_preorder hp hd)
    (.inr (Tree.role_of_isKind hdeclarator (by decide))) hlt'

/-- From a position on downwards, all that is noted of a scope around it is what is declared in that
scope. -/
theorem flatMap_noted (h : Parsed bytes root) (hp : p ∈ root.top.preorder) (hne : p.ancestors ≠ [])
    (hrole : p.node.role ≠ .declarator) (hlt : p.id < scope) :
    p.preorder.flatMap (noted scope) = p.preorder.flatMap (contributed scope) := by
  induction p using below_induction with
  | step p ih =>
    rw [preorder_eq_cons_below,List.flatMap_cons,List.flatMap_cons]
    cases hv : p.node.isVariableDeclaration with
    | true =>
      rw [noted_eq_below h hp hv hne hlt,below_flatMap_noted h hp hv hlt,
        contributed_of_isVariableDeclaration hv,List.append_nil,List.nil_append]
    | false =>
      rw [noted_eq (Nat.ne_of_lt hlt) hv hrole,below,List.flatMap_assoc,List.flatMap_assoc]
      congr 1
      refine List.flatMap_congr fun c hc => ?_
      have hrole' : c.role ≠ .declarator := by
        intro hc'
        have hd := (h.grammatical_at p hp).isVariableDeclaration_of_child hc hc'
        rw [hv] at hd
        contradiction
      exact ih c hc (child_mem_preorder hp hc) (List.cons_ne_nil _ _) hrole'
        (Nat.lt_trans (h.numbered.child_id_lt hp hc) hlt)

/-- The nearest boundary around a position is not the position. -/
lemma nearest_ne_self {kind : Position → Bool} (h : root.Numbered) (hp : p ∈ root.top.preorder)
    (hne : p.ancestors ≠ []) : p.nearest kind ≠ some p.id := by
  intro hself
  obtain ⟨q,hq,hid⟩ := Option.map_eq_some_iff.mp hself
  have hmem : q ∈ p.above := by simpa [around,hne] using List.mem_of_find?_eq_some hq
  have hlt := h.above_id_lt hp hmem
  rw [hid] at hlt
  exact Nat.lt_irrefl _ hlt

/-- What a position declares around it is not declared in the scope that it opens. -/
lemma noted_self (h : Parsed bytes root) (hp : p ∈ root.top.preorder) :
    p.noted p.id = p.introduced := by
  rw [noted,if_pos rfl]
  by_cases htarget : p.target = some p.id
  · have he : p.ancestors = [] := by
      by_contra hne
      rcases p.target_cases with hcase | hcase <;>
        exact nearest_ne_self h.numbered hp hne (hcase ▸ htarget)
    have hprogram : p.node.isProgram := by rw [h.isProgram_eq hp,he]; rfl
    have hnone : p.node.outward = [] := by
      unfold Tree.isProgram at hprogram
      unfold Tree.outward
      split <;> simp_all
    rw [hnone,ite_self,List.nil_append]
  · rw [if_neg htarget,List.nil_append]

/-- What is noted of a scope is noted at the position that opens it and at positions below. -/
lemma mem_preorder_of_noted (h : Parsed bytes root) (hp : p ∈ root.top.preorder)
    (hq : q ∈ root.top.preorder) (hnoted : p.noted q.id ≠ []) : p ∈ q.preorder := by
  by_cases hid : p.id = q.id
  · rw [h.numbered.eq_of_id hp hq hid]
    exact self_mem_preorder _
  have hnear : ∃ kind : Position → Bool, p.nearest kind = some q.id := by
    by_contra hnone
    exact hnoted ((noted_supplies q.id).far p hid (fun hb => hnone ⟨_,hb⟩) fun hs => hnone ⟨_,hs⟩)
  obtain ⟨kind,hnear⟩ := hnear
  obtain ⟨r,hr,hrid⟩ := Option.map_eq_some_iff.mp hnear
  have haround := List.mem_of_find?_eq_some hr
  unfold around at haround
  split at haround
  · exact absurd (List.mem_singleton.mp haround ▸ hrid) hid
  · obtain ⟨hmem,c,hc,hbelow⟩ := below_of_mem_above rfl p hp r haround
    obtain rfl := h.numbered.eq_of_id hmem hq hrid
    exact mem_preorder.mpr (.inr ⟨c,hc,hbelow⟩)

end Position

/-- What all entries of a list contribute is contributed by a sublist, if no other entry contributes
anything and none is repeated. -/
lemma flatMap_of_sublist {α β : Type} {f : α → List β} {l l' : List α} (h : l'.Sublist l)
    (hl : l.Nodup) (hf : ∀ a ∈ l, f a ≠ [] → a ∈ l') : l.flatMap f = l'.flatMap f := by
  induction h with
  | slnil => rfl
  | cons a h ih =>
    obtain ⟨ha,hl⟩ := List.nodup_cons.mp hl
    have hnone : f a = [] := by
      by_contra hsome
      exact ha (h.subset (hf a (.head _) hsome))
    rw [List.flatMap_cons,hnone,List.nil_append,ih hl fun b hb => hf b (.tail _ hb)]
  | cons_cons a h ih =>
    obtain ⟨ha,hl⟩ := List.nodup_cons.mp hl
    rw [List.flatMap_cons,List.flatMap_cons,ih hl]
    intro b hb hsome
    rcases List.mem_cons.mp (hf b (.tail _ hb) hsome) with rfl | hmem
    · contradiction
    · exact hmem

/-- A pass over the whole tree notes of a scope what is declared in it. -/
theorem Parsed.flatMap_noted {bytes : List UInt8} {root : Tree} {p : Position}
    (h : Parsed bytes root) (hp : p ∈ root.top.preorder) (ho : p.opensScope) :
    root.top.preorder.flatMap (Position.noted p.id) = p.declarations := by
  rw [flatMap_of_sublist (Position.preorder_sublist hp) (List.Nodup.of_map _ h.numbered.nodup)
    fun q hq => Position.mem_preorder_of_noted h hq hp,Position.preorder_eq_cons_below,
    List.flatMap_cons,Position.noted_self h hp,Position.declarations,Position.below,
    List.flatMap_assoc,List.flatMap_assoc]
  congr 1
  refine List.flatMap_congr fun c hc => ?_
  refine Position.flatMap_noted h (Position.child_mem_preorder hp hc) (List.cons_ne_nil _ _) ?_
    (h.numbered.child_id_lt hp hc)
  intro hc'
  obtain ⟨_,_,hs⟩ := Tree.covers_of_isKind
    ((h.grammatical_at p hp).isVariableDeclaration_of_child hc hc')
  simp [Position.opensScope,hs] at ho

end ScriptLint
