import ScriptLint.Proofs.Arena
import ScriptLint.Proofs.ScopeChain

/-! The pass that builds the scopes of a tree. While it works off its stack, the scopes are those of
the positions that it has come to, and each binds what was noted of it so far. When the stack is
empty, this is the graph in which each scope is described by the position that opens it. -/
namespace ScriptLint

/-- One more declaration counts only if its name is new. -/
theorem distinctNames_concat (ds : List Declaration) (d : Declaration) :
    distinctNames (ds ++ [d]) =
      if (ds.find? (·.name == d.name)).isSome then distinctNames ds else distinctNames ds ++ [d] := by
  induction ds with
  | nil => rfl
  | cons e ds ih =>
    rw [List.cons_append,distinctNames,distinctNames,ih,List.find?_cons]
    by_cases he : e.name = d.name
    · simp only [he,BEq.rfl,Option.isSome_some,if_true]
      split
      · rfl
      · simp [List.filter_append]
    · have hbeq : (e.name == d.name) = false := beq_eq_false_iff_ne.mpr he
      rw [hbeq]
      dsimp only
      split
      · rfl
      · simp [List.filter_append,Ne.symm he]

/-- Binding names one after the other binds each to the first declaration of it. -/
theorem Scope.foldl_declare (s : Scope) (ds es : List Declaration) :
    es.foldl declare { s with bindings := distinctNames ds } =
      { s with bindings := distinctNames (ds ++ es) } := by
  induction es generalizing ds with
  | nil => rw [List.append_nil]; rfl
  | cons e es ih =>
    have hstep : declare { s with bindings := distinctNames ds } e =
        { s with bindings := distinctNames (ds ++ [e]) } := by
      rw [declare,lookup,distinctNames_concat]
      dsimp only
      rw [find_distinctNames]
      split <;> rfl
    rw [List.foldl_cons,hstep,ih,List.append_assoc]
    rfl

namespace Position

lemma introduced_eq_nil {p : Position} (h : p.opensScope = false) : p.introduced = [] := by
  unfold opensScope at h
  unfold introduced
  split <;> simp_all

lemma introduced_function {p : Position} {kind : FunctionKind} {name : Option Tree}
    {params : List Tree} {body : Tree} (hs : p.node.shape = .function kind name params body) :
    p.introduced = (if kind = .declaration then []
      else (name.bind fun id => declaration? id p.id .functionName).toList) ++
        parameterDeclarations params := by
  rw [introduced,hs]
  dsimp only
  congr 1
  · split
    · rfl
    · cases name <;> simp [declared_eq]
  · rw [parameterDeclarations,List.filterMap_eq_flatMap_toList]
    refine List.flatMap_congr fun q _ => ?_
    unfold Tree.parameterTarget
    split <;> simp_all [declared_eq]

end Position

namespace ScopeGraph
variable {g : ScopeGraph} {i j : ScopeId} {p : Position} {scope : ScopeId}

theorem getElem_declare (ds : List Declaration) :
    (g.declare i ds).scopes[j]? =
      if i = j then g.scopes[j]?.map fun s => ds.foldl Scope.declare s else g.scopes[j]? :=
  Array.getElem?_modify ..

@[simp] theorem size_declare (ds : List Declaration) :
    (g.declare i ds).scopes.size = g.scopes.size := Array.size_modify ..

@[simp] theorem scopeOf_declare (ds : List Declaration) :
    (g.declare i ds).scopeOf = g.scopeOf := rfl

theorem declare_nil : g.declare i [] = g := by
  unfold declare
  congr 1
  refine Array.ext_getElem? fun j => ?_
  rw [Array.getElem?_modify]
  split <;> simp

theorem declare_append (ds es : List Declaration) :
    (g.declare i ds).declare i es = g.declare i (ds ++ es) := by
  unfold declare
  congr 1
  refine Array.ext_getElem? fun j => ?_
  rw [Array.getElem?_modify,Array.getElem?_modify,Array.getElem?_modify]
  split <;> simp [Function.comp_def]

/-- Opens the scope of a position in a scope, if it opens one. -/
def opened (g : ScopeGraph) (p : Position) (scope : ScopeId) : ScopeGraph :=
  if p.opensScope then
    (g.push p.scopeKind (some scope) p.id
      (if p.node.isFunction then p.id else g.functionOf scope)).2
  else g

/-- The scope that the positions directly below a position are in. -/
def innerScope (g : ScopeGraph) (p : Position) (scope : ScopeId) : ScopeId :=
  if p.opensScope then g.scopes.size else scope

/-- The scope in which a position declares names around it. -/
def outerScope (g : ScopeGraph) (p : Position) (scope : ScopeId) : ScopeId :=
  match p.node.shape with
  | .variableDeclaration .var _ => g.nearestFunctionScope scope
  | _ => scope

lemma open_inner {kind : ScopeKind} (ho : p.opensScope) (hf : p.node.isFunction = false)
    (hk : p.scopeKind = kind) :
    g.pushInner kind scope p.id = (g.innerScope p scope,g.opened p scope) := by
  simp [innerScope,opened,ho,hf,hk,pushInner,push]

lemma open_none (ho : p.opensScope = false) :
    (scope,g) = (g.innerScope p scope,g.opened p scope) := by
  simp [innerScope,opened,ho]

lemma open_block (hprogram : p.node.isProgram = false) (hf : p.node.isFunction = false)
    (hhandler : p.node.isHandler = false) :
    (if p.opensScope then g.pushInner .block scope p.id else (scope,g)) =
      (g.innerScope p scope,g.opened p scope) := by
  split
  next ho => exact open_inner ho hf (by simp [Position.scopeKind,hprogram,hf,hhandler])
  next ho => exact open_none (by simpa using ho)

@[simp] theorem scopeOf_opened : (g.opened p scope).scopeOf = g.scopeOf := by
  unfold opened
  split <;> rfl

/-- What is done at a position below the root: a scope is opened, if the position opens one, and names
are declared around the position and in that scope. -/
theorem enter_eq (h : p.node.isProgram = false) :
    g.enter p scope = (g.innerScope p scope,((g.opened p scope).declare (g.outerScope p scope)
      p.node.outward).declare (g.innerScope p scope) p.introduced) := by
  have hplain (houtward : p.node.outward = []) (hintroduced : p.introduced = []) :
      (g.innerScope p scope,((g.opened p scope).declare (g.outerScope p scope)
        p.node.outward).declare (g.innerScope p scope) p.introduced) =
        (g.innerScope p scope,g.opened p scope) := by
    rw [houtward,hintroduced,declare_nil,declare_nil]
  unfold enter
  cases hs : p.node.shape with
  | program => simp [Tree.isProgram,hs] at h
  | function kind name params body =>
    have hopen : p.opensScope = true := by simp [Position.opensScope,hs]
    have hfunction : p.node.isFunction = true := by simp [Tree.isFunction,hs]
    have hkind : p.scopeKind = .function := by simp [Position.scopeKind,hfunction,h]
    have houter : g.outerScope p scope = scope := by simp [outerScope,hs]
    have houtward : p.node.outward = if kind = .declaration then
        (name.bind fun id => declaration? id p.id .function).toList else [] := by
      cases kind <;> cases name <;> simp [Tree.outward,hs,declared_eq,Position.id]
    rw [Position.introduced_function hs,houtward,houter]
    simp only [innerScope,opened,hopen,hfunction,hkind,if_true,push]
    split
    · rw [List.nil_append]
    · rw [declare_nil,declare_append]
  | block =>
    rw [hplain (by simp [Tree.outward,hs]) (by simp [Position.introduced,hs]),
      ← open_block h (by simp [Tree.isFunction,hs]) (by simp [Tree.isHandler,hs])]
    rw [Position.opensScope,hs]
    cases p.parent? with
    | none => rfl
    | some t =>
      obtain ⟨i,span,shape⟩ := t
      cases shape <;> rfl
  | switchStatement | forIn | forOf =>
    rw [hplain (by simp [Tree.outward,hs]) (by simp [Position.introduced,hs]),
      ← open_block h (by simp [Tree.isFunction,hs]) (by simp [Tree.isHandler,hs])]
    simp [Position.opensScope,hs,Tree.isLexical_eq]
  | forLoop head =>
    rw [hplain (by simp [Tree.outward,hs]) (by simp [Position.introduced,hs]),
      ← open_block h (by simp [Tree.isFunction,hs]) (by simp [Tree.isHandler,hs])]
    cases head <;> simp [Position.opensScope,hs,Tree.isLexical_eq]
  | catchClause param body =>
    have hopen : p.opensScope = true := by simp [Position.opensScope,hs]
    have hfunction : p.node.isFunction = false := by simp [Tree.isFunction,hs]
    have hkind : p.scopeKind = .handler := by
      simp [Position.scopeKind,hfunction,h,Tree.isHandler,hs]
    have hintroduced : p.introduced =
        (param.bind fun id => declaration? id id.id .catchParam).toList := by
      cases param <;> simp [Position.introduced,hs,declared_eq]
    have houtward : p.node.outward = [] := by simp [Tree.outward,hs]
    rw [houtward,declare_nil,hintroduced,open_inner hopen hfunction hkind]
  | variableDeclaration kind declarators =>
    have hopen : p.opensScope = false := by simp [Position.opensScope,hs]
    have houtward : p.node.outward = variableDeclarations kind declarators := by
      simp [Tree.outward,hs]
    rw [houtward,Position.introduced_eq_nil hopen,declare_nil]
    cases kind <;> simp [outerScope,innerScope,opened,hs,hopen,VariableKind.isBlockScoped]
  | _ =>
    rw [hplain (by simp [Tree.outward,hs]) (by simp [Position.introduced,hs])]
    exact open_none (by simp [Position.opensScope,hs])

end ScopeGraph

/-- What is left to do: the positions on the stack and all below them follow those that the pass has
come to, which are closed upwards, and each waits with the number of its scope. -/
structure Pending (root : Tree) (done : List Position) (stack : List (Position × ScopeId)) :
    Prop where
  order : done ++ stack.flatMap (fun e => e.1.preorder) = root.top.preorder
  closed : ∀ q ∈ done, ∀ r ∈ q.above, r ∈ done
  proper : ∀ e ∈ stack, e.1.ancestors ≠ []
  above : ∀ e ∈ stack, ∀ r ∈ e.1.above, r ∈ done
  scope : ∀ e ∈ stack, e.2 = root.openers.idxOf e.1.opener

/-- What is done: the scopes are those of the positions that the pass has come to, with what was noted
of them, and the scopes of these positions are known. -/
structure Built (root : Tree) (done : List Position) (g : ScopeGraph) : Prop where
  count : g.scopes.size = (done.filter Position.opensScope).length
  scopes : ∀ q ∈ done, q.opensScope → g.scopes[root.openers.idxOf q.id]? =
    some { root.scopeOf q with bindings := distinctNames (done.flatMap (Position.noted q.id)) }
  size : g.scopeOf.size = root.table.size
  scopeOf : ∀ q ∈ done, g.scopeOf[q.id]? = some (root.openers.idxOf q.opener)

namespace Pending
open Position
variable {bytes : List UInt8} {root : Tree} {p q : Position} {scope : ScopeId}
  {done : List Position} {stack : List (Position × ScopeId)} (hpending : Pending root done stack)
include hpending

lemma mem_done (hq : q ∈ done) : q ∈ root.top.preorder := by
  rw [← hpending.order]
  exact List.mem_append_left _ hq

lemma mem_stack {e : Position × ScopeId} (he : e ∈ stack) : e.1 ∈ root.top.preorder := by
  rw [← hpending.order]
  exact List.mem_append_right _ (List.mem_flatMap.mpr ⟨e,he,self_mem_preorder _⟩)

lemma openers_eq : root.openers = (done.filter opensScope).map Position.id ++
    ((stack.flatMap fun e => e.1.preorder).filter opensScope).map Position.id := by
  rw [Tree.openers,Tree.opening,← hpending.order,List.filter_append,List.map_append]

/-- The scopes of positions that the pass has come to are numbered before all others. -/
lemma idxOf_lt (hq : q ∈ done) (ho : q.opensScope) :
    root.openers.idxOf q.id < (done.filter opensScope).length := by
  have hmem : q.id ∈ (done.filter opensScope).map Position.id :=
    List.mem_map_of_mem (List.mem_filter.mpr ⟨hq,ho⟩)
  rw [hpending.openers_eq,List.idxOf_append_of_mem hmem]
  simpa using List.idxOf_lt_length_of_mem hmem

end Pending

namespace Pending
open Position
variable {bytes : List UInt8} {root : Tree} {p q : Position} {scope : ScopeId}
  {done : List Position} {stack : List (Position × ScopeId)}
  (hpending : Pending root done ((p,scope) :: stack)) (h : Parsed bytes root)
include hpending h

lemma notMem_done : p ∉ done := by
  have hnodup := List.Nodup.of_map _ h.numbered.nodup
  rw [← hpending.order,List.nodup_append] at hnodup
  intro hp
  exact hnodup.2.2 p hp p (List.mem_flatMap.mpr ⟨_,.head _,self_mem_preorder _⟩) rfl

lemma id_ne (hq : q ∈ done) : p.id ≠ q.id := by
  intro hid
  rw [← h.numbered.eq_of_id (hpending.mem_stack (.head _)) (hpending.mem_done hq) hid] at hq
  exact hpending.notMem_done h hq

/-- The scope of the position that comes next gets the next number. -/
lemma idxOf_next (ho : p.opensScope) :
    root.openers.idxOf p.id = (done.filter opensScope).length := by
  have hnone : p.id ∉ (done.filter opensScope).map Position.id := by
    intro hmem
    obtain ⟨q,hq,hid⟩ := List.mem_map.mp hmem
    exact hpending.id_ne h (List.mem_filter.mp hq).1 hid.symm
  have hfirst : ((((p,scope) :: stack).flatMap fun e => e.1.preorder).filter opensScope).map
      Position.id = p.id :: ((p.below ++ stack.flatMap fun e => e.1.preorder).filter opensScope).map
        Position.id := by
    rw [List.flatMap_cons,preorder_eq_cons_below,List.cons_append,List.filter_cons_of_pos ho,
      List.map_cons]
  rw [hpending.openers_eq,List.idxOf_append_of_notMem hnone,hfirst,List.idxOf_cons_self,
    List.length_map,Nat.add_zero]

/-- Nothing was noted yet of the scope of the position that comes next. -/
lemma flatMap_noted_next : done.flatMap (noted p.id) = [] := by
  rw [List.flatMap_eq_nil_iff]
  intro q hq
  by_contra hnoted
  have hmem := mem_preorder_of_noted h (hpending.mem_done hq) (hpending.mem_stack (.head _)) hnoted
  have hnodup := List.Nodup.of_map _ h.numbered.nodup
  rw [← hpending.order,List.nodup_append] at hnodup
  exact hnodup.2.2 q hq q (List.mem_flatMap.mpr ⟨_,.head _,hmem⟩) rfl

omit h in
/-- The nearest position of some kind around the position that comes next. -/
lemma exists_nearest {kind : Position → Bool} {i : NodeId} (hi : p.nearest kind = some i) :
    ∃ r ∈ done, kind r ∧ r.id = i ∧ p.above.find? kind = some r := by
  obtain ⟨r,hr,hid⟩ := Option.map_eq_some_iff.mp hi
  have haround : p.around = p.above := by
    simp [around,hpending.proper _ (.head _)]
  rw [haround] at hr
  exact ⟨r,hpending.above _ (.head _) r (List.mem_of_find?_eq_some hr),List.find?_some hr,hid,hr⟩

/-- The position that comes next is in the scope of a position that the pass has come to. -/
lemma exists_opener : ∃ r ∈ done, r.opensScope ∧ p.opener = r.id ∧
    p.above.find? opensScope = some r ∧ scope = root.openers.idxOf r.id ∧
    p.nearest isBoundary = r.owner := by
  have hp := hpending.mem_stack (.head _)
  have haround : p.around = p.above := by simp [around,hpending.proper _ (.head _)]
  obtain ⟨r,hr,ho,hid,hfind⟩ := hpending.exists_nearest (h.nearest_opener hp)
  refine ⟨r,hr,ho,hid.symm,hfind,?_,h.nearest_isBoundary hp ?_⟩
  · rw [hid]
    exact hpending.scope _ (.head _)
  · rw [Position.scopes,List.head?_filter,haround,hfind]

/-- After a step the positions directly below wait in the scope that the position opens, or else in
the scope that it is in. -/
theorem step : Pending root (done ++ [p]) ((p.children.map fun c =>
    (c,root.openers.idxOf (if p.opensScope then p.id else p.opener))) ++ stack) where
  order := by
    rw [← hpending.order]
    simp [preorder_eq_children p,List.flatMap_map]
  closed q hq r hr := by
    rw [List.mem_append,List.mem_singleton] at hq
    rcases hq with hq | rfl
    · exact List.mem_append_left _ (hpending.closed q hq r hr)
    · exact List.mem_append_left _ (hpending.above _ (.head _) r hr)
  proper e he := by
    rcases List.mem_append.mp he with he | he
    · obtain ⟨c,hc,rfl⟩ := List.mem_map.mp he
      obtain ⟨n,-,rfl⟩ := List.mem_map.mp hc
      exact List.cons_ne_nil _ _
    · exact hpending.proper e (.tail _ he)
  above e he r hr := by
    rcases List.mem_append.mp he with he | he
    · obtain ⟨c,hc,rfl⟩ := List.mem_map.mp he
      obtain ⟨n,-,rfl⟩ := List.mem_map.mp hc
      rw [above_child,List.mem_cons] at hr
      rcases hr with rfl | hr
      · simp
      · exact List.mem_append_left _ (hpending.above _ (.head _) r hr)
    · exact List.mem_append_left _ (hpending.above e (.tail _ he) r hr)
  scope e he := by
    rcases List.mem_append.mp he with he | he
    · obtain ⟨c,hc,rfl⟩ := List.mem_map.mp he
      obtain ⟨n,hn,rfl⟩ := List.mem_map.mp hc
      dsimp only
      rw [h.opener_child (hpending.mem_stack (.head _)) hn]
    · exact hpending.scope e (.tail _ he)

end Pending

namespace Built
open Position
variable {bytes : List UInt8} {root : Tree} {p q : Position} {scope : ScopeId} {g : ScopeGraph}
  {done : List Position} {stack : List (Position × ScopeId)} (h : Parsed bytes root)
  (hbuilt : Built root done g)
include h hbuilt

/-- From the scope of a position outwards, the first scope that `var` variables belong to is that of
the function that the position is or is in. -/
theorem nearestFunctionScope_eq (hdone : ∀ q ∈ done, q ∈ root.top.preorder)
    (hclosed : ∀ q ∈ done, ∀ r ∈ q.above, r ∈ done) {f : NodeId} (hq : q ∈ done)
    (ho : q.opensScope) (howner : q.owner = some f) :
    g.nearestFunctionScope (root.openers.idxOf q.id) = root.openers.idxOf f := by
  induction hn : root.openers.idxOf q.id using Nat.strongRecOn generalizing q with
  | _ n ih =>
    rw [← hn,ScopeGraph.nearestFunctionScope,hbuilt.scopes q hq ho]
    dsimp only [Tree.scopeOf]
    rw [isBoundary_scopeKind]
    cases hb : q.isBoundary with
    | true =>
      rw [owner,List.find?_cons_of_pos hb] at howner
      rw [if_pos rfl,← Option.some.inj howner]
    | false =>
      rw [if_neg Bool.false_ne_true]
      rcases eq_or_child q (hdone q hq) with rfl | ⟨o,hmem,c,hc,rfl⟩
      · simp [isBoundary,Tree.top,h.program] at hb
      · obtain ⟨r,hr,-⟩ := h.chain_eq o hmem
        have hparent := List.mem_of_find?_eq_some hr
        have hopen := List.find?_some hr
        rw [above_child,hr]
        dsimp only [Option.map_some]
        have hlt := h.idxOf_lt (hdone _ hq) ho hparent hopen
        rw [if_pos hlt]
        have houter : (o.child c).owner = ((o :: o.above).find? isBoundary).map Position.id := by
          rw [owner,List.find?_cons_of_neg (by simp [hb]),above_child]
        refine ih _ (hn ▸ hlt) (hclosed _ hq r hparent) hopen ?_ rfl
        rw [h.owner_innermost o hmem r hr,← houter,howner]

variable (hpending : Pending root done ((p,scope) :: stack))
include hpending

/-- Names that a position declares around it go to the scope that they belong to. -/
lemma outerScope_eq : ∃ r ∈ done, r.opensScope ∧ p.target = some r.id ∧
    g.outerScope p scope = root.openers.idxOf r.id := by
  have hp := hpending.mem_stack (.head _)
  obtain ⟨r,hr,ho,hopener,-,hscope,hboundary⟩ := hpending.exists_opener h
  have hnear : p.target = p.nearest opensScope ∧ g.outerScope p scope = scope →
      ∃ r ∈ done, r.opensScope ∧ p.target = some r.id ∧
        g.outerScope p scope = root.openers.idxOf r.id := by
    rintro ⟨htarget,houter⟩
    exact ⟨r,hr,ho,by rw [htarget,h.nearest_opener hp,hopener],houter.trans hscope⟩
  cases hs : p.node.shape with
  | variableDeclaration kind =>
    cases kind with
    | var =>
      have howner := h.owner_eq r (hpending.mem_done hr)
      obtain ⟨f,hf,hb,hid,-⟩ := hpending.exists_nearest (hboundary.trans howner)
      refine ⟨f,hf,opensScope_of_isBoundary hb,?_,?_⟩
      · simp [target,hs,hboundary,howner,hid]
      · rw [ScopeGraph.outerScope,hs]
        dsimp only
        rw [hscope,hbuilt.nearestFunctionScope_eq h (fun q => hpending.mem_done) hpending.closed hr
          ho howner,hid]
    | let_ | const => exact hnear ⟨by simp [target,hs],by simp [ScopeGraph.outerScope,hs]⟩
  | _ => exact hnear ⟨by simp [target,hs],by simp [ScopeGraph.outerScope,hs]⟩

/-- The scope of the position that comes next, as it is opened. -/
lemma scopeOf_next (ho : p.opensScope) :
    (g.opened p scope).scopes[root.openers.idxOf p.id]? =
      some { root.scopeOf p with bindings := distinctNames [] } := by
  have hp := hpending.mem_stack (.head _)
  have hne := hpending.proper _ (.head _)
  obtain ⟨r,hr,hro,-,hparent,hscope,hboundary⟩ := hpending.exists_opener h
  have howner := h.owner_eq r (hpending.mem_done hr)
  have hfunction : g.functionOf scope = (root.scopeOf r).function := by
    rw [ScopeGraph.functionOf,hscope,hbuilt.scopes r hr hro]
    rfl
  have hself : (if p.node.isFunction then p.id else g.functionOf scope) = p.owner.getD p.id := by
    rw [hfunction,owner,List.find?_cons,h.isBoundary_eq hp hne]
    cases p.node.isFunction with
    | true => rfl
    | false =>
      have haround : p.nearest isBoundary = (p.above.find? isBoundary).map Position.id := by
        simp [nearest,around,hne]
      rw [← haround,hboundary,howner]
      rfl
  rw [hpending.idxOf_next h ho,← hbuilt.count,ScopeGraph.opened,if_pos ho,ScopeGraph.push,
    Array.getElem?_push,if_pos rfl,hself,hscope,Tree.scopeOf,hparent]
  rfl

omit h hpending in
lemma size_opened : (g.opened p scope).scopes.size =
    ((done ++ [p]).filter opensScope).length := by
  rw [ScopeGraph.opened,List.filter_append,List.length_append,← hbuilt.count]
  split
  next ho => simp [ScopeGraph.push,ho]
  next ho => simp [ho]

omit h in
/-- The scopes that are there already stay as they are when a scope is opened. -/
lemma getElem_opened (hq : q ∈ done) (ho : q.opensScope) :
    (g.opened p scope).scopes[root.openers.idxOf q.id]? =
      g.scopes[root.openers.idxOf q.id]? := by
  have hlt := hpending.idxOf_lt hq ho
  rw [← hbuilt.count] at hlt
  rw [ScopeGraph.opened]
  split
  · rw [ScopeGraph.push,Array.getElem?_push,if_neg (Nat.ne_of_lt hlt)]
  · rfl

lemma innerScope_eq : g.innerScope p scope =
    root.openers.idxOf (if p.opensScope then p.id else p.opener) := by
  rw [ScopeGraph.innerScope]
  split
  next ho => rw [hpending.idxOf_next h ho,hbuilt.count]
  next => exact hpending.scope _ (.head _)

/-- What a step adds to the scope of a position that the pass has come to. -/
lemma scopes_enter (hq : q ∈ done) (ho : q.opensScope) :
    (g.enter p scope).2.scopes[root.openers.idxOf q.id]? = some { root.scopeOf q with
      bindings := distinctNames ((done ++ [p]).flatMap (noted q.id)) } := by
  have hp := hpending.mem_stack (.head _)
  have hprogram : p.node.isProgram = false := by
    rw [h.isProgram_eq hp]
    simpa using hpending.proper _ (.head _)
  obtain ⟨r,hr,hro,htarget,houter⟩ := hbuilt.outerScope_eq h hpending
  have hindex : root.openers.idxOf r.id = root.openers.idxOf q.id ↔ r.id = q.id :=
    List.idxOf_inj (List.mem_map_of_mem (List.mem_filter.mpr ⟨hpending.mem_done hr,hro⟩))
  have hnoted : p.noted q.id = if r.id = q.id then p.node.outward else [] := by
    simp [noted,htarget,hpending.id_ne h hq]
  -- A position that opens a scope declares nothing in the scopes that are there already.
  have hinner (s : Option Scope) : (if g.innerScope p scope = root.openers.idxOf q.id then
      s.map fun s => p.introduced.foldl Scope.declare s else s) = s := by
    cases hopen : p.opensScope with
    | true =>
      have hlt := hpending.idxOf_lt hq ho
      rw [← hbuilt.count] at hlt
      rw [ScopeGraph.innerScope,hopen,if_pos rfl,if_neg (Nat.ne_of_gt hlt)]
    | false =>
      rw [introduced_eq_nil hopen]
      simp
  rw [ScopeGraph.enter_eq hprogram,ScopeGraph.getElem_declare,hinner,ScopeGraph.getElem_declare,
    hbuilt.getElem_opened hpending hq ho,hbuilt.scopes q hq ho,List.flatMap_append,
    List.flatMap_singleton,hnoted,houter]
  by_cases hid : r.id = q.id
  · rw [if_pos (hindex.mpr hid),if_pos hid,Option.map_some,Scope.foldl_declare]
  · rw [if_neg (fun heq => hid (hindex.mp heq)),if_neg hid,List.append_nil]

/-- The scope of the position that comes next holds what the position declares in it. -/
lemma scopes_enter_next (ho : p.opensScope) :
    (g.enter p scope).2.scopes[root.openers.idxOf p.id]? = some { root.scopeOf p with
      bindings := distinctNames ((done ++ [p]).flatMap (noted p.id)) } := by
  have hp := hpending.mem_stack (.head _)
  have hprogram : p.node.isProgram = false := by
    rw [h.isProgram_eq hp]
    simpa using hpending.proper _ (.head _)
  obtain ⟨r,hr,hro,-,houter⟩ := hbuilt.outerScope_eq h hpending
  have hindex : root.openers.idxOf r.id ≠ root.openers.idxOf p.id := by
    rw [hpending.idxOf_next h ho]
    exact Nat.ne_of_lt (hpending.idxOf_lt hr hro)
  have hinner : g.innerScope p scope = root.openers.idxOf p.id := by
    rw [hbuilt.innerScope_eq h hpending,if_pos ho]
  rw [ScopeGraph.enter_eq hprogram,ScopeGraph.getElem_declare,if_pos hinner,
    ScopeGraph.getElem_declare,houter,if_neg hindex,hbuilt.scopeOf_next h hpending ho,
    Option.map_some,Scope.foldl_declare,List.flatMap_append,hpending.flatMap_noted_next h,
    List.flatMap_singleton,noted_self h hp]

/-- Noting the scope of the position that comes next changes nothing for the others. -/
lemma noteScope : Built root done { g with scopeOf := g.scopeOf.setIfInBounds p.id scope } where
  count := hbuilt.count
  scopes := hbuilt.scopes
  size := by simp [hbuilt.size]
  scopeOf q hq := by
    rw [Array.getElem?_setIfInBounds_ne (hpending.id_ne h hq)]
    exact hbuilt.scopeOf q hq

/-- What was built for the positions that the pass has come to is built for one more after a step, and
the positions directly below go on in the right scope. -/
theorem step : Built root (done ++ [p]) (g.visit p scope).2 ∧
    (g.visit p scope).1 = root.openers.idxOf (if p.opensScope then p.id else p.opener) := by
  have hp := hpending.mem_stack (.head _)
  have hprogram : p.node.isProgram = false := by
    rw [h.isProgram_eq hp]
    simpa using hpending.proper _ (.head _)
  have hnoted := hbuilt.noteScope h hpending
  have hscopeOf : (g.visit p scope).2.scopeOf = g.scopeOf.setIfInBounds p.id scope := by
    rw [ScopeGraph.visit,ScopeGraph.enter_eq hprogram]
    simp
  refine ⟨⟨?_,?_,?_,?_⟩,?_⟩
  · rw [ScopeGraph.visit,ScopeGraph.enter_eq hprogram]
    simp only [ScopeGraph.size_declare]
    exact hnoted.size_opened
  · intro q hq ho
    rcases List.mem_append.mp hq with hq | hq
    · exact hnoted.scopes_enter h hpending hq ho
    · obtain rfl := List.mem_singleton.mp hq
      exact hnoted.scopes_enter_next h hpending ho
  · rw [hscopeOf]
    exact hnoted.size
  · intro q hq
    rw [hscopeOf]
    rcases List.mem_append.mp hq with hq | hq
    · exact hnoted.scopeOf q hq
    · obtain rfl := List.mem_singleton.mp hq
      have hlt : q.id < g.scopeOf.size := by
        rw [hbuilt.size,h.numbered.size_eq]
        exact Nat.lt_succ_of_le (h.numbered.id_le (self_mem_preorder _) q hp)
      rw [Array.getElem?_setIfInBounds_self_of_lt hlt]
      exact congrArg some (hpending.scope _ (.head _))
  · rw [ScopeGraph.visit,ScopeGraph.enter_eq hprogram]
    exact hnoted.innerScope_eq h hpending

omit hpending in
/-- When the stack is worked off, the pass has come to all positions. -/
theorem run (hpending : Pending root done stack) : Built root root.top.preorder (g.run stack) := by
  fun_induction ScopeGraph.run g stack generalizing done with
  | case1 g =>
    rw [← hpending.order]
    simpa using hbuilt
  | case2 g p scope stack inner g' hvisit ih =>
    obtain ⟨hstep,hinner⟩ := hbuilt.step h hpending
    rw [hvisit] at hstep hinner
    dsimp only at hstep hinner
    rw [hinner] at ih ⊢
    exact ih hstep (hpending.step h)

end Built

namespace Parsed
open Position
variable {bytes : List UInt8} {root : Tree} {g : ScopeGraph} (h : Parsed bytes root)
include h

/-- The graph in which all positions were come to is the one that describes each scope by its
position. -/
theorem eq_scopeGraph (hbuilt : Built root root.top.preorder g) : g = root.scopeGraph := by
  have hdescribed (i : ScopeId) :
      root.scopeGraph.scopes[i]? = root.opening[i]?.map root.scopeOf := by
    rw [Tree.scopeGraph,List.getElem?_toArray,List.getElem?_map]
  have hscopes : g.scopes = root.scopeGraph.scopes := by
    refine Array.ext_getElem? fun i => ?_
    rw [hdescribed]
    cases hi : root.opening[i]? with
    | none =>
      rw [List.getElem?_eq_none_iff] at hi
      rw [Option.map_none,Array.getElem?_eq_none_iff,hbuilt.count]
      exact hi
    | some q =>
      obtain ⟨hq,ho⟩ := List.mem_filter.mp (List.mem_of_getElem? hi)
      rw [← h.idxOf_opening hi,hbuilt.scopes q hq ho,h.flatMap_noted hq ho]
      rfl
  have hscopeOf : g.scopeOf = root.scopeGraph.scopeOf := by
    refine Array.ext_getElem? fun i => ?_
    rw [Tree.scopeGraph,Array.getElem?_map]
    cases hi : root.table.positions[i]? with
    | none =>
      rw [Array.getElem?_eq_none_iff] at hi
      rw [Option.map_none,Array.getElem?_eq_none_iff,hbuilt.size]
      exact hi
    | some q =>
      obtain ⟨hq,rfl⟩ := h.numbered.positions_getElem.mp hi
      exact hbuilt.scopeOf q hq
  cases g
  cases hscopes
  cases hscopeOf
  rfl

/-- The scope of the program. -/
lemma scopeOf_top : { root.scopeOf root.top with
      bindings := distinctNames ([root.top].flatMap (noted root.id)) } =
    ⟨.global,none,root.id,root.id,[]⟩ := by
  have hboundary : root.top.isBoundary := by simp [isBoundary,Tree.top,h.program]
  have howner : root.top.owner = some root.id := by
    rw [owner,List.find?_cons_of_pos hboundary]
    rfl
  have hkind : root.top.scopeKind = .global := if_pos h.program
  have hnoted : root.top.noted root.id = [] := by
    obtain ⟨body,hs⟩ := Tree.covers_of_isKind h.program
    have hs' : root.top.node.shape = .program body := hs
    refine (noted_self h (self_mem_preorder _)).trans ?_
    rw [introduced,hs']
  rw [List.flatMap_singleton,hnoted,Tree.scopeOf,howner,hkind]
  rfl

/-- The global scope is opened before the pass, which notes at the root that the root is in it. -/
theorem built_top : ∃ g, ScopeGraph.build root.table =
      g.run (root.top.children.map fun c => (c,0)) ∧ Built root [root.top] g := by
  let scopes : Array Scope := #[⟨.global,none,root.id,root.id,[]⟩]
  let scopeOf : Array ScopeId := Array.replicate root.table.size 0
  have hvisit : ScopeGraph.visit ⟨scopes,scopeOf⟩ root.top 0 =
      (0,⟨scopes,scopeOf.setIfInBounds root.id 0⟩) := by
    obtain ⟨body,hs⟩ := Tree.covers_of_isKind h.program
    have hs' : root.top.node.shape = .program body := hs
    unfold ScopeGraph.visit ScopeGraph.enter
    rw [hs']
    rfl
  have htop : root.openers.idxOf root.top.id = 0 := h.idxOf_root
  refine ⟨⟨scopes,scopeOf.setIfInBounds root.id 0⟩,?_,?_,?_,?_,?_⟩
  · change ScopeGraph.run ⟨scopes,scopeOf⟩ [(root.top,0)] = _
    rw [ScopeGraph.run,hvisit]
    simp
  · rw [List.filter_cons_of_pos h.opensScope_top]
    rfl
  · intro q hq _
    obtain rfl := List.mem_singleton.mp hq
    rw [htop]
    exact congrArg some h.scopeOf_top.symm
  · simp [scopeOf]
  · intro q hq
    obtain rfl := List.mem_singleton.mp hq
    have hlt : root.id < scopeOf.size := by simp [scopeOf,h.numbered.size_eq]
    rw [h.opener_top,h.idxOf_root]
    exact Array.getElem?_setIfInBounds_self_of_lt hlt

/-- Below the root, the pass begins in the global scope. -/
theorem pending_top : Pending root [root.top] (root.top.children.map fun c => (c,0)) where
  order := by
    simp [preorder_eq_children root.top,List.flatMap_map]
  closed q hq r hr := by
    rw [List.mem_singleton.mp hq] at hr
    cases hr
  proper e he := by
    obtain ⟨c,hc,rfl⟩ := List.mem_map.mp he
    obtain ⟨n,-,rfl⟩ := List.mem_map.mp hc
    exact List.cons_ne_nil _ _
  above e he r hr := by
    obtain ⟨c,hc,rfl⟩ := List.mem_map.mp he
    obtain ⟨n,-,rfl⟩ := List.mem_map.mp hc
    exact hr
  scope e he := by
    obtain ⟨c,hc,rfl⟩ := List.mem_map.mp he
    obtain ⟨n,hn,rfl⟩ := List.mem_map.mp hc
    rw [h.opener_child (self_mem_preorder _) hn,if_pos h.opensScope_top]
    exact h.idxOf_root.symm

/-- The pass builds the graph that describes each scope by the position that opens it. -/
theorem build_eq : ScopeGraph.build root.table = root.scopeGraph := by
  obtain ⟨g,hbuild,hbuilt⟩ := h.built_top
  rw [hbuild]
  exact h.eq_scopeGraph (hbuilt.run h h.pending_top)

end Parsed
end ScriptLint
