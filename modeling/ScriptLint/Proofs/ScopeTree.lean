import Mathlib
import ScriptLint.Proofs.Arena
import ScriptLint.Proofs.Locality

/-! The scopes of a file form a tree over its syntax tree. One scope is opened by each node that opens
any, in source order, and lies in the scope around that node. Every node is in a scope, and no node
declares more than one of the names that are bound in all scopes together. -/
namespace ScriptLint
namespace ScopeGraph

/-- A tree of scopes over the nodes of a syntax tree. -/
structure Aligned (t : SyntaxTree) (g : ScopeGraph) : Prop where
  openers : g.scopes.toList.map Scope.node = (t.preorder.filter Position.opensScope).map Position.id
  distinct : (g.scopes.toList.map Scope.node).Nodup
  kind : ∀ s ∈ g.scopes, ∀ p ∈ t.preorder, p.id = s.node →
    s.kind = if p.node.isProgram then .global else if p.node.isFunction then .function
      else if p.node.isHandler then .handler else .block
  /-- The first scope is that of the program, and there is none around it. -/
  outermost : ∃ root s, t.root? = some root ∧ g.scopes[0]? = some s ∧ s.kind = .global ∧
    s.parent = none ∧ s.node = root.id
  /-- All other scopes lie in an earlier one, the one that the node is in which opens them. -/
  inner : ∀ i s, g.scopes[i]? = some s → i ≠ 0 →
    s.kind ≠ .global ∧ ∃ j < i, s.parent = some j ∧ g.scopeOf[s.node]? = some j
  /-- The program and each function are the function of their own scope, and any other scope is part
  of the function that the scope around it is part of. -/
  function : ∀ s ∈ g.scopes, if s.kind.isBoundary then s.function = s.node
    else ∃ j u, s.parent = some j ∧ g.scopes[j]? = some u ∧ s.function = u.function
  owner : ∀ s ∈ g.scopes, ∀ p ∈ t.preorder, p.id = s.node → p.owner = some s.function
  size : g.scopeOf.size = t.size
  root : ∀ root, t.root? = some root → g.scopeOf[root.id]? = some 0
  /-- A node is in the scope that its parent opens, or else in the scope that its parent is in. -/
  child : ∀ p ∈ t.preorder, ∀ c ∈ p.node.children, ∃ i s, g.scopeOf[c.id]? = some i ∧
    g.scopes[i]? = some s ∧ if p.opensScope then s.node = p.id else g.scopeOf[p.id]? = some i
  names : ∀ s ∈ g.scopes, (s.bindings.map Declaration.name).Nodup
  /-- Only variables, parameters and functions are declared. -/
  declares : ∀ s ∈ g.scopes, ∀ d ∈ s.bindings, ∃ p ∈ t.preorder, p.declares? = some d
  once : (g.scopes.toList.flatMap fun s => s.bindings.map Declaration.node).Nodup

end ScopeGraph

lemma distinctNames_sublist (ds : List Declaration) : (distinctNames ds).Sublist ds := by
  induction ds with
  | nil => exact .slnil
  | cons d ds ih => exact (List.filter_sublist.trans ih).cons_cons d

lemma nodup_distinctNames (ds : List Declaration) :
    ((distinctNames ds).map Declaration.name).Nodup := by
  induction ds with
  | nil => exact List.nodup_nil
  | cons d ds ih =>
    rw [distinctNames,List.map_cons,List.nodup_cons]
    refine ⟨?_,ih.sublist (List.filter_sublist.map _)⟩
    simp

namespace Position

lemma eq_top {p : Position} {root : Tree} (hp : p ∈ root.top.preorder) (he : p.ancestors = []) :
    p = root.top := by
  rcases eq_or_child p hp with rfl | ⟨q,_,c,_,rfl⟩
  · rfl
  · contradiction

end Position

lemma Tree.scopes_toList (root : Tree) :
    root.scopeGraph.scopes.toList = root.opening.map root.scopeOf := rfl

/-- What is bound in a scope is declared in it. -/
lemma Tree.mem_bindings {root : Tree} {p : Position} {d : Declaration}
    (hd : d ∈ (root.scopeOf p).bindings) : d ∈ p.declarations :=
  (distinctNames_sublist _).subset hd

namespace Parsed
open Position
variable {bytes : List UInt8} {root : Tree} {p q : Position} {s : Scope} {i : ScopeId}
  (h : Parsed bytes root)
include h

/-- Each scope is that of a position, and its number is the place of that position among all that
open scopes. -/
lemma exists_opener (hs : root.scopeGraph.scopes[i]? = some s) :
    ∃ p ∈ root.top.preorder, p.opensScope ∧ s = root.scopeOf p ∧ i = root.openers.idxOf p.id := by
  rw [Tree.scopeGraph,List.getElem?_toArray,List.getElem?_map,Option.map_eq_some_iff] at hs
  obtain ⟨p,hp,rfl⟩ := hs
  obtain ⟨hmem,hopen⟩ := List.mem_filter.mp (List.mem_of_getElem? hp)
  exact ⟨p,hmem,hopen,rfl,(h.idxOf_opening hp).symm⟩

lemma exists_opener_of_mem (hs : s ∈ root.scopeGraph.scopes) :
    ∃ p ∈ root.top.preorder, p.opensScope ∧ s = root.scopeOf p := by
  obtain ⟨i,hi⟩ := Array.mem_iff_getElem?.mp hs
  obtain ⟨p,hp,ho,hsp,-⟩ := h.exists_opener hi
  exact ⟨p,hp,ho,hsp⟩

/-- A scope lies in the scope that the node is in which opens it. -/
lemma parent_eq (hp : p ∈ root.top.preorder) (ho : p.opensScope) (hne : p.ancestors ≠ []) :
    ∃ r ∈ root.top.preorder, r.opensScope ∧ r.id = p.opener ∧
      (root.scopeOf p).parent = some (root.openers.idxOf r.id) ∧
      root.openers.idxOf r.id < root.openers.idxOf p.id ∧
      (p.isBoundary = false → (root.scopeOf p).function = (root.scopeOf r).function) := by
  rcases eq_or_child p hp with rfl | ⟨q,hq,c,hc,rfl⟩
  · contradiction
  obtain ⟨r,hr,_⟩ := h.chain_eq q hq
  have hmem : r ∈ (q.child c).above := List.mem_of_find?_eq_some hr
  have hrmem := (below_of_mem_above rfl _ hp r hmem).1
  have hro := List.find?_some hr
  refine ⟨r,hrmem,hro,?_,?_,h.idxOf_lt hp ho hmem hro,fun hb => ?_⟩
  · have hnear := h.nearest_opener hp
    rw [show (q.child c).nearest opensScope = ((q :: q.above).find? opensScope).map Position.id from
      rfl,hr] at hnear
    exact Option.some.inj hnear
  · rw [Tree.scopeOf,above_child,hr]
    rfl
  · -- Between the two scopes there is no function, so that both are part of the same one.
    have howner : (q.child c).owner = r.owner := by
      rw [h.owner_innermost q hq r hr,owner,List.find?_cons_of_neg (by simp [hb]),above_child]
    rw [h.owner_eq _ hp,h.owner_eq r hrmem] at howner
    exact Option.some.inj howner

/-- No node makes two of the declarations that are bound in all scopes. -/
theorem nodup_bindings :
    ((root.opening.map root.scopeOf).flatMap fun s => s.bindings.map Declaration.node).Nodup := by
  rw [List.flatMap_map,List.nodup_flatMap]
  have hmem : ∀ p ∈ root.opening, p ∈ root.top.preorder ∧ p.opensScope := fun p hp =>
    List.mem_filter.mp hp
  constructor
  · intro p hp
    obtain ⟨hpm,hpo⟩ := hmem p hp
    refine (List.Nodup.of_map _ (nodup_distinctNames _)).map_on fun d hd e he hnode => ?_
    exact (scope_unique h.numbered hpm hpm hpo hpo (Tree.mem_bindings hd) (Tree.mem_bindings he)
      hnode).2
  · refine (List.Nodup.of_map _ h.nodup_openers).imp_of_mem fun {p q} hp hq hne => ?_
    obtain ⟨hpm,hpo⟩ := hmem p hp
    obtain ⟨hqm,hqo⟩ := hmem q hq
    intro i hi hi'
    obtain ⟨d,hd,rfl⟩ := List.mem_map.mp hi
    obtain ⟨e,he,hnode⟩ := List.mem_map.mp hi'
    exact hne (scope_unique h.numbered hpm hqm hpo hqo (Tree.mem_bindings hd) (Tree.mem_bindings he)
      hnode.symm).1

/-- The scope that a node is in is opened by a position. -/
lemma exists_opener_at (hp : p ∈ root.top.preorder) :
    ∃ r ∈ root.top.preorder, r.opensScope ∧ r.id = p.opener := by
  obtain ⟨r,hr,hid⟩ := Option.map_eq_some_iff.mp (h.nearest_opener hp)
  have hmem : r ∈ p.scopes :=
    List.mem_filter.mpr ⟨List.mem_of_find?_eq_some hr,List.find?_some hr⟩
  exact ⟨r,(mem_scopes hp hmem).1,(mem_scopes hp hmem).2,hid⟩

theorem scopeGraph_aligned : root.scopeGraph.Aligned root.table where
  openers := by
    rw [Tree.scopes_toList,List.map_map,Tree.preorder_table]
    rfl
  distinct := by
    rw [Tree.scopes_toList,List.map_map]
    exact h.nodup_openers
  kind := by
    intro s hs p hp hid
    rw [Tree.preorder_table] at hp
    obtain ⟨q,hq,_,rfl⟩ := h.exists_opener_of_mem hs
    obtain rfl := h.numbered.eq_of_id hp hq hid
    rfl
  outermost := by
    have hscope := h.scopes_getElem (self_mem_preorder _) h.opensScope_top
    rw [show root.top.id = root.id from rfl,h.idxOf_root] at hscope
    exact ⟨root,_,rfl,hscope,if_pos h.program,rfl,rfl⟩
  inner := by
    intro i s hs hi
    obtain ⟨p,hp,ho,rfl,rfl⟩ := h.exists_opener hs
    have hne : p.ancestors ≠ [] := by
      intro he
      obtain rfl := eq_top hp he
      exact hi h.idxOf_root
    obtain ⟨r,_,_,hid,hparent,hlt,_⟩ := h.parent_eq hp ho hne
    refine ⟨?_,_,hlt,hparent,?_⟩
    · rw [Tree.scopeOf,scopeKind,h.isProgram_eq hp]
      grind
    · rw [hid]
      exact h.scopeOf_getElem hp
  function := by
    intro s hs
    obtain ⟨p,hp,ho,rfl⟩ := h.exists_opener_of_mem hs
    rw [show (root.scopeOf p).kind = p.scopeKind from rfl,isBoundary_scopeKind]
    split
    next hb =>
      have howner := h.owner_eq p hp
      rw [owner,List.find?_cons_of_pos hb] at howner
      exact (Option.some.inj howner).symm
    next hb =>
      have hne : p.ancestors ≠ [] := by
        intro he
        simp [isBoundary,h.isProgram_eq hp,he] at hb
      obtain ⟨r,hr,hro,_,hparent,_,hfunction⟩ := h.parent_eq hp ho hne
      exact ⟨_,_,hparent,h.scopes_getElem hr hro,hfunction (by simpa using hb)⟩
  owner := by
    intro s hs p hp hid
    rw [Tree.preorder_table] at hp
    obtain ⟨q,hq,_,rfl⟩ := h.exists_opener_of_mem hs
    obtain rfl := h.numbered.eq_of_id hp hq hid
    exact h.owner_eq p hp
  size := by
    rw [Tree.scopeGraph,Array.size_map]
    rfl
  root := by
    intro top htop
    cases htop
    have hscope := h.scopeOf_getElem (self_mem_preorder root.top)
    rwa [h.opener_top,h.idxOf_root] at hscope
  child := by
    intro p hp c hc
    rw [Tree.preorder_table] at hp
    have hchild := child_mem_preorder hp hc
    obtain ⟨r,hr,hro,hid⟩ := h.exists_opener_at hchild
    have hscope := h.scopeOf_getElem hchild
    rw [← hid] at hscope
    refine ⟨_,_,hscope,h.scopes_getElem hr hro,?_⟩
    rw [h.opener_child hp hc] at hid
    split
    next ho => rwa [if_pos ho] at hid
    next ho =>
      rw [if_neg ho] at hid
      rw [hid]
      exact h.scopeOf_getElem hp
  names := by
    intro s hs
    obtain ⟨p,_,_,rfl⟩ := h.exists_opener_of_mem hs
    exact nodup_distinctNames _
  declares := by
    intro s hs d hd
    obtain ⟨p,hp,ho,rfl⟩ := h.exists_opener_of_mem hs
    obtain ⟨q,hq,hdeclares,_⟩ := home_of_mem_declarations hp ho (Tree.mem_bindings hd)
    rw [Tree.preorder_table]
    exact ⟨q,hq,hdeclares⟩
  once := by
    rw [Tree.scopes_toList]
    exact h.nodup_bindings

end Parsed

/-- The scopes of an accepted source form a tree over its syntax tree. -/
theorem parseSource_scopes {content : ByteArray} {t : SyntaxTree} (h : parseSource content = .ok t) :
    (ScopeGraph.build t).Aligned t := by
  obtain ⟨root,rfl,hparsed⟩ := parseSource_parsed h
  rw [hparsed.build_eq]
  exact hparsed.scopeGraph_aligned

theorem parseSource_scopes_sample :
    parseSource Sample.source = .ok ⟨some Sample.program⟩ ∧
      (ScopeGraph.build ⟨some Sample.program⟩).scopes.toList.map Scope.node = [11,10,8] :=
  ⟨Sample.parseSource_eq,(parseSource_scopes Sample.parseSource_eq).openers.trans (by cbv)⟩

end ScriptLint
