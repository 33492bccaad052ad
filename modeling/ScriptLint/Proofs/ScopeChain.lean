import ScriptLint.Proofs.Declarations

/-! The scopes of a tree, one for each position that opens one. From the scope of a node, the
parents lead through the scopes of all positions that the node is inside of. -/
namespace ScriptLint

/-- The order of the places of two entries, the first of which comes first. -/
lemma idxOf_lt_of_sublist {l : List NodeId} {a b : NodeId} (h : [a,b].Sublist l) (hl : l.Nodup) :
    l.idxOf a < l.idxOf b := by
  induction l with
  | nil => cases h
  | cons c l ih =>
    obtain ⟨hc,hl⟩ := List.nodup_cons.mp hl
    cases h with
    | cons _ h =>
      have hmem (e : NodeId) (he : e ∈ [a,b]) : c ≠ e := fun hce => hc (hce ▸ h.subset he)
      rw [List.idxOf_cons_ne _ (hmem a (by simp)),List.idxOf_cons_ne _ (hmem b (by simp))]
      exact Nat.succ_lt_succ (ih h hl)
    | cons_cons _ h =>
      have hne : a ≠ b := fun hab => hc (hab ▸ h.subset (by simp))
      rw [List.idxOf_cons_self,List.idxOf_cons_ne _ hne]
      exact Nat.succ_pos _

/-- The first declaration of each name. -/
def distinctNames : List Declaration → List Declaration
  | [] => []
  | d :: ds => d :: (distinctNames ds).filter (·.name != d.name)

/-- Names that are declared again do not change what is found first. -/
theorem find_distinctNames (x : String) (ds : List Declaration) :
    (distinctNames ds).find? (·.name == x) = ds.find? (·.name == x) := by
  induction ds with
  | nil => rfl
  | cons d ds ih =>
    rw [distinctNames,List.find?_cons,List.find?_cons]
    split
    · rfl
    next hd =>
      rw [List.find?_filter,← ih]
      congr 1
      funext e
      grind

/-- The scopes around a node, the innermost first. -/
def ScopeGraph.scopesAt (g : ScopeGraph) (i : NodeId) : List Scope :=
  (g.scopeOf[i]?.map g.chain).getD []

namespace Position

/-- The kind of the scope that a position opens. -/
def scopeKind (p : Position) : ScopeKind :=
  if p.node.isProgram then .global else if p.node.isFunction then .function
  else if p.node.isHandler then .handler else .block

/-- The number of the node whose scope a position is in. -/
def opener (p : Position) : NodeId := (p.nearest opensScope).getD p.id

lemma isBoundary_scopeKind (p : Position) : p.scopeKind.isBoundary = p.isBoundary := by
  rw [scopeKind,isBoundary]
  cases p.node.isProgram <;> cases p.node.isFunction <;> cases p.node.isHandler <;> rfl

end Position

namespace Tree

/-- The positions that open a scope, in source order. -/
def opening (root : Tree) : List Position := root.top.preorder.filter Position.opensScope

def openers (root : Tree) : List NodeId := root.opening.map Position.id

/-- The scope that a position opens: it lies in the nearest scope around it and binds each name that
is declared in it to the first of its declarations. -/
def scopeOf (root : Tree) (p : Position) : Scope where
  kind := p.scopeKind
  parent := (p.above.find? Position.opensScope).map fun q => root.openers.idxOf q.id
  node := p.id
  function := p.owner.getD p.id
  bindings := distinctNames p.declarations

/-- A scope finds a name among all that is declared in it. -/
theorem lookup_scopeOf (root : Tree) (p : Position) (x : String) :
    (root.scopeOf p).lookup x = p.declarations.find? (·.name == x) :=
  find_distinctNames x p.declarations

/-- The scopes of a tree, each described by the position that opens it. -/
def scopeGraph (root : Tree) : ScopeGraph where
  scopes := (root.opening.map root.scopeOf).toArray
  scopeOf := root.table.positions.map fun p => root.openers.idxOf p.opener

end Tree

namespace Parsed
open Position
variable {bytes : List UInt8} {root : Tree} {p q : Position} (h : Parsed bytes root)
include h

theorem nodup_openers : root.openers.Nodup :=
  h.numbered.nodup.sublist (List.filter_sublist.map _)

/-- A scope has the number of the place that its position has among all that open scopes. -/
lemma idxOf_opening {i : ScopeId} (hi : root.opening[i]? = some p) : root.openers.idxOf p.id = i := by
  obtain ⟨hlt,hget⟩ := List.getElem?_eq_some_iff.mp hi
  have hlt' : i < root.openers.length := by rwa [Tree.openers,List.length_map]
  rw [← h.nodup_openers.idxOf_getElem i hlt',← hget]
  simp [Tree.openers]

theorem scopes_getElem (hp : p ∈ root.top.preorder) (ho : p.opensScope) :
    root.scopeGraph.scopes[root.openers.idxOf p.id]? = some (root.scopeOf p) := by
  have hmem : p ∈ root.opening := List.mem_filter.mpr ⟨hp,ho⟩
  obtain ⟨i,hi⟩ := List.mem_iff_getElem?.mp hmem
  rw [h.idxOf_opening hi,Tree.scopeGraph,List.getElem?_toArray,List.getElem?_map,hi]
  rfl

/-- A scope is opened after those around it. -/
theorem idxOf_lt (hp : p ∈ root.top.preorder) (ho : p.opensScope) (hq : q ∈ p.above)
    (hqo : q.opensScope) : root.openers.idxOf q.id < root.openers.idxOf p.id := by
  obtain ⟨hmem,c,hc,hbelow⟩ := below_of_mem_above rfl p hp q hq
  have hpair : [q,p].Sublist root.top.preorder := by
    refine .trans ?_ (preorder_sublist hmem)
    rw [preorder_eq_cons_below]
    exact (List.singleton_sublist.mpr (List.mem_flatMap.mpr ⟨c,hc,hbelow⟩)).cons_cons q
  have hopening : [q,p].Sublist root.opening := by
    have hfilter := hpair.filter opensScope
    rwa [List.filter_cons_of_pos hqo,List.filter_cons_of_pos ho,List.filter_nil] at hfilter
  exact idxOf_lt_of_sublist (hopening.map Position.id) h.nodup_openers

lemma opensScope_top : root.top.opensScope :=
  opensScope_of_isBoundary (by simp [isBoundary,Tree.top,h.program])

lemma idxOf_root : root.openers.idxOf root.id = 0 := by
  have hopening : root.opening = root.top :: root.top.below.filter opensScope := by
    rw [Tree.opening,preorder_eq_cons_below,List.filter_cons_of_pos h.opensScope_top]
  rw [Tree.openers,hopening,List.map_cons]
  exact List.idxOf_cons_self

lemma scopeOf_getElem (hp : p ∈ root.top.preorder) :
    root.scopeGraph.scopeOf[p.id]? = some (root.openers.idxOf p.opener) := by
  rw [Tree.scopeGraph,Array.getElem?_map,h.numbered.positions_getElem.mpr ⟨hp,rfl⟩]
  rfl

/-- The parent of a scope is the nearest scope around it. -/
lemma chain_opener (hp : p ∈ root.top.preorder) (ho : p.opensScope) :
    root.scopeGraph.chain (root.openers.idxOf p.id) =
      match p.above.find? opensScope with
      | some q => root.scopeOf p :: root.scopeGraph.chain (root.openers.idxOf q.id)
      | none => [root.scopeOf p] := by
  rw [ScopeGraph.chain,h.scopes_getElem hp ho]
  dsimp only [Tree.scopeOf]
  cases hq : p.above.find? opensScope with
  | none => rfl
  | some q =>
    exact if_pos (h.idxOf_lt hp ho (List.mem_of_find?_eq_some hq) (List.find?_some hq))

/-- The scopes that lead outwards from the nearest one that a position opens or is in. -/
theorem chain_eq : ∀ p ∈ root.top.preorder, ∃ q,
    (p :: p.above).find? opensScope = some q ∧
      root.scopeGraph.chain (root.openers.idxOf q.id) =
        ((p :: p.above).filter opensScope).map root.scopeOf := by
  apply preorder_induction
  · have ho := h.opensScope_top
    refine ⟨root.top,List.find?_cons_of_pos ho,?_⟩
    rw [h.chain_opener (self_mem_preorder _) ho,List.filter_cons_of_pos ho]
    rfl
  · rintro p hp ⟨q,hq,hchain⟩ c hc
    have hmem := child_mem_preorder hp hc
    rw [above_child]
    -- Where a position opens a scope, the chain is that scope and the chain of the one above.
    by_cases ho : (p.child c).opensScope
    · refine ⟨p.child c,List.find?_cons_of_pos ho,?_⟩
      rw [h.chain_opener hmem ho,above_child,hq,List.filter_cons_of_pos ho,List.map_cons,← hchain]
    · refine ⟨q,?_,?_⟩
      · rw [List.find?_cons_of_neg ho,hq]
      · rw [List.filter_cons_of_neg ho,hchain]

/-- The scope that a node is in is the nearest one around it. -/
lemma nearest_opener (hp : p ∈ root.top.preorder) : p.nearest opensScope = some p.opener := by
  have hsome : ∃ q, p.around.find? opensScope = some q := by
    rcases eq_or_child p hp with rfl | ⟨q,hq,c,hc,rfl⟩
    · exact ⟨_,List.find?_cons_of_pos h.opensScope_top⟩
    · obtain ⟨r,hr,_⟩ := h.chain_eq q hq
      exact ⟨r,hr⟩
  obtain ⟨q,hq⟩ := hsome
  rw [opener,nearest,hq]
  rfl

lemma opener_top : root.top.opener = root.id :=
  Option.some.inj ((h.nearest_opener (self_mem_preorder _)).symm.trans
    (congrArg (Option.map Position.id) (List.find?_cons_of_pos h.opensScope_top)))

lemma opener_child (hp : p ∈ root.top.preorder) {c : Tree} (hc : c ∈ p.node.children) :
    (p.child c).opener = if p.opensScope then p.id else p.opener := by
  have hne : p.ancestors ≠ [] ∨ p.opensScope := by
    rcases eq_or_child p hp with rfl | ⟨q,_,d,_,rfl⟩
    · exact .inr h.opensScope_top
    · exact .inl (List.cons_ne_nil _ _)
  have hchild := nearest_child hne c
  rw [h.nearest_opener (child_mem_preorder hp hc),h.nearest_opener hp] at hchild
  split
  next ho => rwa [if_pos ho,Option.some.injEq] at hchild
  next ho => rwa [if_neg ho,Option.some.injEq] at hchild

theorem scopesAt_eq (hp : p ∈ root.top.preorder) :
    root.scopeGraph.scopesAt p.id = p.scopes.map root.scopeOf := by
  rw [ScopeGraph.scopesAt,h.scopeOf_getElem hp]
  change root.scopeGraph.chain _ = _
  rcases eq_or_child p hp with rfl | ⟨q,hq,c,hc,rfl⟩
  · have ho := h.opensScope_top
    have hscopes : root.top.scopes = [root.top] := List.filter_cons_of_pos ho
    rw [hscopes,h.opener_top]
    exact h.chain_opener hp ho
  · obtain ⟨r,hr,hchain⟩ := h.chain_eq q hq
    have hchild : (q.child c).nearest opensScope = some r.id := congrArg (Option.map Position.id) hr
    rw [← Option.some.inj (hchild.symm.trans (h.nearest_opener hp))]
    exact hchain

theorem owner_eq : ∀ p ∈ root.top.preorder, p.owner = some (root.scopeOf p).function := by
  have hsome : ∀ p ∈ root.top.preorder, ∃ f, p.owner = some f := by
    apply preorder_induction
    · exact ⟨_,congrArg (Option.map Position.id)
        (List.find?_cons_of_pos (by simp [isBoundary,Tree.top,h.program]))⟩
    · intro p hp ih c hc
      rw [owner,List.find?_cons]
      split
      · exact ⟨_,rfl⟩
      · exact ih
  intro p hp
  obtain ⟨f,hf⟩ := hsome p hp
  simp [Tree.scopeOf,hf]

/-- A position is in the function that its innermost scope is part of. -/
theorem owner_innermost : ∀ p ∈ root.top.preorder, ∀ q,
    (p :: p.above).find? opensScope = some q →
      q.owner = ((p :: p.above).find? isBoundary).map Position.id := by
  apply preorder_induction
  · intro q hq
    rw [List.find?_cons_of_pos h.opensScope_top] at hq
    cases hq
    rfl
  · intro p hp ih c hc q hq
    by_cases ho : (p.child c).opensScope
    · rw [List.find?_cons_of_pos ho] at hq
      cases hq
      rfl
    · rw [List.find?_cons_of_neg ho] at hq
      rw [List.find?_cons_of_neg (fun hb => ho (opensScope_of_isBoundary hb))]
      exact ih q hq

theorem nearest_isBoundary (hp : p ∈ root.top.preorder) (hq : p.scopes.head? = some q) :
    p.nearest isBoundary = q.owner := by
  rw [scopes,List.head?_filter] at hq
  rcases eq_or_child p hp with rfl | ⟨r,hr,c,hc,rfl⟩
  · exact (h.owner_innermost _ hp q hq).symm
  · exact (h.owner_innermost r hr q hq).symm

end Parsed
end ScriptLint
