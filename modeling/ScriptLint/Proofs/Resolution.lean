import ScriptLint.Proofs.Building

/-! What names mean. The scopes of a tree give a name the meaning that it has by the positions
around it alone: it stands for the first declaration of the innermost scope that declares it. -/
namespace ScriptLint
namespace ScopeGraph
variable {g : ScopeGraph} {x : String} {i : NodeId} {s : Scope} {d : Declaration}

/-- From a node outwards, `s` is the first scope that binds `x`, and it binds it to `d`. -/
def Binds (g : ScopeGraph) (x : String) (i : NodeId) (s : Scope) (d : Declaration) : Prop :=
  ∃ inner outer, g.scopesAt i = inner ++ s :: outer ∧ (∀ u ∈ inner, u.lookup x = none) ∧
    s.lookup x = some d

theorem nearest_eq (x : String) (ss : List Scope) :
    nearest? x ss = ss.findSome? fun s => (s.lookup x).map fun d => (s,d) := by
  induction ss with
  | nil => rfl
  | cons s ss ih =>
    rw [nearest?,List.findSome?_cons,ih]
    cases s.lookup x <;> rfl

theorem nearest_eq_none {ss : List Scope} :
    nearest? x ss = none ↔ ∀ s ∈ ss, s.lookup x = none := by
  rw [nearest_eq,List.findSome?_eq_none_iff]
  simp only [Option.map_eq_none_iff]

theorem nearest_scopesAt :
    nearest? x (g.scopesAt i) = some (s,d) ↔ g.Binds x i s d := by
  rw [nearest_eq,List.findSome?_eq_some_iff,Binds]
  simp only [Option.map_eq_some_iff,Option.map_eq_none_iff,Prod.mk.injEq]
  constructor
  · rintro ⟨inner,s,outer,hs,⟨d,hd,rfl,rfl⟩,hinner⟩
    exact ⟨inner,outer,hs,hinner,hd⟩
  · rintro ⟨inner,outer,hs,hinner,hd⟩
    exact ⟨inner,s,outer,hs,⟨d,hd,rfl,rfl⟩,hinner⟩

theorem resolve_eq_unresolved :
    g.resolve x i = .unresolved ↔ ∀ s ∈ g.scopesAt i, s.lookup x = none := by
  rw [← nearest_eq_none,resolve,← scopesAt]
  cases g.scopesAt i with
  | nil => simp [nearest?]
  | cons here outer =>
    dsimp only
    cases nearest? x (here :: outer) with
    | none => simp
    | some found =>
      obtain ⟨s,d⟩ := found
      dsimp only
      split <;> simp

/-- A name that is bound stands for a variable of the function around it or of one further out. -/
theorem resolve_of_binds (h : g.Binds x i s d) :
    ∃ here, (g.scopesAt i).head? = some here ∧ g.resolve x i =
      if s.function = here.function then .local d.node d.kind here.function
      else .outer s.function := by
  rw [← nearest_scopesAt] at h
  rw [resolve,← scopesAt]
  cases hs : g.scopesAt i with
  | nil =>
    rw [hs] at h
    contradiction
  | cons here outer =>
    rw [hs] at h
    refine ⟨here,rfl,?_⟩
    dsimp only
    rw [h]

end ScopeGraph

/-- `scope` is the innermost scope around a position that declares `x`, and `d` is the first
declaration of `x` in it. -/
structure Position.Finds (p : Position) (x : String) (scope : Position) (d : Declaration) :
    Prop where
  innermost : ∃ inner outer, p.scopes = inner ++ scope :: outer ∧
    ∀ q ∈ inner, ∀ e ∈ q.declarations, e.name ≠ x
  first : ∃ before after, scope.declarations = before ++ d :: after ∧ ∀ e ∈ before, e.name ≠ x
  name : d.name = x

namespace Position.Finds
variable {p scope : Position} {x : String} {d : Declaration}

theorem mem_scopes (h : p.Finds x scope d) : scope ∈ p.scopes := by
  obtain ⟨inner,outer,hsplit,_⟩ := h.innermost
  simp [hsplit]

theorem mem_declarations (h : p.Finds x scope d) : d ∈ scope.declarations := by
  obtain ⟨before,after,hfirst,_⟩ := h.first
  simp [hfirst]

end Position.Finds

namespace Tree
variable {root : Tree} {q : Position} {x : String} {d : Declaration}

theorem lookup_eq_none :
    (root.scopeOf q).lookup x = none ↔ ∀ e ∈ q.declarations, e.name ≠ x := by
  rw [lookup_scopeOf,List.find?_eq_none]
  simp only [beq_iff_eq,ne_eq]

theorem lookup_eq_some : (root.scopeOf q).lookup x = some d ↔ d.name = x ∧
    ∃ before after, q.declarations = before ++ d :: after ∧ ∀ e ∈ before, e.name ≠ x := by
  rw [lookup_scopeOf,List.find?_eq_some_iff_append]
  simp

end Tree

namespace Parsed
open Position
variable {bytes : List UInt8} {root : Tree} {p q : Position} {x : String} {d : Declaration}
  (h : Parsed bytes root)
include h

/-- What the scopes of a tree bind is what is found at the positions. -/
theorem binds_iff (hp : p ∈ root.top.preorder) {s : Scope} :
    root.scopeGraph.Binds x p.id s d ↔ ∃ scope, s = root.scopeOf scope ∧ p.Finds x scope d := by
  rw [ScopeGraph.Binds,h.scopesAt_eq hp]
  constructor
  · rintro ⟨inner,outer,hs,hinner,hd⟩
    obtain ⟨before,rest,hsplit,rfl,hrest⟩ := List.map_eq_append_iff.mp hs
    obtain ⟨scope,after,rfl,rfl,rfl⟩ := List.map_eq_cons_iff.mp hrest
    obtain ⟨hname,hfirst⟩ := Tree.lookup_eq_some.mp hd
    refine ⟨scope,rfl,⟨before,after,hsplit,?_⟩,hfirst,hname⟩
    intro q hq
    exact Tree.lookup_eq_none.mp (hinner _ (List.mem_map_of_mem hq))
  · rintro ⟨scope,rfl,⟨inner,outer,hsplit,hinner⟩,hfirst,hname⟩
    refine ⟨inner.map root.scopeOf,outer.map root.scopeOf,by simp [hsplit],?_,
      Tree.lookup_eq_some.mpr ⟨hname,hfirst⟩⟩
    intro u hu
    obtain ⟨q,hq,rfl⟩ := List.mem_map.mp hu
    exact Tree.lookup_eq_none.mpr (hinner q hq)

/-- The function of a position is that of the innermost scope around it. -/
theorem nearest_eq_function (hp : p ∈ root.top.preorder) {here : Scope}
    (hhere : (root.scopeGraph.scopesAt p.id).head? = some here) :
    p.nearest isBoundary = some here.function := by
  rw [h.scopesAt_eq hp,List.head?_map,Option.map_eq_some_iff] at hhere
  obtain ⟨q,hq,rfl⟩ := hhere
  rw [h.nearest_isBoundary hp hq,
    h.owner_eq q (mem_scopes hp (List.mem_of_head? hq)).1]

theorem resolve_of_finds (hp : p ∈ root.top.preorder) (hf : p.Finds x q d) :
    ∃ f, q.owner = some f ∧ root.scopeGraph.resolve x p.id =
      if p.nearest isBoundary = some f then .local d.node d.kind f else .outer f := by
  obtain ⟨here,hhere,hresolve⟩ :=
    ScopeGraph.resolve_of_binds ((h.binds_iff hp).mpr ⟨q,rfl,hf⟩)
  refine ⟨_,h.owner_eq q (mem_scopes hp hf.mem_scopes).1,?_⟩
  rw [hresolve,h.nearest_eq_function hp hhere]
  by_cases hfunction : (root.scopeOf q).function = here.function
  · simp [hfunction]
  · simp [hfunction,Ne.symm hfunction]

theorem exists_finds (hp : p ∈ root.top.preorder)
    (hx : root.scopeGraph.resolve x p.id ≠ .unresolved) : ∃ q d, p.Finds x q d := by
  rw [ne_eq,ScopeGraph.resolve_eq_unresolved,← ScopeGraph.nearest_eq_none] at hx
  obtain ⟨⟨s,d⟩,hfound⟩ := Option.ne_none_iff_exists'.mp hx
  obtain ⟨q,_,hf⟩ := (h.binds_iff hp).mp (ScopeGraph.nearest_scopesAt.mp hfound)
  exact ⟨q,d,hf⟩

theorem resolve_eq_unresolved (hp : p ∈ root.top.preorder) :
    root.scopeGraph.resolve x p.id = .unresolved ↔
      ∀ q ∈ p.scopes, ∀ e ∈ q.declarations, e.name ≠ x := by
  rw [ScopeGraph.resolve_eq_unresolved,h.scopesAt_eq hp,List.forall_mem_map]
  exact forall₂_congr fun q hq => Tree.lookup_eq_none

end Parsed

/-- A name has no meaning exactly where none of the scopes around declares it. Otherwise it stands
for the first declaration in the innermost scope that does: as a local variable when that scope is
part of the function around, and as one of another function or of the program when it is not. -/
theorem parseSource_resolve {content : ByteArray} {t : SyntaxTree} (h : parseSource content = .ok t)
    {p : Position} (hp : p ∈ t.preorder) (x : String) :
    ((ScopeGraph.build t).resolve x p.id = .unresolved ↔
      ∀ q ∈ p.scopes, ∀ e ∈ q.declarations, e.name ≠ x) ∧
    ((ScopeGraph.build t).resolve x p.id ≠ .unresolved → ∃ q d, p.Finds x q d) ∧
    ∀ q d, p.Finds x q d → ∃ f, q.owner = some f ∧
      (ScopeGraph.build t).resolve x p.id =
        if p.nearest Position.isBoundary = some f then .local d.node d.kind f else .outer f := by
  obtain ⟨root,rfl,hparsed⟩ := parseSource_parsed h
  rw [root.preorder_table] at hp
  rw [hparsed.build_eq]
  exact ⟨hparsed.resolve_eq_unresolved hp,hparsed.exists_finds hp,
    fun q d => hparsed.resolve_of_finds hp⟩

theorem parseSource_resolve_sample :
    (ScopeGraph.build ⟨some Sample.program⟩).resolve "x" Sample.returned.id =
      .local 4 .let_ 10 := by
  let block : Position := ⟨Sample.block,[Sample.body,Sample.function,Sample.program]⟩
  let function : Position := ⟨Sample.function,[Sample.program]⟩
  have hret := Sample.ret_mem
  rw [Tree.preorder_table] at hret
  have hmem := Position.child_mem_preorder hret (c := Sample.returned) (.head _)
  rw [← Tree.preorder_table] at hmem
  have hblock : block.declarations = [] := by cbv
  have hfunction : function.declarations = [⟨"a",1,.param⟩,⟨"x",4,.let_⟩] := by cbv
  have hinner : ∀ q ∈ [block], ∀ e ∈ q.declarations, e.name ≠ "x" := by simp [hblock]
  obtain ⟨f,hf,hresolve⟩ := (parseSource_resolve Sample.parseSource_eq hmem "x").2.2 function _
    ⟨⟨[block],[Sample.program.top],rfl,hinner⟩,⟨[_],[],hfunction,by decide⟩,rfl⟩
  cases hf
  exact hresolve

end ScriptLint
