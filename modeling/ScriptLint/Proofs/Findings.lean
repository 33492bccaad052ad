import ScriptLint.Proofs.Judgment
import ScriptLint.Proofs.Locations

/-! What is found to be redundant: a write of the variable that is returned next, where nothing
between the write and the return hides that variable. Two places mean the same variable exactly when
the same scope binds the name for both. -/
namespace ScriptLint

/-- A statement that ends with a write of `x`, and the node that is reported for it: the last
declarator of a declaration, or the target of an assignment. -/
inductive Writes (x : String) (t : Tree) : Redundancy → Tree → Prop
  | declares {kind : VariableKind} {declarators : List Tree} {d id : Tree} {value : Option Tree}
      (hs : t.shape = .variableDeclaration kind declarators) (hd : declarators.getLast? = some d)
      (hds : d.shape = .declarator id value) (hx : id.name? = some x) : Writes x t .variable d
  | assigns {e target value : Tree} (hs : t.shape = .expressionStatement e)
      (he : e.shape = .assignment .assign target value) (hx : target.name? = some x) :
      Writes x t .assignment target

section
variable {resolve : Resolver} {a before : Tree} {x : String} {f : Finding}

lemma judge_declaration {kind : VariableKind} {declarators : List Tree} {d id : Tree}
    {value : Option Tree} (hs : before.shape = .variableDeclaration kind declarators)
    (hd : declarators.getLast? = some d) (hds : d.shape = .declarator id value) :
    judge resolve a x before = .ok (some f) ↔ id.name? = some x ∧ f = ⟨.variable,d⟩ ∧
      (resolve x before.id).isLocal ∧ resolve x a.id = resolve x before.id := by
  rw [judge,hs]
  dsimp only
  rw [hd]
  dsimp only
  rw [hds]
  dsimp only
  split_ifs with hx hlocal ha
  · simp [hx,hlocal,ha,eq_comm]
  · simp [ha]
  · simp [hlocal]
  · simp [hx]

lemma judge_assignment {e target value : Tree} (hs : before.shape = .expressionStatement e)
    (he : e.shape = .assignment .assign target value) :
    judge resolve a x before = .ok (some f) ↔ target.name? = some x ∧ f = ⟨.assignment,target⟩ ∧
      (∃ node kind function, resolve x before.id = .local node kind function ∧
        kind ≠ .functionName) ∧ resolve x a.id = resolve x before.id := by
  rw [judge,hs]
  dsimp only
  rw [he]
  dsimp only
  split_ifs with hx
  · cases resolve x before.id with
    | «local» node kind function => cases kind <;> grind
    | _ => simp
  · simp [hx]

/-- A write is reported when it and the return are about the same local variable. -/
theorem judge_eq_some :
    judge resolve a x before = .ok (some f) ↔ Writes x before f.redundancy f.node ∧
      ∃ node kind function, resolve x before.id = .local node kind function ∧
        (f.redundancy = .assignment → kind ≠ .functionName) ∧
        resolve x a.id = .local node kind function := by
  constructor
  · intro h
    have hjudge := h
    unfold judge at h
    split at h
    next kind declarators hs =>
      split at h
      · cases h
      next d hd =>
        split at h
        next id value hds =>
          obtain ⟨hx,rfl,hlocal,ha⟩ := (judge_declaration hs hd hds).mp hjudge
          refine ⟨.declares hs hd hds hx,?_⟩
          rw [ha]
          cases hw : resolve x before.id with
          | «local» node kind function => exact ⟨node,kind,function,rfl,by simp,rfl⟩
          | _ =>
            rw [hw] at hlocal
            contradiction
        next => cases h
    next e hs =>
      split at h
      next target value he =>
        obtain ⟨hx,rfl,⟨node,kind,function,hw,hkind⟩,ha⟩ := (judge_assignment hs he).mp hjudge
        exact ⟨.assigns hs he hx,node,kind,function,hw,fun _ => hkind,ha.trans hw⟩
      next => cases h
    next => cases h
  · obtain ⟨redundancy,reported⟩ := f
    rintro ⟨hwrites,node,kind,function,hw,hkind,ha⟩
    cases hwrites with
    | declares hs hd hds hx =>
      rw [judge_declaration hs hd hds]
      exact ⟨hx,rfl,by rw [hw]; rfl,ha.trans hw.symm⟩
    | assigns hs he hx =>
      rw [judge_assignment hs he]
      exact ⟨hx,rfl,⟨node,kind,function,hw,hkind rfl⟩,ha.trans hw.symm⟩

end

namespace Position

/-- The innermost function that a position is inside of. -/
def function? (p : Position) : Option NodeId := (p.ancestors.find? Tree.isFunction).map Tree.id

theorem function_child (p : Position) (c : Tree) :
    (p.child c).function? = if p.node.isFunction then some p.id else p.function? := by
  change ((p.node :: p.ancestors).find? Tree.isFunction).map Tree.id = _
  rw [List.find?_cons]
  cases p.node.isFunction <;> rfl

/-- The scopes around a position go on with those around each statement beside one that it is in. -/
lemma scopes_suffix {t u : Tree} {inner outer : List Tree} (hne : outer ≠ []) :
    (Position.mk u outer).scopes <:+ (Position.mk t (inner ++ outer)).scopes := by
  obtain ⟨between,hbetween,_⟩ := outward_append inner outer
  have happend : inner ++ outer ≠ [] := by simp [hne]
  rw [scopes,scopes,around,around,if_neg (by simpa using hne),if_neg (by simpa using happend)]
  change (outward outer).filter opensScope <:+ (outward (inner ++ outer)).filter opensScope
  rw [hbetween,List.filter_append]
  exact List.suffix_append ..

end Position

namespace Parsed
open Position
variable {bytes : List UInt8} {root before a : Tree} {p q : Position} {x : String} {f : NodeId}
  (h : Parsed bytes root)
include h

/-- Every return is inside of a function. -/
theorem exists_function :
    ∀ p ∈ root.top.preorder, p.node.Returns → ∃ f, p.function? = some f := by
  apply preorder_induction
  · exact fun hreturns => absurd hreturns h.closed
  · intro p hp ih c hc hreturns
    rw [function_child]
    cases hf : p.node.isFunction with
    | true => exact ⟨p.id,rfl⟩
    | false => exact ih (.under hf hc hreturns)

/-- Inside of a function, the innermost one is what `var` variables belong to. -/
theorem nearest_of_function :
    ∀ p ∈ root.top.preorder, ∀ f, p.function? = some f → p.nearest isBoundary = some f := by
  apply preorder_induction
  · intro f hf
    cases hf
  · intro p hp ih c hc f hf
    rw [function_child] at hf
    rcases eq_or_child p hp with rfl | ⟨q,hq,d,hd,rfl⟩
    · split at hf
      next hfun =>
        obtain ⟨_,_,_,_,hs⟩ := Tree.shape_of_isFunction hfun
        have hprogram := h.program
        simp [Tree.isProgram,show root.shape = _ from hs] at hprogram
      next => cases hf
    · have hne : (q.child d).ancestors ≠ [] := List.cons_ne_nil _ _
      rw [nearest_child (.inl hne),h.isBoundary_eq hp hne]
      split
      next hfun => rwa [if_pos hfun] at hf
      next hfun =>
        rw [if_neg hfun] at hf
        exact ih f hf

/-- A name stands for a local variable when the scope that binds it is part of the function or
program around. -/
theorem resolve_eq_local (hp : p ∈ root.top.preorder) {node : NodeId} {kind : DeclarationKind} :
    root.scopeGraph.resolve x p.id = .local node kind f ↔
      ∃ s d, root.scopeGraph.Binds x p.id s d ∧ s.function = f ∧ p.nearest isBoundary = some f ∧
        d.node = node ∧ d.kind = kind := by
  constructor
  · intro hresolve
    obtain ⟨q,d,hfinds⟩ := h.exists_finds hp (x := x) (by simp [hresolve])
    have hbinds := (h.binds_iff hp).mpr ⟨q,rfl,hfinds⟩
    obtain ⟨here,hhere,heq⟩ := ScopeGraph.resolve_of_binds hbinds
    rw [hresolve] at heq
    split at heq
    next hfunction =>
      cases heq
      exact ⟨_,d,hbinds,hfunction,h.nearest_eq_function hp hhere,rfl,rfl⟩
    next => cases heq
  · rintro ⟨s,d,hbinds,hfunction,hnear,rfl,rfl⟩
    obtain ⟨here,hhere,heq⟩ := ScopeGraph.resolve_of_binds hbinds
    rw [h.nearest_eq_function hp hhere] at hnear
    obtain rfl := Option.some.inj hnear
    rw [heq,if_pos hfunction]

/-- What binds a name for one place and what does for another are the same when they are declared by
one node: it declares the name in one scope only. -/
theorem binds_unique (hp : p ∈ root.top.preorder) (hq : q ∈ root.top.preorder) {s s' : Scope}
    {d d' : Declaration} (hs : root.scopeGraph.Binds x p.id s d)
    (hs' : root.scopeGraph.Binds x q.id s' d') (hnode : d.node = d'.node) : s = s' ∧ d = d' := by
  obtain ⟨u,rfl,hu⟩ := (h.binds_iff hp).mp hs
  obtain ⟨u',rfl,hu'⟩ := (h.binds_iff hq).mp hs'
  obtain ⟨hmem,hopen⟩ := mem_scopes hp hu.mem_scopes
  obtain ⟨hmem',hopen'⟩ := mem_scopes hq hu'.mem_scopes
  -- Both scopes have a declaration by the same node, so one position opens both.
  obtain ⟨rfl,rfl⟩ := scope_unique h.numbered hmem hmem' hopen hopen' hu.mem_declarations
    hu'.mem_declarations hnode
  exact ⟨rfl,rfl⟩

/-- Inside of one function, a name means the same local variable in two places when one scope binds
it for both. -/
theorem resolve_same (hp : p ∈ root.top.preorder) (hq : q ∈ root.top.preorder)
    (hpf : p.nearest isBoundary = some f) (hqf : q.nearest isBoundary = some f)
    {C : DeclarationKind → Prop} :
    (∃ node kind function, root.scopeGraph.resolve x p.id = .local node kind function ∧ C kind ∧
      root.scopeGraph.resolve x q.id = .local node kind function) ↔
    ∃ s d, root.scopeGraph.Binds x p.id s d ∧ s.function = f ∧ C d.kind ∧
      root.scopeGraph.Binds x q.id s d := by
  constructor
  · rintro ⟨_,_,_,hresolve,hkind,hresolve'⟩
    obtain ⟨s,d,hs,rfl,hnear,rfl,rfl⟩ := (h.resolve_eq_local hp).mp hresolve
    obtain ⟨s',d',hs',_,_,hnode,_⟩ := (h.resolve_eq_local hq).mp hresolve'
    obtain ⟨rfl,rfl⟩ := h.binds_unique hp hq hs hs' hnode.symm
    exact ⟨s,d,hs,Option.some.inj (hnear.symm.trans hpf),hkind,hs'⟩
  · rintro ⟨s,d,hs,rfl,hkind,hs'⟩
    exact ⟨d.node,d.kind,s.function,(h.resolve_eq_local hp).mpr ⟨s,d,hs,rfl,hpf,rfl,rfl⟩,hkind,
      (h.resolve_eq_local hq).mpr ⟨s,d,hs',rfl,hqf,rfl,rfl⟩⟩

/-- The node that is reported for a write: where it stands in the tree, and that it begins with the
name that is written. -/
theorem reported_spec (hp : p ∈ root.top.preorder) {r : Redundancy} {n : Tree}
    (hw : Writes x p.node r n) :
    ∃ q ∈ p.preorder, q.node = n ∧ q.function? = p.function? ∧ Spells bytes n.span.start x := by
  cases hw with
  | @declares kind declarators _ id value hs hd hds hx =>
    have hmem : n ∈ p.node.children := by
      rw [Tree.children,hs]
      exact List.mem_of_getLast? hd
    have hid : id ∈ n.children := by simp [Tree.children,hds,Shape.children]
    have hchild := child_mem_preorder hp hmem
    refine ⟨p.child n,child_mem_preorder (self_mem_preorder p) hmem,rfl,?_,?_⟩
    · rw [function_child,Tree.isFunction,hs]
      rfl
    · rw [← h.declarator n (node_mem_preorder hchild) id value hds]
      exact h.spells_at (child_mem_preorder hchild hid) hx
  | @assigns e _ value hs he hx =>
    have hmem : e ∈ p.node.children := by simp [Tree.children,hs,Shape.children]
    have htarget : n ∈ (p.child e).node.children := by
      simp [Tree.children,he,Shape.children]
    have hchild := child_mem_preorder hp hmem
    refine ⟨(p.child e).child n,
      child_mem_preorder (child_mem_preorder (self_mem_preorder p) hmem) htarget,rfl,?_,
      h.spells_at (child_mem_preorder hchild htarget) hx⟩
    rw [function_child,function_child,child_node,Tree.isFunction,he,Tree.isFunction,hs]
    rfl

/-- The statement before another one is in the same function, ends before the other one, and is in
no scope that the parts of the other one are not in. -/
theorem before_spec (hp : p ∈ root.top.preorder) (hb : p.predecessor? = some before) (a : Tree) :
    ∃ q ∈ root.top.preorder, q.node = before ∧ q.ancestors ≠ [] ∧ q.function? = p.function? ∧
      before.span.stop ≤ p.node.span.start ∧ q.scopes <:+ (p.child a).scopes := by
  obtain ⟨inner,holder,outer,hancestors,hinner,hmem,hstop⟩ := h.predecessor_spec hp hb
  refine ⟨⟨before,holder :: outer⟩,hmem,rfl,List.cons_ne_nil _ _,?_,hstop,?_⟩
  · have hnone : (inner ++ [holder]).find? Tree.isFunction = none := by
      rw [List.find?_eq_none]
      intro u hu
      simp [hinner u hu]
    have hholder : holder.isFunction = false := hinner holder (by simp)
    rw [function?,function?,hancestors,List.append_cons,List.find?_append,hnone]
    simp [hholder]
  · rw [child,hancestors,← List.cons_append]
    exact scopes_suffix (List.cons_ne_nil _ _)

/-- What is found at a return is a write of the variable that is returned. -/
theorem checkReturn_eq_some (hp : p ∈ root.top.preorder)
    (hs : p.node.shape = .returnStatement (some a)) (hx : a.name? = some x) {f : Finding} :
    checkReturn root.scopeGraph.resolve p = .ok (some f) ↔
      ∃ before s d, p.predecessor? = some before ∧ Writes x before f.redundancy f.node ∧
        root.scopeGraph.Binds x before.id s d ∧ p.function? = some s.function ∧
        (f.redundancy = .assignment → d.kind ≠ .functionName) ∧
        root.scopeGraph.Binds x a.id s d := by
  rw [checkReturn,classify,returnedName_eq hs hx]
  dsimp only
  cases hb : p.predecessor? with
  | none => simp
  | some before =>
    have ha : p.child a ∈ root.top.preorder :=
      child_mem_preorder hp (by simp [Tree.children,hs,Shape.children])
    -- The write, the return and what it returns are all inside of the same function `g`.
    obtain ⟨g,hg⟩ := h.exists_function p hp (.here (by rw [hs]; rfl))
    obtain ⟨q,hq,rfl,_,hfunction,_⟩ := h.before_spec hp hb a
    have hga : (p.child a).function? = some g := by
      rw [function_child,Tree.isFunction,hs]
      exact hg
    have hsame := h.resolve_same hq ha (h.nearest_of_function q hq g (hfunction.trans hg))
      (h.nearest_of_function _ ha g hga) (x := x)
      (C := fun kind => f.redundancy = .assignment → kind ≠ .functionName)
    change judge _ a x q.node = _ ↔ _
    rw [judge_eq_some,show a.id = (p.child a).id from rfl,show q.node.id = q.id from rfl,hsame]
    constructor
    · rintro ⟨hwrites,s,d,hs,rfl,hkind,hs'⟩
      exact ⟨q.node,s,d,rfl,hwrites,hs,hg,hkind,hs'⟩
    · rintro ⟨_,s,d,⟨⟩,hwrites,hs,hs',hkind,ha⟩
      exact ⟨hwrites,s,d,hs,Option.some.inj (hs'.symm.trans hg),hkind,ha⟩

/-- A finding is reported where the variable is written, before the return and in its function. -/
theorem finding_spec (hp : p ∈ root.top.preorder) (hb : p.predecessor? = some before) {f : Finding}
    (hw : Writes x before f.redundancy f.node) :
    Spells bytes f.node.span.start x ∧ f.node.span.start < bytes.length ∧
      f.node.span.stop ≤ p.node.span.start ∧
      ∃ q ∈ root.top.preorder, q.node = f.node ∧ q.function? = p.function? := by
  obtain ⟨q,hq,rfl,hne,hfunction,hstop,_⟩ := h.before_spec hp hb before
  obtain ⟨r,hr,hnode,hsame,hspells⟩ := h.reported_spec hq hw
  have hmem := (preorder_sublist hq).subset hr
  have hlt := h.start_lt hmem (ancestors_ne_nil hne r hr)
  have hwithin := (h.span_within hq hne r hr).2
  rw [hnode] at hlt hwithin
  exact ⟨hspells,hlt,Nat.le_trans hwithin hstop,r,hmem,hnode,hsame.trans hfunction⟩

end Parsed

/-- What is found at a return of `x` is that the statement before it writes the variable `x` of the
function that is returned from, which no scope around the returned identifier hides. The write is
reported at the name that it begins with, by its line and column. -/
theorem parseSource_finding {content : ByteArray} {t : SyntaxTree} (h : parseSource content = .ok t)
    {p : Position} (hp : p ∈ t.preorder) {a : Tree} {x : String}
    (hs : p.node.shape = .returnStatement (some a)) (hx : a.name? = some x) :
    (∀ f, checkReturn (ScopeGraph.build t).resolve p = .ok (some f) ↔
      ∃ before s d, p.predecessor? = some before ∧ Writes x before f.redundancy f.node ∧
        (ScopeGraph.build t).Binds x before.id s d ∧ p.function? = some s.function ∧
        (f.redundancy = .assignment → d.kind ≠ .functionName) ∧
        (ScopeGraph.build t).Binds x a.id s d) ∧
    (∀ before, p.predecessor? = some before →
      (ScopeGraph.build t).scopesAt before.id <:+ (ScopeGraph.build t).scopesAt a.id) ∧
    ∀ f, checkReturn (ScopeGraph.build t).resolve p = .ok (some f) →
      Spells content.data.toList f.node.span.start x ∧
      f.node.span.stop ≤ p.node.span.start ∧
      (∃ q ∈ t.preorder, q.node = f.node ∧ q.function? = p.function?) ∧
      ∃ l, SourceFile.Locates content.data.toList f.node.span.start l ∧
        ∀ path config, redundancyCop.check (.ofTree ⟨path,content⟩ t) p config =
          [⟨path,l,.convention,redundancyName,f.redundancy.message⟩] := by
  obtain ⟨root,rfl,hparsed⟩ := parseSource_parsed h
  rw [root.preorder_table] at hp ⊢
  rw [hparsed.build_eq]
  have hiff (f : Finding) := hparsed.checkReturn_eq_some hp hs hx (f := f)
  refine ⟨hiff,?_,?_⟩
  · intro before hb
    obtain ⟨q,hq,rfl,_,_,_,hscopes⟩ := hparsed.before_spec hp hb a
    have ha := Position.child_mem_preorder hp (c := a) (by simp [Tree.children,hs,Shape.children])
    change root.scopeGraph.scopesAt q.id <:+ root.scopeGraph.scopesAt (p.child a).id
    rw [hparsed.scopesAt_eq hq,hparsed.scopesAt_eq ha]
    exact hscopes.map _
  · intro f hf
    obtain ⟨before,_,_,hb,hwrites,_⟩ := (hiff f).mp hf
    obtain ⟨hspells,hlt,hstop,hplace⟩ := hparsed.finding_spec hp hb hwrites
    refine ⟨hspells,hstop,hplace,_,SourceFile.locates_locate hlt,?_⟩
    intro path config
    change redundancyCheck _ p = _
    rw [redundancyCheck,returnedName_eq hs hx]
    dsimp only [FileContext.ofTree]
    rw [hparsed.build_eq,hf]
    rfl

theorem parseSource_finding_sample :
    Spells Sample.source.data.toList 18 "x" ∧
      ∃ l, SourceFile.Locates Sample.source.data.toList 18 l ∧
        ∀ path config, redundancyCop.check (.ofTree ⟨path,Sample.source⟩ ⟨some Sample.program⟩)
          Sample.ret config = [⟨path,l,.convention,redundancyName,"Redundant variable."⟩] := by
  obtain ⟨_,_,hreport⟩ := parseSource_finding Sample.parseSource_eq Sample.ret_mem rfl rfl
  obtain ⟨hspells,_,_,hcheck⟩ := hreport ⟨.variable,Sample.declarator⟩ (by cbv)
  exact ⟨hspells,hcheck⟩

end ScriptLint
