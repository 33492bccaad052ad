import Mathlib
import ScriptLint.Proofs.Findings

/-! The own name of a function expression. It is declared before all else in the scope of the
function, so that directly in the function it always stands for the function itself: a parameter or a
variable of the same name never comes up, and no write of it is redundant. All other names that are
declared there stand for parameters and variables. -/
namespace ScriptLint

/-- The ways to declare a name in the scope of a function, its own name apart. -/
def DeclarationKind.isVariable : DeclarationKind → Bool
  | .param | .var | .let_ | .const | .function => true
  | .functionName | .catchParam => false

namespace Position
variable {p f : Position} {x : String} {d e : Declaration}

lemma isVariable_of_mem_contributed {scope : NodeId} (h : d ∈ p.contributed scope) :
    d.kind.isVariable := by
  have hdeclared {id : Tree} {node : NodeId} {kind : DeclarationKind} {b : Prop} [Decidable b]
      (hk : kind.isVariable) (h : d ∈ if b then declared id node kind else []) :
      d.kind.isVariable := by
    split at h
    · rwa [(eq_of_mem_declared h).2]
    · cases h
  unfold contributed at h
  split at h
  · exact hdeclared rfl h
  · exact hdeclared rfl h
  · exact hdeclared rfl h
  · exact hdeclared rfl h
  · cases h

/-- A function introduces its own name, and after it parameters. -/
lemma introduced_of_name {name body : Tree} {params : List Tree}
    (hs : f.node.shape = .function .expression (some name) params body) (hx : name.name? = some x) :
    ∃ others, f.introduced = ⟨x,f.id,.functionName⟩ :: others ∧ ∀ e ∈ others, e.kind = .param := by
  have hname : declared name f.id .functionName = [⟨x,f.id,.functionName⟩] := by
    rw [declared,Tree.shape_of_name hx]
  rw [introduced,hs]
  dsimp only
  rw [if_neg (by decide),Option.toList_some,List.flatMap_singleton,hname]
  refine ⟨_,rfl,?_⟩
  intro e he
  obtain ⟨q,_,hq⟩ := List.mem_flatMap.mp he
  split at hq <;> exact (eq_of_mem_declared hq).2

/-- The own name of a function comes before all else that is declared in it. -/
theorem declarations_of_name {name body : Tree} {params : List Tree}
    (hs : f.node.shape = .function .expression (some name) params body) (hx : name.name? = some x) :
    ∃ others, f.declarations = ⟨x,f.id,.functionName⟩ :: others ∧
      ∀ e ∈ others, e.kind.isVariable := by
  obtain ⟨params,hintroduced,hparams⟩ := introduced_of_name hs hx
  refine ⟨params ++ f.below.flatMap (contributed f.id),by rw [declarations,hintroduced]; rfl,?_⟩
  intro e he
  rcases List.mem_append.mp he with he | he
  · rw [hparams e he]
    rfl
  · obtain ⟨q,_,hq⟩ := List.mem_flatMap.mp he
    exact isVariable_of_mem_contributed hq

/-- The innermost scope of a position finds all that is declared in it. -/
theorem finds_of_head (hf : p.scopes.head? = some f) (he : e ∈ f.declarations) :
    ∃ d, p.Finds e.name f d := by
  obtain ⟨outer,hscopes⟩ := List.head?_eq_some_iff.mp hf
  have hsome : (f.declarations.find? (·.name == e.name)).isSome :=
    List.find?_isSome.mpr ⟨e,he,beq_self_eq_true _⟩
  obtain ⟨d,hd⟩ := Option.isSome_iff_exists.mp hsome
  obtain ⟨hname,before,after,hsplit,hbefore⟩ := List.find?_eq_some_iff_append.mp hd
  refine ⟨d,⟨[],outer,hscopes,by simp⟩,⟨before,after,hsplit,?_⟩,beq_iff_eq.mp hname⟩
  simpa using hbefore

end Position

namespace Parsed
open Position
variable {bytes : List UInt8} {root before a target : Tree} {p f : Position} {x : String}
  {d : Declaration} (h : Parsed bytes root)
include h

/-- What the scope of a function declares is local to it. -/
theorem resolve_of_head (hp : p ∈ root.top.preorder) (hf : p.scopes.head? = some f)
    (hfun : f.node.isFunction) (hfinds : p.Finds x f d) :
    root.scopeGraph.resolve x p.id = .local d.node d.kind f.id := by
  have howner : f.owner = some f.id := by
    rw [owner,List.find?_cons_of_pos (by simp [isBoundary,hfun])]
    rfl
  obtain ⟨g,hg,hresolve⟩ := h.resolve_of_finds hp hfinds
  obtain rfl : f.id = g := Option.some.inj (howner.symm.trans hg)
  rw [hresolve,h.nearest_isBoundary hp hf,if_pos howner]

/-- Directly in the scope of a function, the statement before another one is in the same scopes. -/
theorem scopes_before (hp : p ∈ root.top.preorder) (hf : p.scopes.head? = some f)
    (hfun : f.node.isFunction) (hb : p.predecessor? = some before) :
    ∃ q ∈ root.top.preorder, q.node = before ∧ q.scopes = p.scopes := by
  obtain ⟨inner,holder,outer,hancestors,hinner,hmem,_⟩ := h.predecessor_spec hp hb
  obtain ⟨between,hbetween,hnodes⟩ := outward_append inner (holder :: outer)
  have hscopes : p.scopes =
      between.filter opensScope ++ (Position.mk before (holder :: outer)).scopes := by
    rw [scopes,around,if_neg (by simp [hancestors]),above,hancestors,hbetween,List.filter_append]
    rfl
  refine ⟨_,hmem,rfl,?_⟩
  -- What stands between the two statements is no function, so the scope they share comes first.
  cases hfilter : between.filter opensScope with
  | nil => rw [hscopes,hfilter,List.nil_append]
  | cons q rest =>
    rw [hscopes,hfilter] at hf
    cases hf
    have hq : f ∈ between := List.mem_of_mem_filter (hfilter ▸ List.mem_cons_self)
    have hnode : f.node ∈ inner := hnodes ▸ List.mem_map_of_mem hq
    rw [hinner f.node (List.mem_append_left _ hnode)] at hfun
    cases hfun

/-- How an assignment right before a return is judged, directly in the scope of a function. -/
theorem checkReturn_of_head (hp : p ∈ root.top.preorder) (hf : p.scopes.head? = some f)
    (hfun : f.node.isFunction) (hfinds : p.Finds x f d)
    (hs : p.node.shape = .returnStatement (some a)) (hx : a.name? = some x)
    (hb : p.predecessor? = some before) (hw : Writes x before .assignment target) :
    checkReturn root.scopeGraph.resolve p =
      .ok (if d.kind = .functionName then none else some ⟨.assignment,target⟩) := by
  obtain ⟨q,hq,rfl,hscopes⟩ := h.scopes_before hp hf hfun hb
  have hargument : (p.child a).scopes = p.scopes := by
    have hopen : ¬ p.opensScope := by simp [opensScope,hs]
    have hne : p.ancestors ≠ [] := by
      intro hnil
      have hprogram := h.isProgram_eq hp
      simp [hnil,Tree.isProgram,hs] at hprogram
    rw [scopes,scopes,around,around,if_neg (by simp),if_neg (by simpa using hne),above_child,
      List.filter_cons_of_neg hopen]
  have hwritten : root.scopeGraph.resolve x q.node.id = .local d.node d.kind f.id := by
    refine h.resolve_of_head hq (hscopes ▸ hf) hfun ⟨?_,hfinds.first,hfinds.name⟩
    rw [hscopes]
    exact hfinds.innermost
  have hread : root.scopeGraph.resolve x a.id = .local d.node d.kind f.id := by
    have ha : p.child a ∈ root.top.preorder :=
      child_mem_preorder hp (by simp [Tree.children,hs,Shape.children])
    refine h.resolve_of_head ha (hargument ▸ hf) hfun ⟨?_,hfinds.first,hfinds.name⟩
    rw [hargument]
    exact hfinds.innermost
  rw [checkReturn,classify,returnedName_eq hs hx,hb]
  change judge _ a x q.node = _
  cases hw with
  | assigns hs he hx =>
    rw [judge,hs]
    dsimp only
    rw [he]
    dsimp only
    rw [if_pos hx,hwritten,hread]
    cases d.kind <;> simp

end Parsed

/-- Directly in a function expression, its own name stands for the function, whatever else declares
that name there, and an assignment to it right before it is returned is not redundant. Every other
name that is declared there stands for the first parameter or variable that declares it, and an
assignment to it right before it is returned is redundant. -/
theorem parseSource_ownName {content : ByteArray} {t : SyntaxTree} (h : parseSource content = .ok t)
    {f p : Position} (hp : p ∈ t.preorder) {name body : Tree} {params : List Tree} {x : String}
    (hs : f.node.shape = .function .expression (some name) params body) (hx : name.name? = some x)
    (hf : p.scopes.head? = some f) :
    (ScopeGraph.build t).resolve x p.id = .local f.id .functionName f.id ∧
    (∀ e ∈ f.declarations, e.name ≠ x → ∃ d, p.Finds e.name f d ∧ d.kind.isVariable ∧
      (ScopeGraph.build t).resolve e.name p.id = .local d.node d.kind f.id) ∧
    ∀ a y before target, p.node.shape = .returnStatement (some a) → a.name? = some y →
      p.predecessor? = some before → Writes y before .assignment target →
      (∃ e ∈ f.declarations, e.name = y) →
      checkReturn (ScopeGraph.build t).resolve p =
        .ok (if y = x then none else some ⟨.assignment,target⟩) := by
  obtain ⟨root,rfl,hparsed⟩ := parseSource_parsed h
  rw [root.preorder_table] at hp
  rw [hparsed.build_eq]
  have hfun : f.node.isFunction := by rw [Tree.isFunction,hs]
  obtain ⟨others,hothers,hkinds⟩ := Position.declarations_of_name hs hx
  have hown : p.Finds x f ⟨x,f.id,.functionName⟩ := by
    obtain ⟨outer,hscopes⟩ := List.head?_eq_some_iff.mp hf
    exact ⟨⟨[],outer,hscopes,by simp⟩,⟨[],others,hothers,by simp⟩,rfl⟩
  have hother {y : String} {d : Declaration} (hd : p.Finds y f d) (hy : y ≠ x) :
      d.kind.isVariable := by
    have hmem := hd.mem_declarations
    rw [hothers] at hmem
    rcases List.mem_cons.mp hmem with rfl | hmem
    · exact absurd hd.name.symm hy
    · exact hkinds d hmem
  refine ⟨hparsed.resolve_of_head hp hf hfun hown,?_,?_⟩
  · intro e he hne
    obtain ⟨d,hd⟩ := Position.finds_of_head hf he
    exact ⟨d,hd,hother hd hne,hparsed.resolve_of_head hp hf hfun hd⟩
  · rintro a y before target hret hy hb hw ⟨e,he,rfl⟩
    by_cases hne : e.name = x
    · rw [hne] at hy hw
      rw [if_pos hne]
      exact hparsed.checkReturn_of_head hp hf hfun hown hret hy hb hw
    · obtain ⟨d,hd⟩ := Position.finds_of_head hf he
      have hkind : d.kind ≠ .functionName := by
        intro hk
        have hvariable := hother hd hne
        rw [hk] at hvariable
        cases hvariable
      have hjudged := hparsed.checkReturn_of_head hp hf hfun hd hret hy hb hw
      rw [if_neg hkind] at hjudged
      rw [if_neg hne]
      exact hjudged

/-! A function with a parameter of its own name, which it writes and returns. -/
namespace Namesake

def source : ByteArray := "!function f(f){f=1;return f}".toUTF8

def target : Tree := .node 2 ⟨15,16⟩ (.identifier "f")

def write : Tree :=
  .node 5 ⟨15,19⟩ (.expressionStatement
    (.node 4 ⟨15,18⟩ (.assignment .assign target (.node 3 ⟨17,18⟩ (.literal .number "1")))))

def argument : Tree := .node 6 ⟨26,27⟩ (.identifier "f")

def returned : Tree := .node 7 ⟨19,27⟩ (.returnStatement (some argument))

def body : Tree := .node 8 ⟨14,28⟩ (.block [write,returned])

def function : Tree :=
  .node 9 ⟨1,28⟩ (.function .expression (some (.node 0 ⟨10,11⟩ (.identifier "f")))
    [.node 1 ⟨12,13⟩ (.identifier "f")] body)

def negation : Tree := .node 10 ⟨0,28⟩ (.unary .not function)

def statement : Tree := .node 11 ⟨0,28⟩ (.expressionStatement negation)

def program : Tree := .node 12 ⟨0,28⟩ (.program [statement])

set_option maxRecDepth 4000 in
theorem parseSource_eq : parseSource source = .ok ⟨some program⟩ := by cbv

/-- The scope of the function. -/
def scope : Position := ⟨function,[negation,statement,program]⟩

theorem declarations_eq :
    scope.declarations = [⟨"f",9,.functionName⟩,⟨"f",1,.param⟩] := by cbv

/-- Where the function returns. -/
def ret : Position := ⟨returned,[body,function,negation,statement,program]⟩

theorem ret_mem : ret ∈ program.table.preorder := by
  rw [Tree.preorder_table]
  have hstatement : program.top.child statement ∈ program.top.preorder :=
    Position.child_mem_preorder (Position.self_mem_preorder _) (.head _)
  have hnegation := Position.child_mem_preorder hstatement (c := negation) (.head _)
  have hfunction := Position.child_mem_preorder hnegation (c := function) (.head _)
  have hbody := Position.child_mem_preorder hfunction (c := body) (.tail _ (.tail _ (.head _)))
  exact Position.child_mem_preorder hbody (.tail _ (.head _))

end Namesake

theorem parseSource_ownName_sample :
    (ScopeGraph.build ⟨some Namesake.program⟩).resolve "f" Namesake.ret.id =
        .local 9 .functionName 9 ∧
      checkReturn (ScopeGraph.build ⟨some Namesake.program⟩).resolve Namesake.ret = .ok none := by
  have hown := parseSource_ownName Namesake.parseSource_eq (f := Namesake.scope) Namesake.ret_mem
    rfl rfl rfl
  exact ⟨hown.1,hown.2.2 Namesake.argument "f" Namesake.write Namesake.target rfl rfl rfl
    (.assigns rfl rfl rfl) ⟨_,Namesake.declarations_eq ▸ List.mem_cons_self,rfl⟩⟩

/-- A parameter does not hide the own name of its function. -/
theorem parseSource_ownName_hides_parameter :
    parseSource Namesake.source = .ok ⟨some Namesake.program⟩ ∧
      ⟨"f",1,.param⟩ ∈ Namesake.scope.declarations ∧
      Namesake.ret.scopes.head? = some Namesake.scope ∧
      Namesake.ret.predecessor? = some Namesake.write ∧
      (ScopeGraph.build ⟨some Namesake.program⟩).resolve "f" Namesake.ret.id =
        .local 9 .functionName 9 ∧
      checkReturn (ScopeGraph.build ⟨some Namesake.program⟩).resolve Namesake.ret = .ok none := by
  exact ⟨Namesake.parseSource_eq,by simp [Namesake.declarations_eq],rfl,rfl,by cbv,by cbv⟩

end ScriptLint
