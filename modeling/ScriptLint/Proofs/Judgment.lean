import ScriptLint.Cop.Builtin
import ScriptLint.Proofs.Locality
import ScriptLint.Proofs.Predecessors

/-! Which returns are judged. All returns of identifiers are, since the variables that are declared
right before one are local; other returns are not, and nothing is reported for them. -/
namespace ScriptLint

theorem returnedName_eq {t a : Tree} {x : String} (hs : t.shape = .returnStatement (some a))
    (hx : a.name? = some x) : t.returnedName = .ok (a,x) := by
  rw [Tree.returnedName,hs]
  dsimp only
  rw [hx]

theorem returnedName_error {t : Tree} {argument : Option Tree}
    (hs : t.shape = .returnStatement argument) (hx : ∀ a ∈ argument, a.name? = none) :
    t.returnedName = .error .notIdentifier := by
  rw [Tree.returnedName,hs]
  cases argument with
  | none => rfl
  | some a =>
    dsimp only
    rw [hx a rfl]

/-- A statement is judged when the last variable it declares, if any, is a local one. -/
theorem judge_ok {resolve : Resolver} {a before : Tree} {x : String}
    (h : ∀ kind declarators d, before.shape = .variableDeclaration kind declarators →
      declarators.getLast? = some d → ∃ id value, d.shape = .declarator id value ∧
        (id.name? = some x → (resolve x before.id).isLocal)) :
    ∃ f, judge resolve a x before = .ok f := by
  unfold judge
  split
  next kind declarators hs =>
    split
    · exact ⟨_,rfl⟩
    next d hd =>
      obtain ⟨id,value,hshape,hlocal⟩ := h kind declarators d hs hd
      rw [hshape]
      dsimp only
      split
      next hx =>
        rw [if_pos (hlocal hx)]
        split <;> exact ⟨_,rfl⟩
      next => exact ⟨_,rfl⟩
  next =>
    split
    · split
      · split
        · exact ⟨_,rfl⟩
        · split <;> exact ⟨_,rfl⟩
        all_goals exact ⟨_,rfl⟩
      · exact ⟨_,rfl⟩
    · exact ⟨_,rfl⟩
  next => exact ⟨_,rfl⟩

namespace Parsed
open Position
variable {bytes : List UInt8} {root before d : Tree} {p : Position} {x : String}
  {kind : VariableKind} {declarators : List Tree} (h : Parsed bytes root)
include h

/-- A declaration of variables has declarators and nothing else. -/
theorem declarators_spec (hp : p ∈ root.top.preorder)
    (hs : p.node.shape = .variableDeclaration kind declarators) :
    declarators ≠ [] ∧ ∀ d ∈ declarators, ∃ id value, d.shape = .declarator id value := by
  have hadmissible := (h.grammatical_at p hp).admissible
  rw [hs] at hadmissible
  exact ⟨hadmissible.1,fun d hd => Tree.covers_of_isKind (hadmissible.2 d hd)⟩

theorem isLocal_before (hp : p ∈ root.top.preorder) (hb : p.predecessor? = some before)
    (hs : before.shape = .variableDeclaration kind declarators)
    (hd : declarators.getLast? = some d) {id : Tree} {value : Option Tree}
    (hds : d.shape = .declarator id value) (hx : id.name? = some x) :
    (root.scopeGraph.resolve x before.id).isLocal := by
  obtain ⟨_,holder,outer,_,_,hbefore,_⟩ := h.predecessor_spec hp hb
  exact h.isLocal_of_declarator hbefore hs (List.mem_of_getLast? hd) hds hx

theorem checkReturn_ok (hp : p ∈ root.top.preorder) {a : Tree}
    (hs : p.node.shape = .returnStatement (some a)) (hx : a.name? = some x) :
    ∃ f, checkReturn root.scopeGraph.resolve p = .ok f := by
  rw [checkReturn,classify,returnedName_eq hs hx]
  cases hb : p.predecessor? with
  | none => exact ⟨none,rfl⟩
  | some before =>
    apply judge_ok
    intro kind declarators d hs hd
    obtain ⟨_,holder,outer,_,_,hbefore,_⟩ := h.predecessor_spec hp hb
    obtain ⟨id,value,hds⟩ := (h.declarators_spec hbefore hs).2 d (List.mem_of_getLast? hd)
    exact ⟨id,value,hds,h.isLocal_before hp hb hs hd hds⟩

end Parsed

/-- Every return of an identifier is judged. The last variable that is declared right before one is
local there, and variables are declared by declarators, of which there is at least one. All other
returns are refused, and nothing is reported for them. -/
theorem parseSource_judged {content : ByteArray} {t : SyntaxTree} (h : parseSource content = .ok t)
    {p : Position} (hp : p ∈ t.preorder) :
    (∀ a, p.node.shape = .returnStatement (some a) → a.name?.isSome →
      ∃ f, checkReturn (ScopeGraph.build t).resolve p = .ok f) ∧
    (∀ before kind declarators d id value x, p.predecessor? = some before →
      before.shape = .variableDeclaration kind declarators → declarators.getLast? = some d →
      d.shape = .declarator id value → id.name? = some x →
      ((ScopeGraph.build t).resolve x before.id).isLocal) ∧
    (∀ kind declarators, p.node.shape = .variableDeclaration kind declarators →
      declarators ≠ [] ∧ ∀ d ∈ declarators, ∃ id value, d.shape = .declarator id value) ∧
    ∀ argument, p.node.shape = .returnStatement argument → (∀ a ∈ argument, a.name? = none) →
      checkReturn (ScopeGraph.build t).resolve p = .error .notIdentifier ∧
      ∀ file config, redundancyCop.check (.ofTree file t) p config = [] := by
  obtain ⟨root,rfl,hparsed⟩ := parseSource_parsed h
  rw [root.preorder_table] at hp
  rw [hparsed.build_eq]
  refine ⟨?_,?_,fun kind declarators => hparsed.declarators_spec hp,?_⟩
  · intro a hs hx
    obtain ⟨x,hx⟩ := Option.isSome_iff_exists.mp hx
    exact hparsed.checkReturn_ok hp hs hx
  · intro before kind declarators d id value x hb hs hd
    exact hparsed.isLocal_before hp hb hs hd
  · intro argument hs hx
    have hname := returnedName_error hs hx
    refine ⟨by rw [checkReturn,classify,hname],fun file config => ?_⟩
    change redundancyCheck _ p = []
    rw [redundancyCheck,hname]

theorem parseSource_judged_sample :
    (∃ f, checkReturn (ScopeGraph.build ⟨some Sample.program⟩).resolve Sample.ret = .ok f) ∧
      ((ScopeGraph.build ⟨some Sample.program⟩).resolve "x" Sample.declaration.id).isLocal := by
  have hjudged := parseSource_judged Sample.parseSource_eq Sample.ret_mem
  exact ⟨hjudged.1 Sample.returned rfl rfl,
    hjudged.2.1 Sample.declaration .let_ [Sample.declarator] Sample.declarator _ _ "x" rfl rfl rfl
      rfl rfl⟩

end ScriptLint
