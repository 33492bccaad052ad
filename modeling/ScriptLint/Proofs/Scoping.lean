import ScriptLint.Proofs.Parsed
import ScriptLint.Scope.Graph

/-! Which names are declared where, said of a tree and the positions in it without building scopes:
the positions around a position that open a scope, and what each of them declares. The scopes of a
tree declare the same. -/
namespace ScriptLint

/-- A declaration of `let` or `const` variables. -/
def Tree.isLexical (t : Tree) : Bool :=
  match t.shape with
  | .variableDeclaration .let_ _ | .variableDeclaration .const _ => true
  | _ => false

/-- The declaration of the name that an identifier stands for. -/
def declared (id : Tree) (node : NodeId) (kind : DeclarationKind) : List Declaration :=
  match id.shape with
  | .identifier name => [⟨name,node,kind⟩]
  | _ => []

lemma Tree.isLexical_eq (t : Tree) : t.isLexical = t.isBlockScopedDeclaration := by
  obtain ⟨i,span,shape⟩ := t
  cases shape with
  | variableDeclaration kind => cases kind <;> rfl
  | _ => rfl

namespace Position

/-- The block of a function or of a handler opens no scope of its own, and a loop opens one only
when its head declares variables for it. -/
def opensScope (p : Position) : Bool :=
  match p.node.shape with
  | .program _ | .function .. | .switchStatement .. | .catchClause .. => true
  | .block _ => !p.parent?.any fun t => t.isFunction || t.isHandler
  | .forLoop (some head) .. | .forIn head .. | .forOf head .. => head.isLexical
  | _ => false

/-- The positions that `var` variables belong to. -/
def isBoundary (p : Position) : Bool := p.node.isFunction || p.node.isProgram

/-- The positions that a position is inside of, the nearest first. The root is inside itself. -/
def around (p : Position) : List Position := if p.ancestors.isEmpty then [p] else p.above

/-- The nearest position of some kind that a position is inside of. -/
def nearest (kind : Position → Bool) (p : Position) : Option NodeId :=
  (p.around.find? kind).map id

/-- The scopes that a position is in, the innermost first. -/
def scopes (p : Position) : List Position := p.around.filter opensScope

/-- What a position that opens a scope declares by itself: the own name of a function that is not a
declaration and its parameters, or the parameter of a handler. -/
def introduced (p : Position) : List Declaration :=
  match p.node.shape with
  | .function kind name params _ =>
    (if kind = .declaration then [] else name.toList.flatMap (declared · p.id .functionName)) ++
      params.flatMap fun q =>
        match q.shape with
        | .defaultParam target _ | .restParam target => declared target target.id .param
        | _ => declared q q.id .param
  | .catchClause (some param) _ => declared param param.id .catchParam
  | _ => []

/-- What a position declares in the scope with a number: a `var` in the nearest function or program,
all else in the nearest scope. -/
def contributed (scope : NodeId) (p : Position) : List Declaration :=
  match p.node.shape, p.parent?.map Tree.shape with
  | .declarator id _, some (.variableDeclaration .var _) =>
    if p.nearest isBoundary = some scope then declared id p.id .var else []
  | .declarator id _, some (.variableDeclaration .let_ _) =>
    if p.nearest opensScope = some scope then declared id p.id .let_ else []
  | .declarator id _, some (.variableDeclaration .const _) =>
    if p.nearest opensScope = some scope then declared id p.id .const else []
  | .function .declaration (some name) _ _, _ =>
    if p.nearest opensScope = some scope then declared name p.id .function else []
  | _, _ => []

/-- The positions below a position, in source order. -/
def below (p : Position) : List Position := p.node.children.flatMap fun c => (p.child c).preorder

/-- All that is declared in the scope a position opens: what it declares by itself, then what the
positions below it do. -/
def declarations (p : Position) : List Declaration :=
  p.introduced ++ p.below.flatMap (contributed p.id)

/-- The function or program that the scope a position opens is part of. -/
def owner (p : Position) : Option NodeId := ((p :: p.above).find? isBoundary).map id

variable {root : Tree} {p : Position} {kind : Position → Bool} {scope : NodeId}

theorem preorder_eq_cons_below (p : Position) : p.preorder = p :: p.below := preorder_eq p

theorem mem_scopes {q : Position} (hp : p ∈ root.top.preorder) (hq : q ∈ p.scopes) :
    q ∈ root.top.preorder ∧ q.opensScope := by
  obtain ⟨haround,hopen⟩ := List.mem_filter.mp hq
  refine ⟨?_,hopen⟩
  unfold around at haround
  split at haround
  · rwa [List.mem_singleton.mp haround]
  · exact (below_of_mem_above rfl p hp q haround).1

theorem opensScope_of_isBoundary (h : p.isBoundary) : p.opensScope := by
  obtain ⟨⟨i,span,shape⟩,ancestors⟩ := p
  cases shape with
  | program | function => rfl
  | _ => contradiction

theorem nearest_child (h : p.ancestors ≠ [] ∨ kind p) (c : Tree) :
    (p.child c).nearest kind = if kind p then some p.id else p.nearest kind := by
  change ((p :: p.above).find? kind).map id = _
  rw [List.find?_cons]
  split
  next hk => simp [hk]
  next hk =>
    have hne : p.ancestors ≠ [] := by simpa [hk] using h
    simp [hk,nearest,around,hne]

/-- From below a position of some kind, the nearest of that kind is that position or below it. -/
theorem nearest_of_mem_below (h : root.Numbered) (hp : p ∈ root.top.preorder) (hk : kind p) :
    ∀ q ∈ p.below, ∃ i ≤ p.id, q.nearest kind = some i := by
  intro q hq
  obtain ⟨c,hc,hq⟩ := List.mem_flatMap.mp hq
  have hchild := child_mem_preorder hp hc
  suffices hall : ∀ q ∈ (p.child c).preorder, ∃ i ≤ p.id, q.nearest kind = some i from hall q hq
  apply preorder_induction
  · exact ⟨p.id,Nat.le_refl _,by rw [nearest_child (.inr hk),if_pos hk]⟩
  · rintro q hq ⟨i,hi,hq'⟩ d hd
    rw [nearest_child (.inl (ancestors_ne_nil (List.cons_ne_nil _ _) q hq))]
    split
    · have hle := h.id_le hchild q hq
      have hlt := h.child_id_lt hp hc
      exact ⟨q.id,Nat.le_trans hle (Nat.le_of_lt hlt),rfl⟩
    · exact ⟨i,hi,hq'⟩

lemma contributed_eq_nil (hb : p.nearest isBoundary ≠ some scope)
    (hs : p.nearest opensScope ≠ some scope) : p.contributed scope = [] := by
  unfold contributed
  split <;> simp_all

lemma contributed_eq_nil_of_role (h : p.node.role = .inner) : p.contributed scope = [] := by
  unfold Tree.role at h
  unfold contributed
  split <;> simp_all

end Position

/-- Below the root, only functions are boundaries. -/
theorem Parsed.isBoundary_eq {bytes : List UInt8} {root : Tree} {p : Position}
    (h : Parsed bytes root) (hp : p ∈ root.top.preorder) (hne : p.ancestors ≠ []) :
    p.isBoundary = p.node.isFunction := by
  rw [Position.isBoundary,h.isProgram_eq hp]
  simp [hne]

end ScriptLint
