import Mathlib
import ScriptLint.Tree.Basic

/-! Chains of nodes along which a parser calls itself: from a `new` to its callee, from a power to
its right operand, from a unary operator to its argument and from an assignment to its value. -/
namespace ScriptLint.Tree

/-- The node that comes after a node on a chain. -/
def next? (t : Tree) : Option Tree :=
  match t.shape with
  | .construct callee _ => some callee
  | .binary .pow _ right => some right
  | .unary _ argument => some argument
  | .assignment _ _ value => some value
  | _ => none

/-- The nodes whose next node is read one level deeper. -/
def isCapped (t : Tree) : Bool :=
  match t.shape with
  | .unary .. | .assignment .. => true
  | _ => false

variable {t u : Tree}

theorem mem_children_of_next (h : t.next? = some u) : u ∈ t.children := by
  obtain ⟨i,span,shape⟩ := t
  cases shape with
  | construct | unary =>
    cases h
    exact .head _
  | assignment =>
    cases h
    exact .tail _ (.head _)
  | binary op =>
    cases op with
    | pow =>
      cases h
      exact .tail _ (.head _)
    | _ => cases h
  | _ => cases h

/-- How many nodes of the chain that begins at a node are capped. -/
def strain (t : Tree) : Nat :=
  match _h : t.next? with
  | some u => t.isCapped.toNat + strain u
  | none => 0
termination_by t
decreasing_by exact sizeOf_child_lt (mem_children_of_next _h)

theorem strain_of_next (h : t.next? = some u) : t.strain = t.isCapped.toNat + u.strain := by
  rw [strain]
  split
  next h' => rw [Option.some.inj (h'.symm.trans h)]
  next h' => cases h'.symm.trans h

theorem strain_of_none (h : t.next? = none) : t.strain = 0 := by
  rw [strain]
  split
  next h' => cases h'.symm.trans h
  next => rfl

/-- The nodes that come one after the other on a chain. -/
def Linked (chain : List Tree) : Prop := chain.IsChain fun t u => t.next? = some u

/-- The links of a chain that lead from capped nodes are counted by its first node. -/
theorem countP_le_strain {chain : List Tree} (h : Linked (t :: chain)) :
    (t :: chain).dropLast.countP isCapped ≤ t.strain := by
  induction chain generalizing t with
  | nil => exact Nat.zero_le _
  | cons u chain ih =>
    obtain ⟨hnext,hchain⟩ := List.isChain_cons_cons.mp h
    have hle := ih hchain
    rw [List.dropLast_cons_of_ne_nil (by simp),List.countP_cons,strain_of_next hnext]
    cases t.isCapped <;> simp <;> omega

end ScriptLint.Tree
