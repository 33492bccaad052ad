import Mathlib
import ScriptLint.Tree.Basic

/-! Positions of a tree, from the top down and from a node up. Where the nodes are numbered in the
order in which they are finished, a number stands for one position. -/
namespace ScriptLint
namespace Position

@[simp] theorem child_node (p : Position) (c : Tree) : (p.child c).node = c := rfl
@[simp] theorem child_id (p : Position) (c : Tree) : (p.child c).id = c.id := rfl
@[simp] theorem child_ancestors (p : Position) (c : Tree) :
    (p.child c).ancestors = p.node :: p.ancestors := rfl

theorem preorder_eq (p : Position) :
    p.preorder = p :: p.node.children.flatMap fun c => (p.child c).preorder := by
  rw [preorder_eq_children,children,List.flatMap_map]

theorem postorder_eq (p : Position) :
    p.postorder = (p.node.children.flatMap fun c => (p.child c).postorder) ++ [p] := by
  rw [postorder]
  simp [List.flatMap]

theorem below_induction {P : Position → Prop}
    (step : ∀ p : Position, (∀ c ∈ p.node.children, P (p.child c)) → P p) (p : Position) : P p := by
  obtain ⟨t,ancestors⟩ := p
  induction t using Tree.below_induction generalizing ancestors with
  | step t ih => exact step ⟨t,ancestors⟩ fun c hc => ih c hc (t :: ancestors)

theorem map_node_postorder (p : Position) : p.postorder.map node = p.node.postorder := by
  induction p using below_induction with
  | step p ih =>
    rw [postorder_eq,Tree.postorder,List.map_append,List.map_flatMap]
    congr 1
    rw [List.flatMap_congr ih]
    simp [List.flatMap]

theorem postorder_perm (p : Position) : p.postorder.Perm p.preorder := by
  induction p using below_induction with
  | step p ih =>
    rw [postorder_eq,preorder_eq]
    exact (List.perm_append_singleton ..).trans ((List.Perm.flatMap_left _ ih).cons p)

variable {p q root : Position} {c : Tree}

theorem mem_preorder :
    q ∈ p.preorder ↔ q = p ∨ ∃ c ∈ p.node.children, q ∈ (p.child c).preorder := by
  rw [preorder_eq,List.mem_cons,List.mem_flatMap]

theorem self_mem_preorder (p : Position) : p ∈ p.preorder := mem_preorder.mpr (.inl rfl)

theorem preorder_sublist (h : q ∈ p.preorder) : q.preorder.Sublist p.preorder := by
  induction p using below_induction with
  | step p ih =>
    rcases mem_preorder.mp h with rfl | ⟨c,hc,hq⟩
    · exact List.Sublist.refl _
    · rw [preorder_eq p]
      refine (ih c hc hq).trans (.cons _ ?_)
      exact List.sublist_flatten_of_mem (List.mem_map_of_mem hc)

theorem postorder_sublist (h : q ∈ p.preorder) : q.postorder.Sublist p.postorder := by
  induction p using below_induction with
  | step p ih =>
    rcases mem_preorder.mp h with rfl | ⟨c,hc,hq⟩
    · exact List.Sublist.refl _
    · rw [postorder_eq p]
      refine (ih c hc hq).trans (.trans ?_ (List.sublist_append_left ..))
      exact List.sublist_flatten_of_mem (List.mem_map_of_mem hc)

theorem child_mem_preorder (h : q ∈ p.preorder) (hc : c ∈ q.node.children) :
    q.child c ∈ p.preorder :=
  (preorder_sublist h).subset (mem_preorder.mpr (.inr ⟨c,hc,self_mem_preorder _⟩))

/-- What holds at the top and passes on to the nodes directly below holds at every position. -/
theorem preorder_induction {P : Position → Prop} (top : P root)
    (step : ∀ p ∈ root.preorder, P p → ∀ c ∈ p.node.children, P (p.child c)) :
    ∀ p ∈ root.preorder, P p := by
  induction root using below_induction with
  | step root ih =>
    intro p hp
    rcases mem_preorder.mp hp with rfl | ⟨c,hc,hp⟩
    · exact top
    · have hchild := child_mem_preorder (self_mem_preorder root) hc
      refine ih c hc (step root (self_mem_preorder root) top c hc) ?_ p hp
      intro q hq
      exact step q ((preorder_sublist hchild).subset hq)

lemma ancestors_ne_nil (hne : p.ancestors ≠ []) : ∀ q ∈ p.preorder, q.ancestors ≠ [] :=
  preorder_induction hne fun _ _ _ _ _ => List.cons_ne_nil _ _

theorem eq_or_child :
    ∀ p ∈ root.preorder, p = root ∨ ∃ q ∈ root.preorder, ∃ c ∈ q.node.children, p = q.child c := by
  apply preorder_induction
  · exact .inl rfl
  · intro q hq _ c hc
    exact .inr ⟨q,hq,c,hc,rfl⟩

/-- The positions of some nodes, each below the next. -/
def outward : List Tree → List Position
  | [] => []
  | t :: above => ⟨t,above⟩ :: outward above

/-- The positions above, the nearest first. -/
def above (p : Position) : List Position := outward p.ancestors

@[simp] theorem above_child (p : Position) (c : Tree) : (p.child c).above = p :: p.above := rfl

theorem outward_append (inner outer : List Tree) :
    ∃ between, outward (inner ++ outer) = between ++ outward outer ∧
      between.map node = inner := by
  induction inner with
  | nil => exact ⟨[],rfl,rfl⟩
  | cons t inner ih =>
    obtain ⟨between,h,hnodes⟩ := ih
    exact ⟨⟨t,inner ++ outer⟩ :: between,by simp [outward,h],by simp [hnodes]⟩

/-- The node directly above. -/
theorem parent_mem {n parent : Tree} {above : List Tree} (hroot : root.ancestors = [])
    (h : ⟨n,parent :: above⟩ ∈ root.preorder) :
    ⟨parent,above⟩ ∈ root.preorder ∧ n ∈ parent.children := by
  rcases eq_or_child _ h with he | ⟨q,hq,c,hc,he⟩
  · rw [← he] at hroot
    contradiction
  · cases he
    exact ⟨hq,hc⟩

/-- A position is below a child of each position above it. -/
theorem below_of_mem_above (hroot : root.ancestors = []) :
    ∀ p ∈ root.preorder, ∀ q ∈ p.above,
      q ∈ root.preorder ∧ ∃ c ∈ q.node.children, p ∈ (q.child c).preorder := by
  apply preorder_induction
  · intro q hq
    rw [above,hroot] at hq
    contradiction
  · intro o ho ih c hc q hq
    rw [above_child,List.mem_cons] at hq
    rcases hq with rfl | hq
    · exact ⟨ho,c,hc,self_mem_preorder _⟩
    · obtain ⟨hmem,d,hd,hbelow⟩ := ih q hq
      exact ⟨hmem,d,hd,child_mem_preorder hbelow hc⟩

end Position

namespace Tree

/-- A tree as a position of its own. -/
def top (t : Tree) : Position := ⟨t,[]⟩

/-- The table of the nodes of a tree. -/
abbrev table (t : Tree) : SyntaxTree := ⟨some t⟩

/-- The positions that are taken off the stack are all positions, each before those below it. -/
theorem preorder_table (t : Tree) : t.table.preorder = t.top.preorder := by
  change Position.unstack [t.top] = _
  rw [Position.unstack_eq,List.flatMap_singleton]

/-- The nodes are numbered from zero in the order in which they are finished. -/
def Numbered (root : Tree) : Prop := root.postorder.map Tree.id = List.range (root.id + 1)

namespace Numbered
open Position
variable {root c : Tree} {p q : Position}

theorem map_id_postorder (h : root.Numbered) :
    root.top.postorder.map Position.id = List.range (root.id + 1) := by
  have hnodes : root.top.postorder.map Position.id =
      (root.top.postorder.map Position.node).map Tree.id := by
    rw [List.map_map]
    rfl
  rw [hnodes,map_node_postorder]
  exact h

theorem perm_preorder (h : root.Numbered) :
    (root.top.preorder.map Position.id).Perm (List.range (root.id + 1)) := by
  rw [← h.map_id_postorder]
  exact (root.top.postorder_perm.map _).symm

theorem nodup (h : root.Numbered) : (root.top.preorder.map Position.id).Nodup :=
  h.perm_preorder.nodup_iff.mpr List.nodup_range

theorem eq_of_id (h : root.Numbered) (hp : p ∈ root.top.preorder) (hq : q ∈ root.top.preorder)
    (hid : p.id = q.id) : p = q :=
  List.inj_on_of_nodup_map h.nodup hp hq hid

/-- A node is finished after those directly below it. -/
theorem child_id_lt (h : root.Numbered) (hp : p ∈ root.top.preorder) (hc : c ∈ p.node.children) :
    c.id < p.id := by
  have hsorted : (root.top.postorder.map Position.id).Pairwise (· < ·) := by
    rw [h.map_id_postorder]
    exact List.pairwise_lt_range
  have hbelow := hsorted.sublist ((postorder_sublist hp).map _)
  rw [postorder_eq,List.map_append,List.pairwise_append] at hbelow
  refine hbelow.2.2 c.id ?_ p.id (by simp)
  refine List.mem_map.mpr ⟨p.child c,List.mem_flatMap.mpr ⟨c,hc,?_⟩,rfl⟩
  exact (p.child c).postorder_perm.mem_iff.mpr (self_mem_preorder _)

theorem id_le (h : root.Numbered) (hp : p ∈ root.top.preorder) : ∀ q ∈ p.preorder, q.id ≤ p.id := by
  apply preorder_induction
  · exact Nat.le_refl _
  · intro q hq ih c hc
    exact Nat.le_trans (Nat.le_of_lt (h.child_id_lt ((preorder_sublist hp).subset hq) hc)) ih

theorem above_id_lt (h : root.Numbered) (hp : p ∈ root.top.preorder) (hq : q ∈ p.above) :
    p.id < q.id := by
  obtain ⟨hmem,c,hc,hbelow⟩ := below_of_mem_above rfl p hp q hq
  exact Nat.lt_of_le_of_lt (h.id_le (child_mem_preorder hmem hc) p hbelow) (h.child_id_lt hmem hc)

/-- The position of a number is found at its place. -/
theorem positions_getElem (h : root.Numbered) {i : Nat} :
    root.table.positions[i]? = some p ↔ p ∈ root.top.preorder ∧ p.id = i := by
  have htable : root.table.positions[i]? = root.top.postorder[i]? := List.getElem?_toArray ..
  have hnumber {i : Nat} {q : Position} (hq : root.top.postorder[i]? = some q) : q.id = i := by
    have hi := congrArg (·[i]?) h.map_id_postorder
    simp only [List.getElem?_map,hq,Option.map_some] at hi
    obtain ⟨_,hi⟩ := List.getElem?_eq_some_iff.mp hi.symm
    rw [← hi,List.getElem_range]
  rw [htable]
  constructor
  · intro hp
    exact ⟨root.top.postorder_perm.mem_iff.mp (List.mem_of_getElem? hp),hnumber hp⟩
  · rintro ⟨hp,rfl⟩
    obtain ⟨j,hj⟩ := List.mem_iff_getElem?.mp (root.top.postorder_perm.mem_iff.mpr hp)
    rwa [hnumber hj]

end Numbered
end Tree
end ScriptLint
