import Mathlib
import ScriptLint.Proofs.Parsed

/-! Syntax trees as tables of numbered nodes. The table of an accepted file is one tree in the order
of its numbers: every node but the root is below exactly one other node, whose number is larger, and
going through the positions is going through the numbers depth first. -/
namespace ScriptLint

/-- The numbers of the nodes directly below a position. -/
def Position.childIds (p : Position) : List NodeId := p.node.children.map Tree.id

namespace SyntaxTree

/-- The numbers of the nodes directly below the node with a number. -/
def childIds (t : SyntaxTree) (i : NodeId) : List NodeId :=
  (t.positions[i]?.map Position.childIds).getD []

section Linking
variable {links : Array (Option NodeId)} {p : Position} {ps : List Position} {c i : NodeId}

theorem size_link (links : Array (Option NodeId)) (p : Position) :
    (link links p).size = links.size := by
  unfold link
  induction p.node.children generalizing links with
  | nil => rfl
  | cons n ns ih => rw [List.foldl_cons,ih,Array.size_setIfInBounds]

theorem size_foldl_link (links : Array (Option NodeId)) (ps : List Position) :
    (ps.foldl link links).size = links.size := by
  induction ps generalizing links with
  | nil => rfl
  | cons p ps ih => rw [List.foldl_cons,ih,size_link]

/-- A node that is linked is noted above the nodes directly below it and nowhere else. -/
theorem getElem_link (hc : c < links.size) :
    (link links p)[c]? = if c ∈ p.childIds then some (some p.id) else links[c]? := by
  unfold link Position.childIds
  induction p.node.children generalizing links with
  | nil => rfl
  | cons n ns ih =>
    have hsize : c < (links.setIfInBounds n.id (some p.id)).size := by
      rwa [Array.size_setIfInBounds]
    rw [List.foldl_cons,ih hsize,Array.getElem?_setIfInBounds]
    by_cases hn : n.id = c
    · simp [hn,hc]
    · simp [hn,Ne.symm hn]

/-- After some nodes were linked, a node is noted above exactly those directly below it, if no node is
below two others. -/
theorem getElem_foldl_link {n : Nat} (hnodup : (ps.flatMap Position.childIds).Nodup) (hc : c < n) :
    (ps.foldl link (Array.replicate n none))[c]?.join = some i ↔
      ∃ p ∈ ps, p.id = i ∧ c ∈ p.childIds := by
  induction ps using List.reverseRecOn with
  | nil => simp [hc]
  | append_singleton ps p ih =>
    have hsize : c < (ps.foldl link (Array.replicate n none)).size := by
      rwa [size_foldl_link,Array.size_replicate]
    rw [List.flatMap_append,List.flatMap_singleton,List.nodup_append] at hnodup
    obtain ⟨hnodup,-,hdisjoint⟩ := hnodup
    rw [List.foldl_concat,getElem_link hsize]
    by_cases hp : c ∈ p.childIds
    · have hothers : ∀ q ∈ ps, c ∉ q.childIds := fun q hq hcq =>
        hdisjoint c (List.mem_flatMap.mpr ⟨q,hq,hcq⟩) c hp rfl
      simp only [hp,if_true,Option.join_some,Option.some.injEq,List.mem_append,List.mem_singleton]
      grind
    · rw [if_neg hp,ih hnodup]
      simp only [List.mem_append,List.mem_singleton]
      grind

end Linking
end SyntaxTree

theorem Tree.getLast_positions (root : Tree) :
    root.table.positions.toList.getLast? = some root.top := by
  change root.top.postorder.getLast? = _
  rw [Position.postorder_eq,List.getLast?_concat]

/-- A number, and depth first those below it, as far as they are smaller. -/
def depthFirst (below : NodeId → List NodeId) (i : NodeId) : List NodeId :=
  i :: (below i).attach.flatMap fun c => if c.1 < i then depthFirst below c.1 else []

lemma depthFirst_eq {below : NodeId → List NodeId} {i : NodeId} (h : ∀ c ∈ below i, c < i) :
    depthFirst below i = i :: (below i).flatMap (depthFirst below) := by
  rw [depthFirst]
  congr 1
  conv_rhs => rw [← List.attach_map_subtype_val (below i)]
  rw [List.flatMap_map]
  exact List.flatMap_congr fun c _ => if_pos (h c.1 c.2)

namespace Position

/-- Of all positions from one on downwards, all but the first are directly below one of them. -/
theorem preorder_perm_children (p : Position) :
    (p.preorder.map Position.id).Perm (p.id :: p.preorder.flatMap Position.childIds) := by
  induction p using below_induction with
  | step p ih =>
    rw [preorder_eq,List.map_cons,List.map_flatMap,List.flatMap_cons,List.flatMap_assoc]
    refine .cons _ ((List.Perm.flatMap_left _ ih).trans ?_)
    exact (List.map_append_flatMap_perm ..).symm

end Position

namespace Tree.Numbered
open Position
open scoped List
variable {root : Tree} {p : Position} {i : NodeId} (h : root.Numbered)
include h

theorem size_eq : root.table.size = root.id + 1 := by
  rw [← List.length_range (n := root.id + 1),← h.map_id_postorder,List.length_map]
  rfl

theorem childIds_eq (hp : p ∈ root.top.preorder) :
    root.table.childIds p.id = p.childIds := by
  rw [SyntaxTree.childIds,h.positions_getElem.mpr ⟨hp,rfl⟩]
  rfl

theorem mem_childIds {c : NodeId} :
    c ∈ root.table.childIds i ↔
      ∃ p ∈ root.top.preorder, p.id = i ∧ ∃ n ∈ p.node.children, n.id = c := by
  constructor
  · intro hc
    unfold SyntaxTree.childIds at hc
    cases hp : root.table.positions[i]? with
    | none => simp [hp] at hc
    | some p =>
      obtain ⟨hmem,hid⟩ := h.positions_getElem.mp hp
      rw [hp] at hc
      exact ⟨p,hmem,hid,List.mem_map.mp hc⟩
  · rintro ⟨p,hp,rfl,hn⟩
    rw [h.childIds_eq hp]
    exact List.mem_map.mpr hn

/-- The root and all nodes directly below others are all nodes. -/
theorem root_cons_childIds_perm :
    root.id :: root.top.postorder.flatMap Position.childIds ~ List.range (root.id + 1) := by
  calc
    _ ~ root.id :: root.top.preorder.flatMap Position.childIds :=
      (root.top.postorder_perm.flatMap_right _).cons _
    _ ~ root.top.preorder.map Position.id := root.top.preorder_perm_children.symm
    _ ~ List.range (root.id + 1) := h.perm_preorder

/-- The children of all nodes are all nodes but the root. -/
theorem flatMap_childIds_perm :
    ((List.range (root.id + 1)).flatMap root.table.childIds).Perm (List.range root.id) := by
  have hchildren : (List.range (root.id + 1)).flatMap root.table.childIds =
      root.top.postorder.flatMap Position.childIds := by
    rw [← h.map_id_postorder,List.flatMap_map]
    exact List.flatMap_congr fun p hp =>
      h.childIds_eq (root.top.postorder_perm.mem_iff.mp hp)
  have hrange : List.range (root.id + 1) ~ root.id :: List.range root.id := by
    rw [List.range_succ]
    exact List.perm_append_singleton ..
  rw [hchildren]
  exact (h.root_cons_childIds_perm.trans hrange).cons_inv

/-- No node is directly below two others. -/
theorem nodup_childIds : (root.top.postorder.flatMap Position.childIds).Nodup :=
  (h.root_cons_childIds_perm.nodup_iff.mpr List.nodup_range).of_cons

/-- Linking the nodes one after the other gives each node the one that it is directly below. -/
theorem parentId_eq_some {c : NodeId} :
    root.table.parentId? c = some i ↔ c ∈ root.table.childIds i := by
  have hparents : root.table.parents = root.top.postorder.foldl SyntaxTree.link
      (Array.replicate root.table.size none) := List.foldl_toArray ..
  have hmem (p : Position) : p ∈ root.top.postorder ↔ p ∈ root.top.preorder :=
    root.top.postorder_perm.mem_iff
  rw [h.mem_childIds,SyntaxTree.parentId?,hparents]
  by_cases hc : c < root.table.size
  · rw [SyntaxTree.getElem_foldl_link h.nodup_childIds hc]
    simp only [hmem,Position.childIds,List.mem_map]
  · have hnone : (root.top.postorder.foldl SyntaxTree.link
        (Array.replicate root.table.size none))[c]? = none := by
      rw [Array.getElem?_eq_none_iff,SyntaxTree.size_foldl_link,Array.size_replicate]
      exact Nat.le_of_not_lt hc
    rw [hnone]
    refine ⟨fun hnot => by contradiction,fun hbelow => absurd ?_ hc⟩
    obtain ⟨p,hp,-,n,hn,rfl⟩ := hbelow
    rw [h.size_eq]
    exact Nat.lt_succ_of_lt
      (Nat.lt_of_lt_of_le (h.child_id_lt hp hn) (h.id_le (self_mem_preorder _) p hp))

theorem parentId_root : root.table.parentId? root.id = none := by
  rw [Option.eq_none_iff_forall_ne_some]
  intro i hi
  obtain ⟨p,hp,-,n,hn,hid⟩ := h.mem_childIds.mp (h.parentId_eq_some.mp hi)
  have hlt := h.child_id_lt hp hn
  rw [hid] at hlt
  exact Nat.not_le_of_lt hlt (h.id_le (self_mem_preorder _) p hp)

theorem map_id_preorder : ∀ p ∈ root.top.preorder,
    p.preorder.map Position.id = depthFirst root.table.childIds p.id := by
  intro p hp
  induction p using Position.below_induction with
  | step p ih =>
    have hlt : ∀ c ∈ root.table.childIds p.id, c < p.id := by
      intro c hc
      rw [h.childIds_eq hp] at hc
      obtain ⟨n,hn,rfl⟩ := List.mem_map.mp hc
      exact h.child_id_lt hp hn
    rw [depthFirst_eq hlt,h.childIds_eq hp,preorder_eq,List.map_cons,List.map_flatMap,
      Position.childIds,List.flatMap_map]
    congr 1
    exact List.flatMap_congr fun c hc => ih c hc (child_mem_preorder hp hc)

end Tree.Numbered

namespace Parsed
variable {bytes : List UInt8} {root : Tree} {p : Position} (h : Parsed bytes root)
include h

theorem isProgram_iff (hp : p ∈ root.top.preorder) : p.node.isProgram ↔ p.id = root.id := by
  rw [h.isProgram_eq hp,List.isEmpty_iff]
  constructor
  · intro hnil
    rcases Position.eq_or_child p hp with rfl | ⟨q,hq,c,hc,rfl⟩
    · rfl
    · contradiction
  · intro hid
    rw [h.numbered.eq_of_id hp (Position.self_mem_preorder _) hid]
    rfl

end Parsed

/-- The nodes of an accepted file form one tree in the order of their numbers. -/
theorem parseSource_table {content : ByteArray} {t : SyntaxTree} (h : parseSource content = .ok t) :
    ∃ root, t.root? = some root ∧
      t.positions.toList.getLast? = some root.top ∧ root.id + 1 = t.size ∧
      (∀ (i : NodeId) (p : Position), t.positions[i]? = some p → p.id = i) ∧
      (∀ p ∈ t.positions.toList, p.node.isProgram ↔ p.id = root.id) ∧
      ((List.range t.size).flatMap t.childIds).Perm (List.range root.id) ∧
      (∀ i, ∀ c ∈ t.childIds i, c < i) ∧
      (∀ c i, t.parentId? c = some i ↔ c ∈ t.childIds i) ∧ t.parentId? root.id = none ∧
      (t.preorder.map Position.id).Perm (List.range t.size) ∧
      t.preorder.map Position.id = depthFirst t.childIds root.id := by
  obtain ⟨root,rfl,hp⟩ := parseSource_parsed h
  have hn := hp.numbered
  rw [hn.size_eq]
  refine ⟨root,rfl,root.getLast_positions,rfl,fun i p hi => (hn.positions_getElem.mp hi).2,?_,
    hn.flatMap_childIds_perm,?_,fun c i => hn.parentId_eq_some,hn.parentId_root,?_,?_⟩
  · intro p hmem
    exact hp.isProgram_iff (root.top.postorder_perm.mem_iff.mp hmem)
  · intro i c hc
    obtain ⟨p,hmem,rfl,n,hmem',rfl⟩ := hn.mem_childIds.mp hc
    exact hn.child_id_lt hmem hmem'
  · rw [root.preorder_table]
    exact hn.perm_preorder
  · rw [root.preorder_table]
    exact hn.map_id_preorder _ (Position.self_mem_preorder _)

theorem parseSource_table_sample :
    (SyntaxTree.mk (some Sample.program)).size = 12 ∧
      (SyntaxTree.mk (some Sample.program)).parentId? 11 = none ∧
      (SyntaxTree.preorder ⟨some Sample.program⟩).map Position.id =
        depthFirst (SyntaxTree.childIds ⟨some Sample.program⟩) 11 := by
  obtain ⟨root,⟨⟩,_,hsize,_,_,_,_,_,hparent,_,hpreorder⟩ := parseSource_table Sample.parseSource_eq
  exact ⟨hsize.symm,hparent,hpreorder⟩

end ScriptLint
