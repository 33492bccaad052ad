import ScriptLint.Predecessor
import ScriptLint.Proofs.Parsed

/-! The statement before another one. It stands right before the other one, or before a statement
around it, in a list of statements that belongs to the same function. -/
namespace ScriptLint

/-- The statements of a list that are run one after the other. -/
def Tree.statements (t : Tree) : List Tree :=
  match t.shape with
  | .block body | .program body | .switchCase _ body => body
  | _ => []

theorem previous_eq_some {id : NodeId} {ts : List Tree} {a : Tree} (h : previous? id ts = some a) :
    ∃ inner b outer, ts = inner ++ a :: b :: outer ∧ b.id = id := by
  fun_induction previous? id ts with
  | case1 a' b rest hb =>
    cases h
    exact ⟨[],b,rest,rfl,hb⟩
  | case2 a' b rest _ ih =>
    obtain ⟨inner,c,outer,hrest,hc⟩ := ih h
    exact ⟨a' :: inner,c,outer,by rw [hrest]; rfl,hc⟩
  | case3 => contradiction

/-- One step of the search: it ends in the list that holds the node, or goes on above. -/
lemma predecessorFrom_cons {t parent before : Tree} {above : List Tree}
    (h : predecessorFrom t (parent :: above) = some before) :
    parent.isFunction = false ∧ (previous? t.id parent.statements = some before ∨
      predecessorFrom parent above = some before) := by
  rw [predecessorFrom] at h
  cases hf : parent.isFunction with
  | true =>
    obtain ⟨_,_,_,_,hs⟩ := Tree.shape_of_isFunction hf
    rw [hs] at h
    contradiction
  | false =>
    refine ⟨rfl,?_⟩
    unfold Tree.statements
    split at h <;> grind

/-- Where the search ends: at a list that holds the node or one of those above it. -/
theorem predecessorFrom_eq_some {t before : Tree} {ancestors : List Tree}
    (h : predecessorFrom t ancestors = some before) :
    ∃ inner holder outer last, ancestors = inner ++ holder :: outer ∧
      (t :: inner).getLast? = some last ∧ previous? last.id holder.statements = some before ∧
      ∀ u ∈ inner ++ [holder], u.isFunction = false := by
  induction ancestors generalizing t with
  | nil => contradiction
  | cons parent above ih =>
    obtain ⟨hf,hhere | habove⟩ := predecessorFrom_cons h
    · exact ⟨[],parent,above,t,rfl,rfl,hhere,by simpa using hf⟩
    · obtain ⟨inner,holder,outer,last,habove,hlast,hprevious,hinner⟩ := ih habove
      refine ⟨parent :: inner,holder,outer,last,by rw [habove]; rfl,?_,hprevious,?_⟩
      · rwa [List.getLast?_cons_cons]
      · exact List.forall_mem_cons.mpr ⟨hf,hinner⟩

/-- From a position up to the list it is in, or that a position above it is in. -/
lemma Position.exists_last {root n holder : Tree} {inner outer : List Tree}
    (h : ⟨n,inner ++ holder :: outer⟩ ∈ root.top.preorder) :
    ⟨holder,outer⟩ ∈ root.top.preorder ∧ ∃ last ∈ holder.children,
      (n :: inner).getLast? = some last ∧
      ⟨n,inner ++ holder :: outer⟩ ∈ (Position.mk last (holder :: outer)).preorder := by
  induction inner generalizing n with
  | nil =>
    obtain ⟨hholder,hn⟩ := parent_mem rfl h
    exact ⟨hholder,n,hn,rfl,self_mem_preorder _⟩
  | cons t inner ih =>
    obtain ⟨ht,hn⟩ := parent_mem rfl h
    obtain ⟨hholder,last,hlast,hget,hmem⟩ := ih ht
    exact ⟨hholder,last,hlast,by rwa [List.getLast?_cons_cons],child_mem_preorder hmem hn⟩

/-- The statements of a list follow each other among the children of its node. -/
lemma Tree.statements_sublist (t : Tree) : t.statements.Sublist t.children := by
  unfold statements Tree.children
  split
  next hs => rw [hs]; exact List.Sublist.refl _
  next hs => rw [hs]; exact List.Sublist.refl _
  next hs => rw [hs]; exact List.sublist_append_right ..
  next => exact List.nil_sublist _

/-- The node before another one in the list of a node that is no method. -/
lemma Tree.isMethod_of_statements {t u : Tree} (h : u ∈ t.statements) : t.isMethod = false := by
  unfold statements at h
  unfold isMethod
  split at h <;> simp_all

namespace Parsed
open Position
variable {bytes : List UInt8} {root before : Tree} {p q : Position} (h : Parsed bytes root)
include h

/-- The statement before the one at a position: where it stands in the tree and in the file. -/
theorem predecessor_spec (hp : p ∈ root.top.preorder) (hb : p.predecessor? = some before) :
    ∃ inner holder outer, p.ancestors = inner ++ holder :: outer ∧
      (∀ u ∈ inner ++ [holder], u.isFunction = false) ∧
      ⟨before,holder :: outer⟩ ∈ root.top.preorder ∧ before.span.stop ≤ p.node.span.start := by
  obtain ⟨n,ancestors⟩ := p
  obtain ⟨inner,holder,outer,last,rfl,hlast,hprevious,hinner⟩ := predecessorFrom_eq_some hb
  obtain ⟨hholder,last',hmem,hlast',hbelow⟩ := exists_last hp
  obtain rfl : last = last' := Option.some.inj (hlast.symm.trans hlast')
  obtain ⟨front,next,back,hlist,hid⟩ := previous_eq_some hprevious
  have hsub := holder.statements_sublist
  have hbefore : before ∈ holder.children := hsub.subset (by simp [hlist])
  have hnext : next ∈ holder.children := hsub.subset (by simp [hlist])
  -- Numbers tell nodes apart, so the node after the one found is the one looked for.
  have hsame := h.numbered.eq_of_id (child_mem_preorder hholder hnext)
    (child_mem_preorder hholder hmem) hid
  obtain rfl : next = last := congrArg Position.node hsame
  refine ⟨inner,holder,outer,rfl,hinner,child_mem_preorder hholder hbefore,?_⟩
  have hordered := h.ordered_at hholder
    (Tree.isMethod_of_statements (u := before) (by simp [hlist]))
  have hpair : [before,next].Sublist holder.children := by
    refine .trans ?_ hsub
    rw [hlist]
    exact .trans (by simp) (List.sublist_append_right ..)
  have hstop : before.span.stop ≤ next.span.start := by
    simpa using hordered.sublist hpair
  exact Nat.le_trans hstop
    (h.span_within (child_mem_preorder hholder hnext) (List.cons_ne_nil _ _) _ hbelow).1

end Parsed
end ScriptLint
