import ScriptLint.Proofs.Arena
import ScriptLint.Proofs.Findings

/-! The statement before another one, told from the nodes above it alone: where it stands, how far up
it is found, and what is passed on the way there. -/
namespace ScriptLint
namespace Tree

/-- The statements that hold others without a list of their own, and the parts of such a one. -/
def isContainer (t : Tree) : Bool :=
  match t.shape with
  | .ifStatement .. | .forLoop .. | .forIn .. | .forOf .. | .whileLoop .. | .doWhile ..
  | .withStatement .. | .labeled .. | .tryStatement .. | .catchClause .. => true
  | _ => false

end Tree

/-- Nothing runs before `n` inside of `around`, and what runs before `around` does so before `n`: it
begins a block that is not the body of a function, or it is in a container. -/
def Opens (n around : Tree) (outer : Option Tree) : Prop :=
  (∃ rest, around.shape = .block (n :: rest) ∧ ∀ f ∈ outer, f.isFunction = false) ∨ around.isContainer

/-- Of some nodes, each below the next, the one at place `k` has `before` right before itself in the
list of statements it is in, and those at the places before `k` open what they are in. -/
structure Preceded (chain : List Tree) (k : Nat) (before : Tree) : Prop where
  beside : ∃ n holder, chain[k]? = some n ∧ chain[k + 1]? = some holder ∧
    [before,n] <:+: holder.statements
  passed : ∀ j < k, ∃ n around, chain[j]? = some n ∧ chain[j + 1]? = some around ∧
    Opens n around chain[j + 2]?

/-- The nodes from a position up to the root. -/
def Position.chain (p : Position) : List Tree := p.node :: p.ancestors

section Chains
variable {n m before : Tree} {above : List Tree} {k : Nat}

lemma preceded_zero : Preceded (n :: m :: above) 0 before ↔ [before,n] <:+: m.statements := by
  constructor
  · rintro ⟨⟨_,_,⟨⟩,⟨⟩,h⟩,_⟩
    exact h
  · intro h
    exact ⟨⟨n,m,rfl,rfl,h⟩,fun j hj => absurd hj (Nat.not_lt_zero j)⟩

lemma preceded_succ :
    Preceded (n :: m :: above) (k + 1) before ↔
      Opens n m above.head? ∧ Preceded (m :: above) k before := by
  constructor
  · rintro ⟨hbeside,hpassed⟩
    obtain ⟨_,_,⟨⟩,⟨⟩,hopens⟩ := hpassed 0 (Nat.succ_pos k)
    refine ⟨by simpa [List.head?_eq_getElem?] using hopens,hbeside,?_⟩
    intro j hj
    exact hpassed (j + 1) (Nat.succ_lt_succ hj)
  · rintro ⟨hopens,hbeside,hpassed⟩
    refine ⟨hbeside,?_⟩
    intro j hj
    cases j with
    | zero => exact ⟨n,m,rfl,rfl,by simpa [List.head?_eq_getElem?] using hopens⟩
    | succ j => exact hpassed j (Nat.lt_of_succ_lt_succ hj)

lemma not_preceded_singleton : ¬ Preceded [n] k before := by
  rintro ⟨⟨_,_,_,h,_⟩,_⟩
  simp at h

/-- A chain of at least two nodes: either the first node has something before it in its list, or the
search goes on above. -/
theorem exists_preceded :
    (∃ k, Preceded (n :: m :: above) k before) ↔
      [before,n] <:+: m.statements ∨
        Opens n m above.head? ∧ ∃ k, Preceded (m :: above) k before := by
  constructor
  · rintro ⟨_ | k,h⟩
    · exact .inl (preceded_zero.mp h)
    · obtain ⟨hopens,h⟩ := preceded_succ.mp h
      exact .inr ⟨hopens,k,h⟩
  · rintro (h | ⟨hopens,k,h⟩)
    · exact ⟨0,preceded_zero.mpr h⟩
    · exact ⟨k + 1,preceded_succ.mpr ⟨hopens,h⟩⟩

/-- Neither a list of statements nor what is passed on the way to it is a switch. -/
theorem Preceded.isSwitch_eq_false (h : Preceded (n :: above) k before) :
    ∀ u ∈ above.take (k + 1), u.isSwitch = false := by
  induction k generalizing n above with
  | zero =>
    obtain ⟨_,holder,_,hholder,hbeside⟩ := h.beside
    intro u hu
    cases above with
    | nil => simp at hu
    | cons m above =>
      obtain rfl : u = m := by simpa using hu
      obtain rfl := Option.some.inj hholder
      have hmem := hbeside.subset (.head _)
      unfold Tree.statements at hmem
      split at hmem <;> simp_all [Tree.isSwitch]
  | succ k ih =>
    cases above with
    | nil => exact absurd h not_preceded_singleton
    | cons m above =>
      obtain ⟨hopens,h⟩ := preceded_succ.mp h
      rw [List.take_succ_cons]
      refine List.forall_mem_cons.mpr ⟨?_,ih h⟩
      rcases hopens with ⟨rest,hm,_⟩ | hm
      · exact Tree.isKind_of_shape hm _
      · unfold Tree.isContainer at hm
        split at hm <;> simp_all [Tree.isSwitch]

end Chains

/-! A list of nodes without repeated numbers holds at most one node right before another one. -/
section Previous
variable {n before : Tree} {ts : List Tree}

lemma previous_eq_none_of_not_mem (h : n.id ∉ ts.map Tree.id) : previous? n.id ts = none := by
  fun_induction previous? n.id ts with
  | case1 a b rest hb => simp [hb] at h
  | case2 a b rest hb ih => exact ih fun hmem => h (.tail _ hmem)
  | case3 => rfl

theorem previous_eq_some_iff (hn : (ts.map Tree.id).Nodup) (hmem : n ∈ ts) :
    previous? n.id ts = some before ↔ [before,n] <:+: ts := by
  constructor
  · intro h
    obtain ⟨inner,b,outer,hts,hb⟩ := previous_eq_some h
    have hbmem : b ∈ ts := by simp [hts]
    obtain rfl : b = n := List.inj_on_of_nodup_map hn hbmem hmem hb
    exact ⟨inner,outer,by simp [hts]⟩
  · rintro ⟨inner,outer,rfl⟩
    clear hmem
    induction inner with
    | nil => simp [previous?]
    | cons a inner ih =>
      have htail : ((inner ++ [before,n] ++ outer).map Tree.id).Nodup := by
        simp only [List.cons_append,List.map_cons,List.nodup_cons] at hn
        exact hn.2
      cases inner with
      | nil =>
        have hne : before.id ≠ n.id := by
          simp only [List.nil_append,List.cons_append,List.map_cons,List.nodup_cons,
            List.mem_cons,not_or] at htail
          exact htail.1.1
        simp [previous?,hne]
      | cons b inner =>
        have hne : b.id ≠ n.id := by
          simp only [List.cons_append,List.map_cons,List.nodup_cons] at htail
          exact fun he => htail.1 (by simp [he])
        simpa [previous?,hne] using ih htail

theorem previous_eq_none_iff (hn : (ts.map Tree.id).Nodup) (hmem : n ∈ ts) :
    previous? n.id ts = none ↔ ∃ rest, ts = n :: rest := by
  constructor
  · intro h
    obtain ⟨inner,outer,rfl⟩ := List.append_of_mem hmem
    rcases List.eq_nil_or_concat inner with rfl | ⟨front,a,rfl⟩
    · exact ⟨outer,rfl⟩
    · have hsome : previous? n.id (front.concat a ++ n :: outer) = some a :=
        (previous_eq_some_iff hn hmem).mpr ⟨front,outer,by simp⟩
      rw [h] at hsome
      contradiction
  · rintro ⟨rest,rfl⟩
    cases rest with
    | nil => rfl
    | cons b rest =>
      simp only [List.map_cons,List.nodup_cons,List.mem_cons,not_or] at hn
      rw [previous?,if_neg fun he => hn.1.1 he.symm]
      exact previous_eq_none_of_not_mem (by simpa using hn.1)

end Previous

namespace Parsed
open Position
variable {bytes : List UInt8} {root before n m : Tree} {above : List Tree} {p : Position}
  (h : Parsed bytes root)
include h

/-- The nodes below a node have numbers of their own. -/
lemma nodup_children (hp : p ∈ root.top.preorder) : (p.node.children.map Tree.id).Nodup := by
  have hnodup := h.numbered.flatMap_childIds_perm.nodup_iff.mpr List.nodup_range
  have hid : p.id ∈ List.range (root.id + 1) :=
    h.numbered.perm_preorder.mem_iff.mp (List.mem_map_of_mem hp)
  have hchildren := (List.nodup_flatMap.mp hnodup).1 p.id hid
  rwa [h.numbered.childIds_eq hp] at hchildren

lemma nodup_statements (hp : p ∈ root.top.preorder) : (p.node.statements.map Tree.id).Nodup :=
  (h.nodup_children hp).sublist (p.node.statements_sublist.map _)

/-- One step of the search in a list: the node before is found, or the list begins with the node and
the search goes on above. -/
lemma predecessorFrom_block {body : List Tree} (hm : ⟨m,above⟩ ∈ root.top.preorder)
    (hs : m.shape = .block body) (hn : n ∈ body) :
    predecessorFrom n (m :: above) = some before ↔
      [before,n] <:+: body ∨
        (∃ rest, body = n :: rest ∧ ∀ f ∈ above.head?, f.isFunction = false) ∧
          predecessorFrom m above = some before := by
  have hnodup : (body.map Tree.id).Nodup := by
    have := h.nodup_statements hm
    rwa [Tree.statements,hs] at this
  have hsome : previous? n.id body = some before ↔ [before,n] <:+: body :=
    previous_eq_some_iff hnodup hn
  have hnone := previous_eq_none_iff hnodup hn
  rw [predecessorFrom,hs]
  dsimp only
  cases hprevious : previous? n.id body with
  | some a =>
    rw [hprevious] at hsome hnone
    rw [← hsome]
    constructor
    · exact .inl
    · rintro (hbefore | ⟨⟨rest,hbody,_⟩,_⟩)
      · exact hbefore
      · cases hnone.mpr ⟨rest,hbody⟩
  | none =>
    rw [hprevious] at hsome hnone
    obtain ⟨rest,rfl⟩ := hnone.mp rfl
    rw [← hsome]
    cases above with
    | nil => simp [predecessorFrom]
    | cons outer above =>
      cases hf : outer.isFunction <;> simp [hf]

/-- Nothing comes before the first statement of a program, which is in nothing else. -/
lemma predecessorFrom_program {body : List Tree} (hm : ⟨m,above⟩ ∈ root.top.preorder)
    (hs : m.shape = .program body) (hn : n ∈ body) :
    predecessorFrom n (m :: above) = some before ↔ [before,n] <:+: body := by
  have hnodup : (body.map Tree.id).Nodup := by
    have := h.nodup_statements hm
    rwa [Tree.statements,hs] at this
  have habove : above = [] := by
    have := h.isProgram_eq hm
    rw [Tree.isProgram,Tree.isKind_of_shape hs] at this
    exact List.isEmpty_iff.mp this.symm
  subst habove
  rw [← previous_eq_some_iff hnodup hn,predecessorFrom,hs]
  dsimp only
  cases previous? n.id body <;> rfl

lemma predecessorFrom_case {test : Option Tree} {body : List Tree}
    (hm : ⟨m,above⟩ ∈ root.top.preorder) (hs : m.shape = .switchCase test body)
    (hn : n ∈ m.children) :
    predecessorFrom n (m :: above) = some before ↔ [before,n] <:+: body := by
  have hnodup := h.nodup_children hm
  rw [Tree.children,hs,Shape.children] at hn hnodup
  rw [predecessorFrom,hs]
  dsimp only
  rcases List.mem_append.mp hn with htest | hbody
  · -- The test of a case is not among its statements.
    have hnot : n.id ∉ body.map Tree.id := by
      rw [List.map_append,List.nodup_append] at hnodup
      intro hmem
      exact hnodup.2.2 _ (List.mem_map_of_mem htest) _ hmem rfl
    rw [previous_eq_none_of_not_mem hnot]
    refine iff_of_false (by simp) fun hadjacent => hnot ?_
    exact List.mem_map_of_mem (hadjacent.subset (by simp))
  · rw [List.map_append,List.nodup_append] at hnodup
    exact previous_eq_some_iff hnodup.2.1 hbody

/-- One step of the search. -/
theorem predecessorFrom_step (hp : ⟨n,m :: above⟩ ∈ root.top.preorder) :
    predecessorFrom n (m :: above) = some before ↔
      [before,n] <:+: m.statements ∨
        Opens n m above.head? ∧ predecessorFrom m above = some before := by
  obtain ⟨hm,hn⟩ := parent_mem rfl hp
  obtain ⟨i,span,shape⟩ := m
  cases shape with
  | block body =>
    rw [h.predecessorFrom_block hm rfl hn]
    simp [Opens,Tree.statements,Tree.shape,Tree.isContainer]
  | program body =>
    rw [h.predecessorFrom_program hm rfl hn]
    simp [Opens,Tree.statements,Tree.shape,Tree.isContainer]
  | switchCase test body =>
    rw [h.predecessorFrom_case hm rfl hn]
    simp [Opens,Tree.statements,Tree.shape,Tree.isContainer]
  | _ => simp [predecessorFrom,Opens,Tree.statements,Tree.shape,Tree.isContainer]

/-- The whole search, by induction on the nodes above. -/
theorem predecessorFrom_iff {ancestors : List Tree} (hp : ⟨n,ancestors⟩ ∈ root.top.preorder) :
    predecessorFrom n ancestors = some before ↔ ∃ k, Preceded (n :: ancestors) k before := by
  induction ancestors generalizing n with
  | nil =>
    refine iff_of_false (by simp [predecessorFrom]) ?_
    rintro ⟨_,hk⟩
    exact not_preceded_singleton hk
  | cons m above ih =>
    rw [h.predecessorFrom_step hp,exists_preceded,ih (parent_mem rfl hp).1]

/-- The nodes from a position up are below each other, so that their numbers grow. -/
theorem chain_spec (hp : p ∈ root.top.preorder) {k : Nat} (hn : p.chain[k]? = some n)
    (hm : p.chain[k + 1]? = some m) : n ∈ m.children ∧ n.id < m.id := by
  obtain ⟨u,ancestors⟩ := p
  induction k generalizing u ancestors with
  | zero =>
    cases ancestors with
    | nil => contradiction
    | cons v above =>
      cases hn
      cases hm
      obtain ⟨hv,hu⟩ := parent_mem rfl hp
      exact ⟨hu,h.numbered.child_id_lt hv hu⟩
  | succ k ih =>
    cases ancestors with
    | nil => contradiction
    | cons v above => exact ih v above (parent_mem rfl hp).1 hn hm

end Parsed

/-- The statement that runs right before another one is the one right before it in its list, or
right before the nearest node above it that does not open what it is in. There is at most one. It ends
before the other one begins, is in the same function, and no switch is in between. -/
theorem parseSource_predecessor {content : ByteArray} {t : SyntaxTree}
    (h : parseSource content = .ok t) {p : Position} (hp : p ∈ t.preorder) :
    (∀ before, p.predecessor? = some before ↔ ∃ k, Preceded p.chain k before) ∧
    (∀ j k before before', Preceded p.chain j before → Preceded p.chain k before' →
      before = before') ∧
    (∀ k n m, p.chain[k]? = some n → p.chain[k + 1]? = some m → n ∈ m.children ∧ n.id < m.id) ∧
    ∀ k before, Preceded p.chain k before →
      before.span.stop ≤ p.node.span.start ∧
      (∃ q ∈ t.preorder, q.node = before ∧ q.function? = p.function?) ∧
      ∀ u ∈ p.ancestors.take (k + 1), u.isSwitch = false := by
  obtain ⟨root,rfl,hparsed⟩ := parseSource_parsed h
  rw [root.preorder_table] at hp ⊢
  have hiff (before : Tree) : p.predecessor? = some before ↔ ∃ k, Preceded p.chain k before :=
    hparsed.predecessorFrom_iff hp
  refine ⟨hiff,?_,fun k n m => hparsed.chain_spec hp,?_⟩
  · intro j k before before' hj hk
    have hsome := (hiff before).mpr ⟨j,hj⟩
    rw [(hiff before').mpr ⟨k,hk⟩] at hsome
    exact (Option.some.inj hsome).symm
  · intro k before hk
    obtain ⟨q,hq,hnode,_,hfunction,hstop,_⟩ := hparsed.before_spec hp ((hiff before).mpr ⟨k,hk⟩) before
    exact ⟨hstop,⟨q,hq,hnode,hfunction⟩,hk.isSwitch_eq_false⟩

theorem parseSource_predecessor_sample :
    Preceded Sample.ret.chain 1 Sample.declaration ∧
      Sample.ret.predecessor? = some Sample.declaration := by
  have hpreceded : Preceded Sample.ret.chain 1 Sample.declaration := by
    refine ⟨⟨Sample.block,Sample.body,rfl,rfl,⟨[],[],rfl⟩⟩,?_⟩
    intro j hj
    obtain rfl : j = 0 := Nat.lt_one_iff.mp hj
    exact ⟨Sample.ret.node,Sample.block,rfl,rfl,.inl ⟨[],rfl,by rintro _ ⟨⟩; rfl⟩⟩
  have hspec := parseSource_predecessor Sample.parseSource_eq Sample.ret_mem
  exact ⟨hpreceded,(hspec.1 Sample.declaration).mpr ⟨1,hpreceded⟩⟩

end ScriptLint
