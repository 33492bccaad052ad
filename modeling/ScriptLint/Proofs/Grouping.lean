import ScriptLint.Proofs.Rereading.Operand

/-! How a chain of names and binary operators is grouped. Of all trees whose names and operators are
those of the chain from left to right, there is one in which every operator has operands that bind at
least as strongly as it, more strongly on the side to which operators of its strength do not group.
The parser finds this tree. -/
namespace ScriptLint

/-- Operators and the names on the right of them. -/
abbrev Links := List (BinaryOperator × String)

namespace BinaryOperator

/-- Whether an operation may stand on the left of an operator without brackets. -/
def TakesLeft (op below : BinaryOperator) : Prop :=
  if op = .pow then op.precedence < below.precedence else op.precedence ≤ below.precedence

/-- Whether an operation may stand on the right of an operator without brackets. -/
def TakesRight (op below : BinaryOperator) : Prop :=
  if op = .pow then op.precedence ≤ below.precedence else op.precedence < below.precedence

lemma precedence_pos (op : BinaryOperator) : 1 ≤ op.precedence := by cases op <;> decide

/-- No operator but the power binds as strongly as it. -/
lemma precedence_lt_pow {op : BinaryOperator} (h : op ≠ .pow) :
    op.precedence < BinaryOperator.pow.precedence := by
  cases op <;> first | contradiction | decide

/-- The least precedence an operator may have on the left of this one. -/
def leftPrecedence (op : BinaryOperator) : Nat :=
  if op = .pow then op.precedence + 1 else op.precedence

lemma takesLeft_iff {op below : BinaryOperator} :
    op.TakesLeft below ↔ op.leftPrecedence ≤ below.precedence := by
  unfold TakesLeft leftPrecedence
  split <;> rfl

lemma takesRight_iff {op below : BinaryOperator} :
    op.TakesRight below ↔ op.rightPrecedence ≤ below.precedence := by
  unfold TakesRight rightPrecedence
  split <;> rfl

lemma precedence_le_left (op : BinaryOperator) : op.precedence ≤ op.leftPrecedence := by
  unfold leftPrecedence
  split <;> omega

lemma precedence_le_right (op : BinaryOperator) : op.precedence ≤ op.rightPrecedence := by
  unfold rightPrecedence
  split <;> omega

/-- What is too weak for the right side of an operator may have the operator on its own left. -/
lemma takesLeft_of_lt {op next : BinaryOperator} (h : next.precedence < op.rightPrecedence) :
    next.TakesLeft op := by
  unfold TakesLeft
  unfold rightPrecedence at h
  by_cases hop : op = .pow
  · subst hop
    rw [if_pos rfl] at h
    rw [if_neg (by rintro rfl; exact Nat.lt_irrefl _ h)]
    exact Nat.le_of_lt h
  · have hlt := precedence_lt_pow hop
    rw [if_neg hop] at h
    rw [if_neg (by rintro rfl; omega)]
    omega

/-- Two operators cannot each be an operand of the other, one on the left and one on the right. -/
lemma TakesLeft.not_takesRight {op next : BinaryOperator} (h : next.TakesLeft op) :
    ¬ op.TakesRight next := by
  intro hr
  unfold TakesLeft at h
  unfold TakesRight at hr
  by_cases hop : op = .pow
  · subst hop
    by_cases hnext : next = .pow
    · subst hnext
      exact Nat.lt_irrefl _ h
    · have hlt := precedence_lt_pow hnext
      rw [if_pos rfl] at hr
      omega
  · rw [if_neg hop] at hr
    split at h <;> omega

end BinaryOperator

namespace Tree
variable {t t' l r : Tree} {u v : String} {ls rs : Links} {op : BinaryOperator}

def operator? (t : Tree) : Option BinaryOperator :=
  match t.shape with
  | .binary op _ _ => some op
  | _ => none

/-- The names and operators of a tree from left to right: the first name, and the operators with the
names on their right. -/
inductive Strings : Tree → String → Links → Prop
  | name {i : NodeId} {span : Span} {u : String} : Strings (.node i span (.identifier u)) u []
  | binary {i : NodeId} {span : Span} {op : BinaryOperator} {l r : Tree} {u v : String}
      {ls rs : Links} (left : Strings l u ls) (right : Strings r v rs) :
      Strings (.node i span (.binary op l r)) u (ls ++ (op,v) :: rs)

/-- Every operator of a tree has operands that may stand beside it without brackets. -/
def Grouped (t : Tree) : Prop :=
  ∀ n ∈ t.preorder, ∀ op l r, n.shape = .binary op l r →
    (∀ below ∈ l.operator?, op.TakesLeft below) ∧ ∀ below ∈ r.operator?, op.TakesRight below

lemma grouped_identifier {i : NodeId} {span : Span} : (node i span (.identifier u)).Grouped := by
  intro n hn
  rcases mem_preorder.mp hn with rfl | ⟨c,hc,_⟩
  · intro op l r hs
    cases hs
  · cases hc

lemma grouped_binary {i : NodeId} {span : Span} :
    (node i span (.binary op l r)).Grouped ↔ l.Grouped ∧ r.Grouped ∧
      (∀ below ∈ l.operator?, op.TakesLeft below) ∧ ∀ below ∈ r.operator?, op.TakesRight below := by
  have hchildren : (node i span (.binary op l r)).children = [l,r] := rfl
  constructor
  · intro h
    have hchild (c : Tree) (hc : c ∈ [l,r]) : c.Grouped := fun n hn =>
      h n (mem_preorder.mpr (.inr ⟨c,hchildren ▸ hc,hn⟩))
    exact ⟨hchild l (by simp),hchild r (by simp),h _ (mem_preorder.mpr (.inl rfl)) op l r rfl⟩
  · rintro ⟨hl,hr,hhere⟩ n hn
    rcases mem_preorder.mp hn with rfl | ⟨c,hc,hnc⟩
    · intro op' l' r' hs
      cases hs
      exact hhere
    · rw [hchildren] at hc
      rcases List.mem_pair.mp hc with rfl | rfl
      · exact hl n hnc
      · exact hr n hnc

/-- The operator of a tree is one of those that it strings together. -/
lemma Strings.operator_mem (h : t.Strings u ls) : ∀ op ∈ t.operator?, ∃ v, (op,v) ∈ ls := by
  intro op hop
  cases h with
  | name => cases hop
  | binary =>
    cases hop
    exact ⟨_,List.mem_append_right _ (.head _)⟩

/-- No operator of a grouped tree binds more weakly than the operator of the whole tree. -/
theorem Strings.precedence_le {least : Nat} (h : t.Strings u ls) (ht : t.Grouped)
    (hroot : ∀ op ∈ t.operator?, least ≤ op.precedence) :
    ∀ link ∈ ls, least ≤ link.1.precedence := by
  induction h with
  | name => simp
  | @binary i span op l r u v ls rs _ _ ihl ihr =>
    obtain ⟨hl,hr,hleft,hright⟩ := grouped_binary.mp ht
    have hop : least ≤ op.precedence := hroot op rfl
    have hls := ihl hl fun below hbelow => calc
      _ ≤ op.precedence := hop
      _ ≤ op.leftPrecedence := op.precedence_le_left
      _ ≤ below.precedence := BinaryOperator.takesLeft_iff.mp (hleft below hbelow)
    have hrs := ihr hr fun below hbelow => calc
      _ ≤ op.precedence := hop
      _ ≤ op.rightPrecedence := op.precedence_le_right
      _ ≤ below.precedence := BinaryOperator.takesRight_iff.mp (hright below hbelow)
    intro link hlink
    rcases List.mem_append.mp hlink with hlink | hlink
    · exact hls link hlink
    · rcases List.mem_cons.mp hlink with rfl | hlink
      · exact hop
      · exact hrs link hlink

/-- All that is strung together on the left of an operator of a grouped tree may stand there. -/
lemma Strings.takesLeft (h : l.Strings u ls) (hl : l.Grouped)
    (hroot : ∀ below ∈ l.operator?, op.TakesLeft below) : ∀ link ∈ ls, op.TakesLeft link.1 := by
  intro link hlink
  rw [BinaryOperator.takesLeft_iff]
  exact h.precedence_le hl (fun b hb => BinaryOperator.takesLeft_iff.mp (hroot b hb)) link hlink

lemma Strings.takesRight (h : r.Strings u rs) (hr : r.Grouped)
    (hroot : ∀ below ∈ r.operator?, op.TakesRight below) : ∀ link ∈ rs, op.TakesRight link.1 := by
  intro link hlink
  rw [BinaryOperator.takesRight_iff]
  exact h.precedence_le hr (fun b hb => BinaryOperator.takesRight_iff.mp (hroot b hb)) link hlink

/-- A chain can be divided at one operator only so that all on its left and on its right may stand
there. -/
theorem divided_unique {op op' : BinaryOperator} {v v' : String} {ls' rs' : Links}
    (heq : ls ++ (op,v) :: rs = ls' ++ (op',v') :: rs') (hrs : ∀ link ∈ rs, op.TakesRight link.1)
    (hls' : ∀ link ∈ ls', op'.TakesLeft link.1) (hle : ls.length ≤ ls'.length) :
    ls = ls' ∧ op = op' ∧ v = v' ∧ rs = rs' := by
  obtain ⟨between,rfl,hrest⟩ | ⟨between,rfl,hrest⟩ := List.append_eq_append_iff.mp heq
  · cases between with
    | nil =>
      obtain ⟨hlink,rfl⟩ := List.cons.inj hrest
      obtain ⟨rfl,rfl⟩ := Prod.mk.inj hlink
      exact ⟨(List.append_nil _).symm,rfl,rfl,rfl⟩
    | cons link between =>
      -- The one operator would be on the left of the other and have it on its right.
      obtain ⟨rfl,rfl⟩ := List.cons.inj hrest
      exact absurd (hrs (op',v') (by simp)) (hls' (op,v) (by simp)).not_takesRight
  · cases between with
    | nil =>
      obtain ⟨hlink,rfl⟩ := List.cons.inj hrest
      obtain ⟨rfl,rfl⟩ := Prod.mk.inj hlink
      exact ⟨List.append_nil _,rfl,rfl,rfl⟩
    | cons link between =>
      rw [List.length_append,List.length_cons] at hle
      omega

/-- There is one way only to group a chain. -/
theorem Grouped.unique (ht : t.Grouped) (ht' : t'.Grouped) (h : t.Strings u ls)
    (h' : t'.Strings u ls) : t.outline = t'.outline := by
  induction h generalizing t' with
  | name =>
    generalize hlinks : ([] : Links) = links at h'
    cases h' with
    | name => exact outline_congr rfl
    | binary => simp at hlinks
  | @binary i span op l r u v ls rs hl hr ihl ihr =>
    generalize hlinks : ls ++ (op,v) :: rs = links at h'
    cases h' with
    | name => simp at hlinks
    | @binary i' span' op' l' r' _ v' ls' rs' hl' hr' =>
      obtain ⟨hgl,hgr,hleft,hright⟩ := grouped_binary.mp ht
      obtain ⟨hgl',hgr',hleft',hright'⟩ := grouped_binary.mp ht'
      have hsame : ls = ls' ∧ op = op' ∧ v = v' ∧ rs = rs' := by
        rcases Nat.le_total ls.length ls'.length with hle | hle
        · exact divided_unique hlinks (hr.takesRight hgr hright) (hl'.takesLeft hgl' hleft') hle
        · obtain ⟨rfl,rfl,rfl,rfl⟩ := divided_unique hlinks.symm (hr'.takesRight hgr' hright')
            (hl.takesLeft hgl hleft) hle
          exact ⟨rfl,rfl,rfl,rfl⟩
      obtain ⟨rfl,rfl,rfl,rfl⟩ := hsame
      refine outline_congr ?_
      rw [Shape.map,Shape.map,ihl hgl hgl' hl',ihr hgr hgr' hr']

end Tree

/-- The words of operators and the names on their right. -/
def linkWords (links : Links) : Words := links.flatMap fun link => [link.1.word,.name link.2]

lemma linkWords_append (ls rs : Links) : linkWords (ls ++ rs) = linkWords ls ++ linkWords rs :=
  List.flatMap_append

lemma length_linkWords (links : Links) : (linkWords links).length = 2 * links.length := by
  induction links with
  | nil => rfl
  | cons link links ih =>
    rw [show linkWords (link :: links) = link.1.word :: .name link.2 :: linkWords links from rfl,
      List.length_cons,List.length_cons,ih,List.length_cons]
    omega

namespace Grammar
variable {g : Productions} {s : Surroundings} {c d : Cursor} {n : Nat} {inHead : Bool}
  {u : String} {k : TokenKind} {ws : Words} {links : Links} {E : Halt → Prop}

/-- Whether an operator ends an expression instead of going on with it. -/
def Bars (inHead : Bool) (op : BinaryOperator) : Prop := inHead = true ∧ op = .isIn

instance (inHead : Bool) (op : BinaryOperator) : Decidable (Bars inHead op) :=
  inferInstanceAs (Decidable (_ ∧ _))

lemma binaryOperator_of_bars {op : BinaryOperator} (h : Bars inHead op) :
    binaryOperator? inHead op.word = none := by
  obtain ⟨rfl,rfl⟩ := h
  rfl

lemma binaryOperator_of_not_bars {op : BinaryOperator} (h : ¬ Bars inHead op) :
    binaryOperator? inHead op.word = some op := by
  cases op <;> cases inHead <;> first | rfl | exact absurd ⟨rfl,rfl⟩ h

lemma two_le_grip_word (op : BinaryOperator) : 2 ≤ grip inHead op.word := by
  cases op <;> cases inHead <;> decide

lemma Cursor.current_kind (h : c.rest.map Token.kind = k :: ws) : c.current.kind = k :=
  (List.cons.inj h).1

/-- Passing a token that others come after. -/
lemma Cursor.rest_advance (h : c.rest.map Token.kind = k :: ws) (hws : ws ≠ []) :
    c.advance.rest = c.rest.drop 1 := by
  obtain ⟨t,ts,stop,m⟩ := c
  have hahead : ts.map Token.kind = ws := (List.cons.inj h).2
  cases ts with
  | nil => exact absurd hahead.symm hws
  | cons v ts => rfl

/-- A name that nothing holds on to as tightly as an access does is an operand. -/
theorem unary_name (hs : s.nesting < maxNesting) (hc : c.rest.map Token.kind = .name u :: k :: ws)
    (hk : 2 ≤ grip inHead k) :
    Ends E (unary g) s c fun t d =>
      (∃ i span, t = .node i span (.identifier u)) ∧ d.rest = c.rest.drop 1 := by
  have hkind := Cursor.current_kind hc
  have hrest := Cursor.rest_advance hc (List.cons_ne_nil _ _)
  have hkinds : c.advance.rest.map Token.kind = k :: ws := by
    rw [hrest,List.map_drop,hc]
    rfl
  have hnext : 2 ≤ grip inHead c.advance.current.kind := by rwa [Cursor.current_kind hkinds]
  refine unary_ends hs (by rw [hkind]; rfl) (by rw [hkind]; rfl) fun _ => ?_
  simp only [access,ends_bind,ends_start,ends_atWord,hkind]
  rw [if_neg (by simp),ends_bind]
  simp only [primary,ends_bind,ends_start,ends_current,hkind,ends_advance,ends_finish]
  exact accessTail_ends (Nat.le_of_succ_le hnext)
    ⟨updateOperator_eq_none hnext,⟨_,_,rfl⟩,hrest⟩

/-- A tree that groups a chain and stops where an operator is too weak or ends the expression: `taken`
is what it takes after what it began with, and `rest` is what it leaves. -/
structure Climbs (inHead : Bool) (least : Nat) (u : String) (before taken rest : Links) (t : Tree) :
    Prop where
  strings : t.Strings u (before ++ taken)
  grouped : t.Grouped
  strong : ∀ link ∈ taken, least ≤ link.1.precedence ∧ ¬ Bars inHead link.1
  stop : ∀ link ∈ rest.head?, link.1.precedence < least ∨ Bars inHead link.1

/-- Where an operator may go on with a left operand, it may have it on its left. -/
def Ready (inHead : Bool) (links : Links) (left : Tree) : Prop :=
  ∀ link ∈ links.head?, ¬ Bars inHead link.1 → ∀ below ∈ left.operator?, link.1.TakesLeft below

section
variable {least : Nat} {before taken taken' rest rest' : Links} {left right t : Tree}
  {op : BinaryOperator} {v : String}

/-- A left operand that nothing goes on with. -/
lemma climbs_nil (hleft : left.Strings u before) (hgrouped : left.Grouped)
    (hstop : ∀ link ∈ links.head?, link.1.precedence < least ∨ Bars inHead link.1) :
    Climbs inHead least u before [] links left :=
  ⟨by rwa [List.append_nil],hgrouped,by simp,hstop⟩

/-- An operator whose right operand has taken all that is strong enough for it. -/
lemma Climbs.both {i : NodeId} {span : Span}
    (h : Climbs inHead op.rightPrecedence v [] taken rest right) (hop : ¬ Bars inHead op)
    (hleft : left.Strings u before) (hgrouped : left.Grouped)
    (hready : Ready inHead ((op,v) :: links) left) :
    (Tree.node i span (.binary op left right)).Strings u (before ++ (op,v) :: taken) ∧
      (Tree.node i span (.binary op left right)).Grouped ∧
      Ready inHead rest (.node i span (.binary op left right)) := by
  refine ⟨.binary hleft h.strings,?_,?_⟩
  · refine Tree.grouped_binary.mpr ⟨hgrouped,h.grouped,hready (op,v) rfl hop,?_⟩
    intro below hbelow
    obtain ⟨w,hw⟩ := h.strings.operator_mem below hbelow
    exact BinaryOperator.takesRight_iff.mpr (h.strong (below,w) hw).1
  · intro link hlink hnot below hbelow
    cases hbelow
    exact BinaryOperator.takesLeft_of_lt ((h.stop link hlink).resolve_right hnot)

/-- An operation with its right operand, and what it is the left operand of. -/
lemma Climbs.append (h : Climbs inHead op.rightPrecedence v [] taken rest right)
    (hop : ¬ Bars inHead op) (hleast : least ≤ op.precedence)
    (h' : Climbs inHead least u (before ++ (op,v) :: taken) taken' rest' t) :
    Climbs inHead least u before ((op,v) :: taken ++ taken') rest' t := by
  refine ⟨by simpa using h'.strings,h'.grouped,?_,h'.stop⟩
  intro link hlink
  rcases List.mem_append.mp hlink with hlink | hlink
  · rcases List.mem_cons.mp hlink with rfl | hlink
    · exact ⟨hleast,hop⟩
    · obtain ⟨hstrong,hnot⟩ := h.strong link hlink
      have hright := op.precedence_le_right
      exact ⟨by omega,hnot⟩
  · exact h'.strong link hlink

end

/-- What comes after a name in a chain does not belong to the name. -/
lemma exists_linkWords (links : Links) (hk : 3 ≤ grip inHead k) (ws : Words) :
    ∃ k' ws', linkWords links ++ k :: ws = k' :: ws' ∧ 2 ≤ grip inHead k' := by
  cases links with
  | nil => exact ⟨k,ws,rfl,Nat.le_of_succ_le hk⟩
  | cons link links => exact ⟨_,_,rfl,two_le_grip_word link.1⟩

/-- From a left operand on, the parser groups as much of a chain as is strong enough. -/
theorem binaryTail_climbs {start least : Nat} {before : Links} {left : Tree}
    (hn : links.length ≤ n) (hs : s.nesting < maxNesting)
    (hc : c.rest.map Token.kind = linkWords links ++ k :: ws) (hk : 3 ≤ grip inHead k)
    (hleft : left.Strings u before) (hgrouped : left.Grouped) (hready : Ready inHead links left) :
    Ends E (binaryTail (productions n) start least inHead left) s c fun t d =>
      ∃ taken rest, links = taken ++ rest ∧ Climbs inHead least u before taken rest t ∧
        d.rest = c.rest.drop (2 * taken.length) := by
  -- Each operator that is taken costs one unrolling of the productions, both for its right operand
  -- and for what follows that.
  induction n generalizing links c left before start least u with
  | zero =>
    obtain rfl := List.eq_nil_of_length_eq_zero (Nat.le_zero.mp hn)
    rw [← Cursor.current_kind hc] at hk
    exact binaryTail_ends hk ⟨[],[],rfl,climbs_nil hleft hgrouped (by simp),rfl⟩
  | succ n ih =>
    cases links with
    | nil =>
      rw [← Cursor.current_kind hc] at hk
      exact binaryTail_ends hk ⟨[],[],rfl,climbs_nil hleft hgrouped (by simp),rfl⟩
    | cons link links =>
      obtain ⟨op,v⟩ := link
      have hkind : c.current.kind = op.word := Cursor.current_kind hc
      have hstop (h : op.precedence < least ∨ Bars inHead op) :
          ∃ taken rest, (op,v) :: links = taken ++ rest ∧
            Climbs inHead least u before taken rest left ∧
            c.rest = c.rest.drop (2 * taken.length) :=
        ⟨[],_,rfl,climbs_nil hleft hgrouped (by simpa using h),rfl⟩
      simp only [binaryTail,ends_bind,ends_current,hkind]
      by_cases hop : Bars inHead op
      · rw [binaryOperator_of_bars hop]
        exact hstop (.inr hop)
      rw [binaryOperator_of_not_bars hop]
      dsimp only
      rw [ends_ite]
      split
      next hweak => exact hstop (.inl hweak)
      next hstrong =>
        have hadvance := Cursor.rest_advance hc (List.cons_ne_nil _ _)
        obtain ⟨k',ws',hnext,hk'⟩ := exists_linkWords links hk ws
        have hname : c.advance.rest.map Token.kind = .name v :: k' :: ws' := by
          rw [hadvance,List.map_drop,hc,← hnext]
          rfl
        simp only [ends_bind,ends_advance,ends_finish,productions,Productions.step,binary,
          ends_start]
        apply (unary_name hs hname hk').mono
        rintro _ d ⟨⟨i,span,rfl⟩,hd⟩
        have hdrop : d.rest = c.rest.drop 2 := by rw [hd,hadvance,List.drop_drop]
        have hkinds : d.rest.map Token.kind = linkWords links ++ k :: ws := by
          rw [hdrop,List.map_drop,hc]
          rfl
        have hlength : links.length ≤ n := Nat.le_of_succ_le_succ hn
        apply (ih hlength hkinds .name Tree.grouped_identifier (by simp [Ready,Tree.operator?,
          Tree.shape])).mono
        rintro right e ⟨taken,rest,rfl,hright,he⟩
        let both : Tree :=
          .node e.finished ⟨start,max e.consumedEnd start⟩ (.binary op left right)
        obtain ⟨hboth,hgrouped',hready'⟩ : both.Strings u (before ++ (op,v) :: taken) ∧
          both.Grouped ∧ Ready inHead rest both := hright.both hop hleft hgrouped hready
        have hkinds' : { e with finished := e.finished + 1 : Cursor }.rest.map Token.kind =
            linkWords rest ++ k :: ws := by
          change e.rest.map Token.kind = _
          rw [he,List.map_drop,hkinds,linkWords_append,List.append_assoc,← length_linkWords,
            List.drop_left]
        rw [List.length_append] at hlength
        apply (ih (Nat.le_of_add_left_le hlength) hkinds' hboth hgrouped' hready').mono
        rintro t f ⟨taken',rest',rfl,ht,hf⟩
        refine ⟨(op,v) :: taken ++ taken',rest',by simp,
          hright.append hop (Nat.not_lt.mp hstrong) ht,?_⟩
        rw [hf]
        change e.rest.drop _ = _
        rw [he,hdrop,List.drop_drop,List.drop_drop,List.length_append,List.length_cons]
        congr 1
        omega

/-- What the parser takes of a chain: all of it, or in the head of a loop what is before the first
`in`. -/
def reach (inHead : Bool) (links : Links) : Links :=
  if inHead then links.takeWhile (·.1 != .isIn) else links

/-- Where no operator is too weak, only an `in` ends a chain. -/
lemma Climbs.reach_eq {before taken rest : Links} {t : Tree}
    (h : Climbs inHead 1 u before taken rest t) : reach inHead (taken ++ rest) = taken := by
  have hstop : ∀ link ∈ rest.head?, Bars inHead link.1 := fun link hlink =>
    (h.stop link hlink).resolve_left (Nat.not_lt.mpr link.1.precedence_pos)
  unfold reach
  cases inHead with
  | false =>
    cases rest with
    | nil => exact List.append_nil _
    | cons link rest => cases (hstop link rfl).1
  | true =>
    have htaken : ∀ link ∈ taken, (link.1 != BinaryOperator.isIn) = true := fun link hlink =>
      bne_iff_ne.mpr fun he => (h.strong link hlink).2 ⟨rfl,he⟩
    rw [if_pos rfl,List.takeWhile_append_of_pos htaken]
    cases rest with
    | nil => exact List.append_nil _
    | cons link rest =>
      have hin : link.1 = .isIn := (hstop link rfl).2
      rw [List.takeWhile_cons_of_neg (by simp [hin]),List.append_nil]

/-- An operand and what goes on with it, when there are enough unrollings for all operators. -/
theorem binary_climbs (hn : links.length ≤ n) (hs : s.nesting < maxNesting)
    (hc : c.rest.map Token.kind = .name u :: (linkWords links ++ k :: ws))
    (hk : 3 ≤ grip inHead k) :
    Ends E (binary (productions n) 1 inHead) s c fun t d =>
      ∃ taken rest, links = taken ++ rest ∧ Climbs inHead 1 u [] taken rest t ∧
        d.rest = c.rest.drop (1 + 2 * taken.length) := by
  obtain ⟨k',ws',hnext,hk'⟩ := exists_linkWords links hk ws
  simp only [binary,ends_bind,ends_start]
  apply (unary_name hs (hnext ▸ hc) hk').mono
  rintro _ d ⟨⟨i,span,rfl⟩,hd⟩
  have hkinds : d.rest.map Token.kind = linkWords links ++ k :: ws := by
    rw [hd,List.map_drop,hc]
    rfl
  apply (binaryTail_climbs hn hs hkinds hk .name Tree.grouped_identifier
    (by simp [Ready,Tree.operator?,Tree.shape])).mono
  rintro t e ⟨taken,rest,hlinks,ht,he⟩
  exact ⟨taken,rest,hlinks,ht,by rw [he,hd,List.drop_drop]⟩

/-- By the productions for as many tokens as there are, a chain of names and operators before a
semicolon or the end of the input is read as far as it goes, in the head of a loop up to the first
`in`. The tree strings the names and operators together in their order, every operator in it has
operands that may stand beside it without brackets, and all trees with these two properties look
like it. -/
theorem binary_grouping (inHead : Bool) {m : Nat}
    (hc : c.rest.map Token.kind = .name u :: (linkWords links ++ k :: ws))
    (hk : k = .punct .semicolon ∨ k = .endOfInput) (hs : s.nesting < maxNesting)
    (hm : c.ahead.length < m) :
    ∃ (t : Tree) (d : Cursor), (productions m).binary 1 inHead s c = .ok (t,d) ∧
      d.rest = c.rest.drop (1 + 2 * (reach inHead links).length) ∧
      d.rest.map Token.kind = linkWords (links.drop (reach inHead links).length) ++ k :: ws ∧
      t.Strings u (reach inHead links) ∧ t.Grouped ∧
      ∀ t' : Tree, t'.Strings u (reach inHead links) → t'.Grouped → t'.outline = t.outline := by
  have hgrip : 3 ≤ grip inHead k := by
    rcases hk with rfl | rfl <;> cases inHead <;> decide
  have hahead : c.ahead.map Token.kind = linkWords links ++ k :: ws := (List.cons.inj hc).2
  have hlength : 2 * links.length < c.ahead.length := by
    rw [← length_linkWords,← List.length_map (f := Token.kind),hahead,List.length_append,
      List.length_cons]
    omega
  obtain ⟨n,rfl⟩ : ∃ n, m = n + 1 := Nat.exists_eq_add_one_of_ne_zero (by omega)
  have hends : Ends (fun _ => False) (binary (productions n) 1 inHead) s c _ :=
    binary_climbs (by omega) hs hc hgrip
  unfold Ends at hends
  split at hends
  · next t d hp =>
    obtain ⟨taken,rest,rfl,ht,hd⟩ := hends
    have hstrings : t.Strings u taken := ht.strings
    rw [ht.reach_eq]
    refine ⟨t,d,hp,hd,?_,hstrings,ht.grouped,fun t' hstrings' hgrouped' => ?_⟩
    · rw [hd,List.map_drop,hc,linkWords_append,Nat.add_comm,List.drop_succ_cons,List.append_assoc,
        ← length_linkWords,List.drop_left,List.drop_left]
    · exact hgrouped'.unique ht.grouped hstrings' hstrings
  · exact hends.elim

/-! The chain `a - b ** c ** d - e in f;` where only one level of nesting is left. -/
namespace Mixed

def chain : Links := [(.sub,"b"),(.pow,"c"),(.pow,"d"),(.sub,"e"),(.isIn,"f")]

def token (kind : TokenKind) : Token := ⟨kind,⟨0,0⟩,false⟩

def cursor : Cursor :=
  ⟨token (.name "a"),(linkWords chain ++ [.punct .semicolon,.endOfInput] : Words).map token,0,0⟩

def name (u : String) : Tree := .node 0 ⟨0,0⟩ (.identifier u)

def operation (op : BinaryOperator) (l r : Tree) : Tree := .node 0 ⟨0,0⟩ (.binary op l r)

def power : Tree := operation .pow (name "b") (operation .pow (name "c") (name "d"))

def grouped : Tree := operation .sub (operation .sub (name "a") power) (name "e")

lemma grouped_strings : grouped.Strings "a" (reach true chain) :=
  .binary (.binary .name (.binary .name (.binary .name .name))) .name

lemma grouped_grouped : grouped.Grouped := by
  simp [grouped,power,operation,name,Tree.grouped_binary,Tree.grouped_identifier,
    Tree.operator?,Tree.shape,BinaryOperator.TakesLeft,BinaryOperator.TakesRight,
    BinaryOperator.precedence]

end Mixed

theorem binary_grouping_mixed :
    ∃ (t : Tree) (d : Cursor),
      (productions 13).binary 1 true ⟨127,false⟩ Mixed.cursor = .ok (t,d) ∧
      d.current.kind = .reserved .kwIn ∧ t.outline = Mixed.grouped.outline := by
  have hc : Mixed.cursor.rest.map Token.kind =
      .name "a" :: (linkWords Mixed.chain ++ .punct .semicolon :: [.endOfInput]) := rfl
  obtain ⟨t,d,ht,_,hkinds,_,_,hunique⟩ :=
    binary_grouping true (s := ⟨127,false⟩) (m := 13) hc (.inl rfl) (by decide) (by decide)
  exact ⟨t,d,ht,Cursor.current_kind hkinds,
    (hunique _ Mixed.grouped_strings Mixed.grouped_grouped).symm⟩

end Grammar
end ScriptLint
