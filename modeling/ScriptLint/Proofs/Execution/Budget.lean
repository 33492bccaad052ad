import ScriptLint.Proofs.Discipline.Statement
import ScriptLint.Proofs.Execution.Basic

/-! What a run costs. Two parsers are alike when they run to the same end and keep to the same budget.
As often as productions are unrolled, so many tokens may be ahead until what stands at the bottom
makes a difference. -/
namespace ScriptLint.Grammar
variable {α β : Type}

/-- From a place where `P` holds, both parsers run to the same end. If they answer, `Q` holds of the
answer and of the place. -/
def Alike (P : Cursor → Prop) (p q : Parser α) (Q : α → Cursor → Prop) : Prop :=
  ∀ tokens r c, Ended tokens → r.cursor? tokens = some c → P c →
    ∃ answer r', Runs tokens p r answer r' ∧ Runs tokens q r answer r' ∧
      ∀ a, answer = .ok a → ∃ d, r'.cursor? tokens = some d ∧ Q a d

/-- From a place with at most `k` tokens ahead and the budget `b`, both parsers run to the same end.
If they answer, they have passed at least `i` tokens and saved at least `j` of the budget. -/
abbrev Spends (k b : Int) (p q : Parser α) (i j : Int) : Prop :=
  Alike (Left k b) p q fun _ => Left (k - i) (b - j)

/-- Productions that are alike at places with fewer than `n` tokens ahead. What has an operand to go
on with, and what may be left out, passes no token for certain. -/
structure Productions.Alike (n : Int) (g g' : Productions) : Prop where
  expression {k b : Int} {inHead : Bool} (h : k < n) :
    Spends k b (g.expression inHead) (g'.expression inHead) 1 1
  sequenceTail {k b : Int} {inHead : Bool} (h : k < n) :
    Spends k b (g.sequenceTail inHead) (g'.sequenceTail inHead) 0 0
  assignment {k b : Int} {inHead : Bool} (h : k < n) :
    Spends k b (g.assignment inHead) (g'.assignment inHead) 1 1
  binary {k b : Int} {least : Nat} {inHead : Bool} (h : k < n) :
    Spends k b (g.binary least inHead) (g'.binary least inHead) 1 1
  binaryTail {k b : Int} {start least : Nat} {inHead : Bool} {left : Tree} (h : k < n) :
    Spends k b (g.binaryTail start least inHead left) (g'.binaryTail start least inHead left) 0 0
  unary {k b : Int} (h : k < n) : Spends k b g.unary g'.unary 1 1
  accessTail {k b : Int} {start : Nat} {owner : Tree} (h : k < n) :
    Spends k b (g.accessTail start owner) (g'.accessTail start owner) 0 0
  construct {k b : Int} (h : k < n) : Spends k b g.construct g'.construct 1 1
  constructTail {k b : Int} {start : Nat} {callee : Tree} (h : k < n) :
    Spends k b (g.constructTail start callee) (g'.constructTail start callee) 0 0
  arguments {k b : Int} (h : k < n) : Spends k b g.arguments g'.arguments 0 0
  elements {k b : Int} (h : k < n) : Spends k b g.elements g'.elements 0 0
  properties {k b : Int} (h : k < n) : Spends k b g.properties g'.properties 0 0
  parameters {k b : Int} (h : k < n) : Spends k b g.parameters g'.parameters 0 0
  declarators {k b : Int} {inHead : Bool} (h : k < n) :
    Spends k b (g.declarators inHead) (g'.declarators inHead) 1 0
  statement {k b : Int} (h : k < n) : Spends k b g.statement g'.statement 1 0
  blockItems {k b : Int} (h : k < n) : Spends k b g.blockItems g'.blockItems 0 0
  caseItems {k b : Int} (h : k < n) : Spends k b g.caseItems g'.caseItems 0 0
  cases {k b : Int} {hasDefault : Bool} (h : k < n) :
    Spends k b (g.cases hasDefault) (g'.cases hasDefault) 0 0
  programItems {k b : Int} (h : k < n) : Spends k b g.programItems g'.programItems 0 0

/-- From a place where `P` holds, both parsers run to ends that correspond: the second one answers
what `f` makes of the first answer. If they answer, `Q` holds. -/
def Parallel (P : Cursor → Prop) (f : α → α) (p q : Parser α) (Q : α → Cursor → Prop) : Prop :=
  ∀ tokens r c, Ended tokens → r.cursor? tokens = some c → P c →
    ∃ answer r', Runs tokens p r answer r' ∧ Runs tokens q r (answer.map f) r' ∧
      ∀ a, answer = .ok a → ∃ d, r'.cursor? tokens = some d ∧ Q a d

namespace Parallel
variable {P : Cursor → Prop} {f : α → α} {p q : Parser α} {Q : α → Cursor → Prop}

theorem alike (h : Parallel P f p q Q) (hf : f = id) : Alike P p q Q := by
  intro tokens r c ht hc hP
  obtain ⟨answer,r',hp,hq,hanswer⟩ := h tokens r c ht hc hP
  subst hf
  refine ⟨answer,r',hp,?_,hanswer⟩
  cases answer <;> exact hq

/-- A step that both parsers take to the same end. -/
theorem of_step (h : ∀ tokens r c, Ended tokens → r.cursor? tokens = some c → P c →
    ∃ a r' d, Runs tokens p r (.ok a) r' ∧ Runs tokens q r (.ok (f a)) r' ∧
      r'.cursor? tokens = some d ∧ Q a d) : Parallel P f p q Q := by
  intro tokens r c ht hc hP
  obtain ⟨a,r',d,hp,hq,hd,hQ⟩ := h tokens r c ht hc hP
  refine ⟨.ok a,r',hp,hq,fun a' ha => ?_⟩
  cases ha
  exact ⟨d,hd,hQ⟩

theorem bind {f' : β → β} {k k' : α → Parser β} {M : α → Cursor → Prop} {Q : β → Cursor → Prop}
    (h : Parallel P f p q M) (hk : ∀ a, Parallel (M a) f' (k a) (k' (f a)) Q) :
    Parallel P f' (p >>= k) (q >>= k') Q := by
  intro tokens r c ht hc hP
  obtain ⟨answer,r',hp,hq,hanswer⟩ := h tokens r c ht hc hP
  cases answer with
  | error e => exact ⟨.error e,r',.stop hp,.stop hq,nofun⟩
  | ok a =>
    obtain ⟨d,hd,hM⟩ := hanswer a rfl
    obtain ⟨answer,r'',hk,hk',hanswer⟩ := hk a tokens r' d ht hd hM
    exact ⟨answer,r'',.bind hp hk,.bind hq hk',hanswer⟩

theorem nested (h : Parallel P f p q Q) : Parallel P f (nested p) (nested q) Q := by
  intro tokens r c ht hc hP
  by_cases hroom : r.nesting < maxNesting
  · obtain ⟨answer,r',hp,hq,hanswer⟩ := h tokens { r with nesting := r.nesting + 1 } c ht hc hP
    exact ⟨answer,_,.deeper hroom hp,.deeper hroom hq,hanswer⟩
  · have hfull := Nat.le_of_not_lt hroom
    exact ⟨.error _,r,.tooDeep hfull hc,.tooDeep hfull hc,nofun⟩

theorem insideFunction (h : Parallel P f p q Q) :
    Parallel P f (insideFunction p) (insideFunction q) Q := by
  intro tokens r c ht hc hP
  obtain ⟨answer,r',hp,hq,hanswer⟩ :=
    h tokens { r with functionDepth := r.functionDepth + 1 } c ht hc hP
  exact ⟨answer,_,.inside hp,.inside hq,hanswer⟩

/-- Both parsers look where they are and give up over it. -/
theorem of_refusal {offset : Cursor → Nat} {fault : Cursor → Fault}
    (hp : p = get >>= fun c => failAt (offset c) (fault c))
    (hq : q = get >>= fun c => failAt (offset c) (fault c)) : Parallel P f p q Q := by
  subst hp hq
  intro tokens r c _ hc _
  exact ⟨.error _,r,.bind (.look hc) .refuse,.bind (.look hc) .refuse,nofun⟩

end Parallel

/-- Parsers run, and what they are made of runs at the same cost. -/
def cost : Discipline where
  toView := .plain
  Judges := Parallel
  Behind _ _ := True
  Leaves _ _ := True
  judges_of h hP tokens r c ht hc hp := h tokens r c ht hc (hP c hp)
  judges_false _ _ _ _ _ hp := hp.elim
  judges_leaves h _ tokens r c ht hc hP := by
    obtain ⟨answer,r',hp,hq,hanswer⟩ := h tokens r c ht hc hP
    refine ⟨answer,r',hp,hq,fun a ha => ?_⟩
    obtain ⟨d,hd,hQ⟩ := hanswer a ha
    exact ⟨d,hd,hQ,fun _ _ => trivial⟩
  judges_pure h := .of_step fun _ r c _ hc hP => ⟨_,r,c,.pure,.pure,hc,h c hP⟩
  judges_bind := Parallel.bind
  judges_get := .of_step fun _ r c _ hc hP => ⟨c,r,c,.look hc,.look hc,hc,rfl,hP⟩
  judges_read := .of_step fun _ r c _ hc hP => ⟨_,r,c,.around,.around,hc,hP⟩
  judges_advance h := .of_step fun _ r c ht hc hP => by
    have hended := Registers.ended ht hc
    exact ⟨(),_,c.advance,.pass hc,.pass hc,Registers.cursor_pass hc hended,h c hended hP⟩
  judges_finish {P Q n shape} h := .of_step fun _ r c _ hc hP => by
    refine ⟨_,_,_,.allocate hc,?_,Registers.cursor_allocate hc,h c hP⟩
    change Runs _ (finish n (shape.map id)) _ _ _
    rw [shape.map_id]
    exact .allocate hc
  judges_fail _ := .of_refusal rfl rfl
  judges_failWith _ := .of_refusal rfl rfl
  judges_failAt _ _ _ r _ _ _ _ := ⟨.error _,r,.refuse,.refuse,nofun⟩
  judges_nested := Parallel.nested
  judges_insideFunction := Parallel.insideFunction

theorem retraced_cost {g : Productions} : g.Retraced cost := ⟨trivial,trivial⟩

theorem judged_cost (bottom bottom' : Productions) (n : Nat) :
    (bottom.unroll n).Judged cost n (bottom'.unroll n) :=
  judged_unroll (fun _ => retraced_cost) bottom' n

theorem Productions.Judged.alike {n : Int} {g g' : Productions} (hg : g.Judged cost n g') :
    g.Alike n g' where
  expression h := (hg.expression h).alike rfl
  sequenceTail h := (hg.sequenceTail h).alike List.map_id_fun
  assignment h := (hg.assignment h).alike rfl
  binary h := (hg.binary h).alike rfl
  binaryTail h := (hg.binaryTail h).alike rfl
  unary h := (hg.unary h).alike rfl
  accessTail h := (hg.accessTail h).alike rfl
  construct h := (hg.construct h).alike rfl
  constructTail h := (hg.constructTail h).alike rfl
  arguments h := (hg.arguments h).alike List.map_id_fun
  elements h := (hg.elements h).alike (Option.map_id ▸ List.map_id_fun)
  properties h := (hg.properties h).alike List.map_id_fun
  parameters h := (hg.parameters h).alike List.map_id_fun
  declarators h := (hg.declarators h).alike List.map_id_fun
  statement h := (hg.statement h).alike rfl
  blockItems h := (hg.blockItems h).alike List.map_id_fun
  caseItems h := (hg.caseItems h).alike List.map_id_fun
  cases h := (hg.cases h).alike List.map_id_fun
  programItems h := (hg.programItems h).alike List.map_id_fun

/-- The number of a program is within the budget. -/
theorem alike_program {g g' : Productions} {n k b : Int} (hg : g.Judged cost n g') (h : k < n) :
    Alike (Left k b) (program g) (program g') fun root _ => (root.id : Int) ≤ b := by
  refine Parallel.alike (f := id) ?_ rfl
  refine (hg.programItems h).bind fun body => Discipline.Judges.current.bind fun t => ?_
  have hbody : body.map cost.tree = body := body.map_id
  rw [hbody]
  refine .of_step fun tokens r c _ hc hleft =>
    ⟨_,_,_,.allocate hc,.allocate hc,Registers.cursor_allocate hc,?_⟩
  have hbudget := hleft.2.budget_le
  change (r.finished : Int) ≤ b
  rw [(Registers.cursor_eq_some.mp hc).2.2]
  omega

end ScriptLint.Grammar
