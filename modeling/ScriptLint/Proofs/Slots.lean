import ScriptLint.Proofs.Findings

/-! The slots of a syntax tree. A node stands in one of the slots that the node above it has, and
what it may be follows from the slot; so clauses, declarators, properties and the like are found in
slots of their own and nowhere else. -/
namespace ScriptLint
namespace Shape

/-- Where a node may stand below a node of the given shape. -/
def Fits (s : Shape Tree) (c : Tree) : Prop :=
  match c.shape with
  | .program _ => False
  | .switchCase .. => c ∈ s.caseSlots
  | .catchClause .. => c ∈ s.handlerSlots
  | .declarator .. => c ∈ s.declaratorSlots
  | .property .. | .shorthand _ => c ∈ s.propertySlots
  | .spread _ => c ∈ s.itemSlots ∨ c ∈ s.propertySlots
  | .defaultParam .. | .restParam _ => c ∈ s.parameterSlots
  | .function kind .. => kind = .declaration ↔ c ∈ s.statementSlots
  | .identifier x => (Keyword.ofText? x).isSome → c ∈ s.keySlots
  | _ => True

/-- What stands where a statement is expected is a statement. -/
theorem isStatement_of_mem_statementSlots {s : Shape Tree} {c : Tree} (h : s.Admissible)
    (hc : c ∈ s.statementSlots) : c.isStatement := by
  cases s with
  | program | block => exact h c hc
  | switchCase => exact h.2 c hc
  | ifStatement =>
    rcases List.mem_cons.mp hc with rfl | hc
    · exact h.2.1
    · exact h.2.2.1 c (Option.mem_toList.mp hc)
  | forLoop | forIn | forOf =>
    obtain rfl := List.mem_singleton.mp hc
    exact h.2.2.2
  | whileLoop | labeled | withStatement =>
    obtain rfl := List.mem_singleton.mp hc
    exact h.2
  | doWhile =>
    obtain rfl := List.mem_singleton.mp hc
    exact h.1
  | _ => cases hc

/-- Below a node of an admissible shape, every node stands where it may. -/
theorem fits_of_admissible {s : Shape Tree} {c : Tree} (h : s.Admissible) (hc : c ∈ s.children) :
    s.Fits c := by
  have hstatement := isStatement_of_mem_statementSlots h (c := c)
  have hslot := slot_of_admissible h hc
  obtain ⟨i,span,shape⟩ := c
  unfold Fits
  dsimp only [Tree.shape]
  split
  next => cases hslot <;> contradiction
  next =>
    cases hslot with
    | case _ _ hs => exact hs
    | _ => contradiction
  next =>
    cases hslot with
    | handler _ _ hs => exact hs
    | _ => contradiction
  next =>
    cases hslot with
    | declarator _ _ hs => exact hs
    | _ => contradiction
  next =>
    cases hslot with
    | property _ _ hs => exact hs
    | _ => contradiction
  next =>
    cases hslot with
    | property _ _ hs => exact hs
    | _ => contradiction
  next =>
    cases hslot with
    | item _ _ hs => exact .inl hs
    | property _ _ hs => exact .inr hs
    | _ => contradiction
  next =>
    cases hslot with
    | parameter _ _ hs => exact hs
    | _ => contradiction
  next =>
    cases hslot with
    | parameter _ _ hs => exact hs
    | _ => contradiction
  next kind _ _ _ =>
    -- Where an expression is expected a function is none of the statements.
    have hnot (he : kind ≠ .declaration) : kind = .declaration ↔ _ ∈ s.statementSlots :=
      ⟨fun hk => absurd hk he,fun hs => absurd (beq_iff_eq.mp (hstatement hs)) he⟩
    cases hslot with
    | statement hk _ hs => exact ⟨fun _ => hs,fun _ => beq_iff_eq.mp hk⟩
    | expression he | item he => exact hnot (bne_iff_ne.mp he)
    | _ => contradiction
  next x =>
    intro hx
    cases hslot with
    | key _ _ hs => exact hs
    | expression hn | name hn | item hn | parameter hn =>
      rw [Option.isNone_iff_eq_none.mp hn] at hx
      contradiction
    | _ => contradiction
  next => trivial

end Shape

/-- Every node of an accepted file has nodes of the right categories below it, each of which stands
where it may, and every return is inside of a function. -/
theorem parseSource_admissible {content : ByteArray} {t : SyntaxTree}
    (h : parseSource content = .ok t) :
    ∃ root, t = ⟨some root⟩ ∧ root.isProgram ∧ ∀ p ∈ root.top.preorder,
      p.node.shape.Admissible ∧ (∀ c ∈ p.node.children, p.node.shape.Fits c) ∧
        (p.node.shape.isReturn → ∃ f ∈ p.ancestors, f.isFunction) := by
  obtain ⟨root,rfl,hparsed⟩ := parseSource_parsed h
  refine ⟨root,rfl,hparsed.program,?_⟩
  intro p hp
  have hadmissible := (hparsed.grammatical_at p hp).admissible
  refine ⟨hadmissible,fun c hc => Shape.fits_of_admissible hadmissible hc,fun hreturn => ?_⟩
  obtain ⟨f,hf⟩ := hparsed.exists_function p hp (.here hreturn)
  obtain ⟨g,hg,_⟩ := Option.map_eq_some_iff.mp hf
  exact ⟨g,List.mem_of_find?_eq_some hg,List.find?_some hg⟩

/-- The return of the sample, which is inside of its function. -/
theorem parseSource_admissible_sample :
    parseSource Sample.source = .ok ⟨some Sample.program⟩ ∧ Sample.ret.node.shape.isReturn ∧
      ∃ f ∈ Sample.ret.ancestors, f.isFunction := by
  obtain ⟨root,hroot,_,hnodes⟩ := parseSource_admissible Sample.parseSource_eq
  cases hroot
  have hret := Sample.ret_mem
  rw [Tree.preorder_table] at hret
  exact ⟨Sample.parseSource_eq,rfl,(hnodes _ hret).2.2 rfl⟩

end ScriptLint
