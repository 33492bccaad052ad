import ScriptLint.Proofs.Arena
import ScriptLint.Proofs.Execution.Progress

/-! How many nodes a file can have. There are at most two for every token and the program, and a
token takes up at least one byte, so that in all but huge files the numbers of the nodes fit into 32
bits. -/
namespace ScriptLint

/-- The number of a node in 32 bits. -/
def NodeId.word (i : NodeId) : UInt32 := UInt32.ofNat i

theorem NodeId.toNat_word {i : NodeId} (h : i < 2 ^ 32) : (word i).toNat = i :=
  UInt32.toNat_ofNat_of_lt' h

/-- How many tokens there are without the end of input. -/
def Token.count (tokens : List Token) : Nat := tokens.countP fun t => t.kind != .endOfInput

namespace Grammar
variable {n : Nat} {ts : List Token}

theorem Ended.count_eq (h : Ended ts) : Token.count ts + 1 = ts.length := by
  induction h with
  | last hkind => simp [Token.count,hkind]
  | cons hkind _ ih =>
    rw [Token.count,List.countP_cons_of_pos (by simpa using hkind),List.length_cons]
    exact congrArg (· + 1) ih

/-- Every token but the last takes up a byte. -/
theorem Tokens.exists_stop (h : Tokens n ts) : ∃ t ∈ ts, n + Token.count ts ≤ t.span.stop := by
  have hcount := h.ended.count_eq
  induction h with
  | last _ hafter hwidth =>
    refine ⟨_,.head _,?_⟩
    simp only [List.length_singleton] at hcount
    omega
  | cons _ _ hafter hwidth hmore ih =>
    obtain ⟨t,ht,hle⟩ := ih hmore.ended.count_eq
    have hcount' := hmore.ended.count_eq
    refine ⟨t,.tail _ ht,?_⟩
    simp only [List.length_cons] at hcount
    omega

end Grammar

/-- The tokens of a text are no more than its bytes. -/
theorem Token.count_le {content : ByteArray} {cs : List Char} {tokens : List Token}
    (hcs : Text.decode content = .ok cs) (hscan : Token.scan cs = .ok tokens) :
    Token.count tokens ≤ content.size := by
  obtain ⟨hordered,hspelled⟩ := Token.scanFrom_spec hscan
  obtain ⟨t,ht,hle⟩ := hordered.exists_stop
  have hstop := (hspelled t ht).stop_le
  have hsize : content.size = Text.width cs := by
    rw [← Text.length_encode,← Text.decode_eq_ok hcs]
    exact Array.length_toList.symm
  omega

/-- The nodes of a file are at most twice as many as its tokens, with one more for the program. In
fewer than `2 ^ 31` bytes every node is found by its number in 32 bits, which no other node has. -/
theorem parseSource_count {content : ByteArray} {t : SyntaxTree} (h : parseSource content = .ok t) :
    ∃ cs tokens, Text.decode content = .ok cs ∧ Token.scan cs = .ok tokens ∧
      t.size ≤ 2 * Token.count tokens + 1 ∧ Token.count tokens ≤ content.size ∧
      (content.size < 2 ^ 31 →
        (∀ i < t.size, (NodeId.word i).toNat = i) ∧
        (∀ p ∈ t.positions.toList, t.positions[(NodeId.word p.id).toNat]? = some p) ∧
        ∀ p ∈ t.positions.toList, ∀ q ∈ t.positions.toList,
          NodeId.word p.id = NodeId.word q.id → p = q) := by
  obtain ⟨root,rfl,hparsed⟩ := parseSource_parsed h
  obtain ⟨cs,hcs,htext⟩ := parseSource_eq_ok h
  obtain ⟨first,others,root',hscan,hparse,heq⟩ := parseText_eq_ok htext
  cases heq
  have hended := (Token.scanFrom_spec hscan).1.ended
  have hcount := hended.count_eq
  have hbytes := Token.count_le hcs hscan
  have hid := (Grammar.exists_program_runs hended).2 root hparse
  have hsize : root.table.size = root.id + 1 := hparsed.numbered.size_eq
  rw [List.length_cons] at hcount
  have hnodes : root.table.size ≤ 2 * Token.count (first :: others) + 1 := by omega
  refine ⟨cs,first :: others,hcs,hscan,hnodes,hbytes,fun hfew => ?_⟩
  have hword (i : Nat) (hi : i < root.table.size) : (NodeId.word i).toNat = i :=
    NodeId.toNat_word (show i < 2 ^ 32 by omega)
  have hfound (p : Position) (hp : p ∈ root.table.positions.toList) :
      root.table.positions[(NodeId.word p.id).toNat]? = some p := by
    have hmem : p ∈ root.top.preorder := root.top.postorder_perm.mem_iff.mp hp
    have hle := hparsed.numbered.id_le (Position.self_mem_preorder root.top) p hmem
    rw [hword p.id (hsize ▸ Nat.lt_succ_of_le hle)]
    exact hparsed.numbered.positions_getElem.mpr ⟨hmem,rfl⟩
  refine ⟨hword,hfound,?_⟩
  intro p hp q hq hpq
  have hsame := (hfound p hp).symm.trans (hpq ▸ hfound q hq)
  exact Option.some.inj hsame

/-- Where every token is a statement of its own, there are as many nodes as there can be. -/
theorem parseSource_count_tight :
    ∃ t tokens, parseSource "x\ny".toUTF8 = .ok t ∧ Token.scan ['x','\n','y'] = .ok tokens ∧
      t.size = 2 * Token.count tokens + 1 ∧ Token.count tokens = 2 ∧
      ∀ p ∈ t.positions.toList, t.positions[(NodeId.word p.id).toNat]? = some p := by
  have hdecode : Text.decode "x\ny".toUTF8 = .ok ['x','\n','y'] := by cbv
  have hparse : parseSource "x\ny".toUTF8 = .ok ⟨some (.node 4 ⟨0,3⟩ (.program
      [.node 1 ⟨0,1⟩ (.expressionStatement (.node 0 ⟨0,1⟩ (.identifier "x"))),
        .node 3 ⟨2,3⟩ (.expressionStatement (.node 2 ⟨2,3⟩ (.identifier "y")))]))⟩ := by cbv
  have hcount : (Token.scan ['x','\n','y']).map Token.count = .ok 2 := by cbv
  obtain ⟨cs,tokens,hcs,hscan,_,_,hfew⟩ := parseSource_count hparse
  cases hdecode.symm.trans hcs
  rw [hscan] at hcount
  have htwo : Token.count tokens = 2 := Except.ok.inj hcount
  exact ⟨_,tokens,hparse,hscan,by rw [htwo]; cbv,htwo,(hfew (by decide)).2.1⟩

end ScriptLint
