import Mathlib
import ScriptLint.Proofs.Lexing
import ScriptLint.Proofs.Placement
import ScriptLint.Proofs.Program
import ScriptLint.Proofs.Role

/-! What is known of the tree of a source file that is accepted, gathered from the tokens of its
text and from what the parser reads of them. -/
namespace ScriptLint

/-- A text stands among some bytes from one of them on. -/
def Spells (bytes : List UInt8) (start : Nat) (x : String) : Prop :=
  x.toUTF8.data.toList <+: bytes.drop start

/-- What is known of the tree of a file with given bytes. -/
structure Parsed (bytes : List UInt8) (root : Tree) : Prop where
  program : root.isProgram
  numbered : root.Numbered
  grammatical : root.Grammatical
  /-- Every return is in a function. -/
  closed : ¬ root.Returns
  row : Grammar.Row 0 root.span.stop root.children
  bounded : root.span.stop ≤ bytes.length
  identifier : ∀ t ∈ root.preorder, ∀ x, t.name? = some x → Spells bytes t.span.start x
  declarator : ∀ t ∈ root.preorder, ∀ id value, t.shape = .declarator id value →
    id.span.start = t.span.start

namespace Parsed
variable {bytes : List UInt8} {root : Tree} {p : Position}

theorem grammatical_at (h : Parsed bytes root) : ∀ p ∈ root.top.preorder, p.node.Grammatical :=
  Position.preorder_induction h.grammatical fun _ _ ih _ hc => ih.child hc

/-- Only the root is a program. -/
theorem isProgram_eq (h : Parsed bytes root) (hp : p ∈ root.top.preorder) :
    p.node.isProgram = p.ancestors.isEmpty := by
  rcases Position.eq_or_child p hp with rfl | ⟨q,hq,c,hc,rfl⟩
  · exact h.program
  · have hrole := (h.grammatical_at q hq).role_child_ne_program hc
    exact Bool.eq_false_iff.mpr fun hprogram => hrole (Tree.role_of_isKind hprogram (by decide))

/-- Below the root, every node is placed. -/
theorem placed_at (h : Parsed bytes root) :
    ∀ p ∈ root.top.preorder, p.ancestors ≠ [] → p.node.Placed := by
  apply Position.preorder_induction
  · exact fun hne => absurd rfl hne
  · intro p hp ih c hc _
    rcases Position.eq_or_child p hp with rfl | ⟨q,hq,d,hd,rfl⟩
    · exact h.row.placed c hc
    · exact (ih (List.cons_ne_nil _ _)).child hc

theorem span_within (h : Parsed bytes root) (hp : p ∈ root.top.preorder) (hne : p.ancestors ≠ []) :
    ∀ q ∈ p.preorder,
      p.node.span.start ≤ q.node.span.start ∧ q.node.span.stop ≤ p.node.span.stop := by
  apply Position.preorder_induction
  · exact ⟨Nat.le_refl _,Nat.le_refl _⟩
  · intro q hq ih c hc
    have hmem := (Position.preorder_sublist hp).subset hq
    have hin := (h.placed_at q hmem (Position.ancestors_ne_nil hne q hq)).inside hc
    exact ⟨Nat.le_trans ih.1 hin.1,Nat.le_trans hin.2 ih.2⟩

/-- The nodes below the root begin before the end of the file. -/
theorem start_lt (h : Parsed bytes root) (hp : p ∈ root.top.preorder) (hne : p.ancestors ≠ []) :
    p.node.span.start < bytes.length := by
  rcases Position.mem_preorder.mp hp with rfl | ⟨c,hc,hbelow⟩
  · exact absurd rfl hne
  · have hchild := Position.child_mem_preorder (Position.self_mem_preorder root.top) hc
    have hproper := (h.placed_at p hp hne).start_lt_stop
    have hwithin := (h.span_within hchild (List.cons_ne_nil _ _) p hbelow).2
    have hroot := (h.row.inside c hc).2
    have hbytes := h.bounded
    rw [Position.child_node] at hwithin
    omega

theorem spells_at (h : Parsed bytes root) (hp : p ∈ root.top.preorder) {x : String}
    (hx : p.node.name? = some x) : Spells bytes p.node.span.start x :=
  h.identifier p.node (Position.node_mem_preorder hp) x hx

/-- Nodes below the same node stand one after the other. -/
theorem ordered_at (h : Parsed bytes root) (hp : p ∈ root.top.preorder)
    (hm : p.node.isMethod = false) :
    p.node.children.Pairwise (·.span.stop ≤ ·.span.start) := by
  rcases Position.eq_or_child p hp with rfl | ⟨q,hq,d,hd,rfl⟩
  · exact h.row.ordered
  · exact (h.placed_at _ hp (List.cons_ne_nil _ _)).ordered hm

end Parsed

lemma Text.encode_toList (x : String) : encode x.toList = x.toUTF8.data.toList := by
  rw [String.toUTF8,← String.utf8Encode_toList,List.utf8Encode,List.data_toByteArray]
  rfl

/-- A token is spelled in the bytes of its text. -/
lemma Token.SpelledIn.spells {cs : List Char} {t : Token} (h : SpelledIn 0 cs t) :
    Spells (Text.encode cs) t.span.start t.kind.text := by
  obtain ⟨before,after,rfl,hspan⟩ := h
  rw [hspan,Spells,Nat.zero_add,Text.encode_append,Text.encode_append,List.append_assoc,
    ← Text.length_encode,List.drop_left,Text.encode_toList]
  exact List.prefix_append ..

lemma Token.SpelledIn.stop_le {cs : List Char} {t : Token} (h : SpelledIn 0 cs t) :
    t.span.stop ≤ Text.width cs := by
  obtain ⟨before,after,rfl,hspan⟩ := h
  rw [hspan,Text.width_append,Text.width_append]
  dsimp only
  omega

theorem parseText_eq_ok {cs : List Char} {t : SyntaxTree} (h : parseText cs = .ok t) :
    ∃ first others root, Token.scan cs = .ok (first :: others) ∧
      Grammar.parseTokens first others = .ok root ∧ t = ⟨some root⟩ := by
  unfold parseText at h
  split at h
  · cases h
  · next hs => cases (Token.scanFrom_spec hs).1
  · next first others hs =>
    split at h
    · cases h
    · next root hp =>
      cases h
      exact ⟨first,others,root,hs,hp,rfl⟩

/-- The tokens of a text that is accepted are those its statements are read from and the end of
input, where the program ends. -/
theorem parseText_built {cs : List Char} {t : SyntaxTree} (h : parseText cs = .ok t) :
    ∃ tokens body c d, Token.scan cs = .ok (tokens ++ [d.current]) ∧ d.current.kind = .endOfInput ∧
      c.finished = 0 ∧ Grammar.Built false c tokens body d ∧ (∀ t ∈ body, t.isStatement) ∧
      t = ⟨some (.node d.finished ⟨0,d.current.span.stop⟩ (.program body))⟩ := by
  obtain ⟨first,others,root,hs,hp,rfl⟩ := parseText_eq_ok h
  obtain ⟨tokens,body,d,hb,hbody,hk,rfl⟩ :=
    Grammar.parseTokens_reads (Token.scanFrom_spec hs).1 hp
  have hrest : first :: others = tokens ++ d.rest := hb.reads.rest_eq hb.start
  have hend : d.rest = [d.current] := by
    obtain ⟨current,ahead,stop,n⟩ := d
    cases hb.stop with
    | last => rfl
    | cons hne => contradiction
  rw [hrest,hend] at hs
  exact ⟨tokens,body,_,d,hs,hk,rfl,hb,hbody,rfl⟩

namespace Grammar
variable {c d : Cursor} {tokens : List Token} {body : List Tree} {span : Span}

/-- All that is read before the end of input is numbered from zero on, the program last. -/
lemma numbered_program (h : Reads c tokens body d) (hc : c.finished = 0) :
    (Tree.node d.finished span (.program body)).Numbered := by
  obtain ⟨n,hn,hids⟩ := h.numbered
  rw [hc] at hn hids
  rw [Tree.Numbered,Tree.postorder_eq,List.map_append,Tree.children,Tree.shape,Shape.children,hids]
  rw [Tree.id,hn,Nat.zero_add,List.range_succ,List.range_eq_range']
  simp [Tree.id]

lemma written_program (h : Reads c tokens body d) (hc : c.WellFormed) :
    ∀ t ∈ (Tree.node d.finished span (.program body)).preorder, t.Written tokens := by
  intro t ht
  rcases Tree.mem_preorder.mp ht with rfl | ⟨u,hu,ht⟩
  · trivial
  · exact h.written hc u hu t ht

end Grammar

theorem parseSource_eq_ok {content : ByteArray} {t : SyntaxTree} (h : parseSource content = .ok t) :
    ∃ cs, Text.decode content = .ok cs ∧ parseText cs = .ok t := by
  unfold parseSource at h
  split at h
  · cases h
  next cs hcs => exact ⟨cs,hcs,h⟩

/-- A source is refused by its bytes, its characters or its tokens. -/
theorem parseSource_eq_error {content : ByteArray} {e : SyntaxError}
    (h : parseSource content = .error e) :
    (e.fault = .notUtf8 ∧ Text.decode content = .error e.offset) ∨
      ∃ cs, Text.decode content = .ok cs ∧ (Token.scan cs = .error e ∨
      ∃ first others, Token.scan cs = .ok (first :: others) ∧
        Grammar.parseTokens first others = .error e) := by
  unfold parseSource at h
  split at h
  · next hn =>
    cases h
    exact .inl ⟨rfl,hn⟩
  next cs hcs =>
  refine .inr ⟨cs,hcs,?_⟩
  unfold parseText at h
  split at h
  · next hs =>
    cases h
    exact .inl hs
  · cases h
  · next first others hs =>
    split at h
    · next hp =>
      cases h
      exact .inr ⟨first,others,hs,hp⟩
    · cases h

theorem parseSource_parsed {content : ByteArray} {t : SyntaxTree}
    (h : parseSource content = .ok t) :
    ∃ root, t = ⟨some root⟩ ∧ Parsed content.data.toList root := by
  obtain ⟨cs,hcs,h⟩ := parseSource_eq_ok h
  obtain ⟨tokens,body,c,d,hscan,hk,hc,hb,hs,rfl⟩ := parseText_built h
  have hwritten : ∀ t ∈ (Tree.node d.finished ⟨0,d.current.span.stop⟩ (.program body)).preorder,
      t.Written tokens := Grammar.written_program hb.reads hb.start
  have hspelled := (Token.scanFrom_spec hscan).2
  refine ⟨_,rfl,rfl,Grammar.numbered_program hb.reads hc,.intro hs hb.reads.grammatical,
    ?_,?_,?_,?_,?_⟩
  · intro hreturns
    rcases hreturns.cases_or with hret | ⟨_,u,hu,hret⟩
    · contradiction
    · cases hb.returns u hu hret
  · refine (hb.reads.row hb.start).widen (Nat.zero_le _) ?_
    exact Nat.le_trans hb.stop.le_start hb.stop.start_le_stop
  · rw [Text.decode_eq_ok hcs,Text.length_encode]
    exact (hspelled d.current (List.mem_append_right _ (.head _))).stop_le
  · intro t ht x hx
    have hw := hwritten t ht
    rw [Tree.Written,Tree.shape_of_name hx] at hw
    obtain ⟨token,htoken,hspan,rfl⟩ := hw
    rw [Text.decode_eq_ok hcs,hspan]
    exact (hspelled token (List.mem_append_left _ htoken)).spells
  · intro t ht id value hshape
    have hw := hwritten t ht
    rw [Tree.Written,hshape] at hw
    exact hw

/-! A file with one function, which returns a variable from inside of a block. -/
namespace Sample

def source : ByteArray := "function f(a){let x=a;{return x}}".toUTF8

def declarator : Tree :=
  .node 4 ⟨18,21⟩ (.declarator (.node 2 ⟨18,19⟩ (.identifier "x"))
    (some (.node 3 ⟨20,21⟩ (.identifier "a"))))

def declaration : Tree := .node 5 ⟨14,22⟩ (.variableDeclaration .let_ [declarator])

def returned : Tree := .node 6 ⟨30,31⟩ (.identifier "x")

def block : Tree := .node 8 ⟨22,32⟩ (.block [.node 7 ⟨23,31⟩ (.returnStatement (some returned))])

def body : Tree := .node 9 ⟨13,33⟩ (.block [declaration,block])

def function : Tree :=
  .node 10 ⟨0,33⟩ (.function .declaration (some (.node 0 ⟨9,10⟩ (.identifier "f")))
    [.node 1 ⟨11,12⟩ (.identifier "a")] body)

def program : Tree := .node 11 ⟨0,33⟩ (.program [function])

theorem parseSource_eq : parseSource source = .ok ⟨some program⟩ := by cbv

/-- Where the function returns. -/
def ret : Position :=
  ⟨.node 7 ⟨23,31⟩ (.returnStatement (some returned)),[block,body,function,program]⟩

theorem ret_mem : ret ∈ program.table.preorder := by
  rw [Tree.preorder_table]
  have hfunction : program.top.child function ∈ program.top.preorder :=
    Position.child_mem_preorder (Position.self_mem_preorder _) (.head _)
  have hbody := Position.child_mem_preorder hfunction (c := body) (.tail _ (.tail _ (.head _)))
  have hblock := Position.child_mem_preorder hbody (c := block) (.tail _ (.head _))
  exact Position.child_mem_preorder hblock (.head _)

end Sample
end ScriptLint
