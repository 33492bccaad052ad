import Mathlib
import ScriptLint.Proofs.Leaves
import ScriptLint.Proofs.Partition

/-! The places of the nodes of a tree. They begin and end with tokens, lie in each other as the
nodes do, and follow one another, except for the key and the function of a method: the function of a
method begins before its key, where the method does. -/
namespace ScriptLint

/-- Before the end of input, each token ends after the one before. -/
theorem Grammar.Tokens.stop_lt {n : Nat} {tokens more : List Token} (h : Tokens n (tokens ++ more))
    (hproper : ∀ t ∈ tokens, t.kind ≠ .endOfInput) :
    tokens.Pairwise (·.span.stop < ·.span.stop) := by
  refine (List.pairwise_append.mp h.ordered).1.imp_of_mem ?_
  intro t u _ hu htu
  have hlt := h.start_lt_stop u (List.mem_append_left _ hu) (hproper u hu)
  omega

namespace Tree
variable {tokens more : List Token} {t : Tree} {sign : Punct}

/-- The first token behind a node, but for the brackets that close around it. -/
def behind? (tokens : List Token) (t : Tree) : Option TokenKind :=
  ((tokens.dropWhile (·.span.stop ≤ t.span.stop)).dropWhile (·.kind.closes)).head?.map Token.kind

/-- Whether a node is a property that is written as a method or an accessor: its parameters stand
behind its key. -/
def isMethodAmong (tokens : List Token) (t : Tree) : Bool :=
  match t.shape with
  | .property key _ _ => key.behind? tokens == some (.punct .openParen)
  | _ => false

theorem FollowedBy.mono (h : t.FollowedBy tokens sign) (hsub : tokens <:+: more) :
    t.FollowedBy more sign := by
  obtain ⟨front,back,rfl⟩ := hsub
  obtain ⟨before,next,after,rfl,htrails,hnext⟩ := h
  exact ⟨front ++ before,next,after ++ back,by simp,htrails.prepend front,hnext⟩

theorem FollowedBy.behind_eq (h : t.FollowedBy tokens sign)
    (hordered : tokens.Pairwise (·.span.stop < ·.span.stop))
    (hsign : (TokenKind.punct sign).closes = false) : t.behind? tokens = some (.punct sign) := by
  obtain ⟨before,next,after,rfl,⟨front,node,closing,rfl,hstop,hclosing⟩,hnext⟩ := h
  have hsplit : front ++ node :: closing ++ next :: after =
      (front ++ [node]) ++ (closing ++ next :: after) := by simp
  rw [hsplit] at hordered ⊢
  obtain ⟨hfront,_,hbehind⟩ := List.pairwise_append.mp hordered
  have hupTo : ∀ u ∈ front ++ [node], decide (u.span.stop ≤ t.span.stop) := by
    intro u hu
    have hlast := (List.pairwise_append.mp hfront).2.2
    simp only [List.mem_append,List.mem_singleton] at hu
    rcases hu with hu | rfl
    · have hlt := hlast u hu node (.head _)
      exact decide_eq_true (by omega)
    · exact decide_eq_true (Nat.le_of_eq hstop)
  have hbeyond : (closing ++ next :: after).dropWhile (·.span.stop ≤ t.span.stop) =
      closing ++ next :: after := by
    rw [List.dropWhile_eq_self_iff]
    intro hl
    have hlt := hbehind node (by simp) _ (List.getElem_mem hl)
    simpa [← hstop] using hlt
  rw [behind?,List.dropWhile_append_of_pos hupTo,hbeyond,List.dropWhile_append_of_pos hclosing,
    List.dropWhile_cons_of_neg (by simp [hnext,hsign]),List.head?_cons,Option.map_some,hnext]

/-- What the tokens of a tree say of a node in it: it begins and ends with some of them, and how a
property is written shows behind its key. -/
structure Delimited (tokens : List Token) (t : Tree) : Prop where
  bounded : t.span.Bounded tokens
  property : ∀ key value computed, t.shape = .property key value computed →
    key.FollowedBy tokens .colon ∧ key.span.stop ≤ value.span.start ∨
      key.FollowedBy tokens .openParen ∧ value.isFunction ∧ value.span = t.span

theorem Delimited.mono (h : t.Delimited tokens) (hsub : tokens <:+: more) : t.Delimited more := by
  refine ⟨h.bounded.mono hsub.subset,?_⟩
  intro key value computed hshape
  refine (h.property key value computed hshape).imp ?_ ?_
  · exact fun h => ⟨h.1.mono hsub,h.2⟩
  · exact fun h => ⟨h.1.mono hsub,h.2⟩

namespace Delimited
variable (h : t.Delimited tokens) (hordered : tokens.Pairwise (·.span.stop < ·.span.stop))
include h hordered

/-- The function of a method is where the method is. -/
theorem method {key value : Tree} {computed : Bool} (hshape : t.shape = .property key value computed)
    (hm : t.isMethodAmong tokens) : value.isFunction ∧ value.span = t.span := by
  rcases h.property key value computed hshape with ⟨hcolon,_⟩ | ⟨_,hmethod⟩
  · rw [isMethodAmong,hshape] at hm
    simp [hcolon.behind_eq hordered rfl] at hm
  · exact hmethod

/-- A node that is not a method among its tokens is none by the places of its parts. -/
theorem isMethod_eq_false (hp : t.Placed) (hm : t.isMethodAmong tokens = false) :
    t.isMethod = false := by
  unfold isMethod
  split
  next key value computed hshape =>
    rcases h.property key value computed hshape with ⟨_,hle⟩ | ⟨hparen,_⟩
    · have hkey : key ∈ t.children := by simp [children,hshape,Shape.children]
      have hin := hp.inside hkey
      have hproper := (hp.child hkey).start_lt_stop
      have hne : value.span.start ≠ t.span.start := by omega
      simp [hne]
    · rw [isMethodAmong,hshape] at hm
      simp [hparen.behind_eq hordered rfl] at hm
  next => rfl

end Delimited
end Tree

namespace Grammar

theorem Reads.delimited {c d : Cursor} {tokens : List Token} {trees : List Tree}
    (h : Reads c tokens trees d) (hc : c.WellFormed) :
    ∀ t ∈ trees, ∀ u ∈ t.preorder, u.Delimited tokens := by
  refine h.forall_nodes (fun h hsub => h.mono hsub) ?_ ?_ hc
  · intro token i shape hl
    refine ⟨⟨⟨token,.head _,rfl⟩,token,.head _,rfl⟩,?_⟩
    intro key value computed hshape
    obtain rfl : shape = _ := hshape
    cases hl.children
  · intro tokens i span shape hs hbounded
    refine ⟨hbounded,?_⟩
    intro key value computed hshape
    obtain rfl : shape = _ := hshape
    exact hs

end Grammar

/-- The places of the nodes of a file that is accepted. The program takes up the whole file. Every
other node takes up some bytes, begins where a token begins and ends where one ends. Each node lies
inside the one above it, and those below one node follow one another, unless it is a method or an
accessor, whose function takes up as much as the method itself. -/
theorem parseSource_spans {content : ByteArray} {t : SyntaxTree} (h : parseSource content = .ok t) :
    ∃ cs tokens last root, Text.decode content = .ok cs ∧ Token.scan cs = .ok (tokens ++ [last]) ∧
      last.kind = .endOfInput ∧ t = ⟨some root⟩ ∧ root.isProgram ∧
      root.span = ⟨0,content.size⟩ ∧
      ∀ p ∈ t.preorder,
        (p.ancestors ≠ [] → p.node.span.start < p.node.span.stop ∧ p.node.span.Bounded tokens) ∧
        (∀ c ∈ p.node.children,
          p.node.span.start ≤ c.span.start ∧ c.span.stop ≤ p.node.span.stop) ∧
        (p.node.isMethodAmong tokens = false →
          p.node.children.Pairwise (·.span.stop ≤ ·.span.start)) ∧
        ∀ key value computed, p.node.shape = .property key value computed →
          p.node.isMethodAmong tokens → value.isFunction ∧ value.span = p.node.span := by
  obtain ⟨root,rfl,hparsed⟩ := parseSource_parsed h
  obtain ⟨cs,hcs,h⟩ := parseSource_eq_ok h
  obtain ⟨tokens,body,c,d,hs,hk,_,hb,_,hroot⟩ := parseText_built h
  cases hroot
  obtain ⟨front,last,heq,_,hlast,hproper⟩ := (Token.scanFrom_divided hs).exists_last
  obtain ⟨rfl,hcurrent⟩ := List.append_inj' heq rfl
  obtain rfl := (List.cons.inj hcurrent).1
  have hordered := (Token.scanFrom_spec hs).1.stop_lt hproper
  have hsize : d.current.span.stop = content.size := by
    rw [hlast,← ByteArray.size_data,← Array.length_toList,Text.decode_eq_ok hcs,Text.length_encode]
    exact Nat.zero_add _
  refine ⟨cs,tokens,d.current,_,hcs,hs,hk,rfl,rfl,by rw [Tree.span,hsize],?_⟩
  intro p hp
  rw [Tree.preorder_table] at hp
  rcases Position.mem_preorder.mp hp with rfl | ⟨u,hu,hbelow⟩
  · refine ⟨fun hne => absurd rfl hne,?_,fun _ => hparsed.row.ordered,?_⟩
    · exact fun c hc => hparsed.row.inside c hc
    · intro key value computed hshape
      cases hshape
  · have hplaced := hparsed.placed_at p hp
      (Position.ancestors_ne_nil (List.cons_ne_nil _ _) p hbelow)
    have hdelimited := hb.reads.delimited hb.start u hu p.node (Position.node_mem_preorder hbelow)
    refine ⟨fun _ => ⟨hplaced.start_lt_stop,hdelimited.bounded⟩,fun c hc => hplaced.inside hc,?_,?_⟩
    · exact fun hm => hplaced.ordered (hdelimited.isMethod_eq_false hordered hplaced hm)
    · exact fun key value computed hshape hm => hdelimited.method hordered hshape hm

namespace Accessor

def text : List Char := "a={get 1(){}}".toList

/-- All tokens but the end of input. -/
def tokens : List Token :=
  [⟨.name "a",⟨0,1⟩,false⟩,⟨.punct .assign,⟨1,2⟩,false⟩,⟨.punct .openBrace,⟨2,3⟩,false⟩,
    ⟨.name "get",⟨3,6⟩,false⟩,⟨.number "1",⟨7,8⟩,false⟩,⟨.punct .openParen,⟨8,9⟩,false⟩,
    ⟨.punct .closeParen,⟨9,10⟩,false⟩,⟨.punct .openBrace,⟨10,11⟩,false⟩,
    ⟨.punct .closeBrace,⟨11,12⟩,false⟩,⟨.punct .closeBrace,⟨12,13⟩,false⟩]

theorem decode_eq : Text.decode source = .ok text := by cbv

theorem scan_eq : Token.scan text = .ok (tokens ++ [⟨.endOfInput,⟨13,13⟩,false⟩]) := by cbv

end Accessor

theorem parseSource_spans_sample :
    parseSource Accessor.source = .ok ⟨some Accessor.program⟩ ∧
      Accessor.property.isMethodAmong Accessor.tokens ∧
      Accessor.property.span.Bounded Accessor.tokens ∧
      ∀ key value computed, Accessor.property.shape = .property key value computed →
        value.isFunction ∧ value.span = Accessor.property.span := by
  obtain ⟨cs,tokens,last,root,hcs,hs,_,_,_,_,hall⟩ := parseSource_spans Accessor.parseSource_eq
  obtain rfl : Accessor.text = cs := Except.ok.inj (Accessor.decode_eq.symm.trans hcs)
  have heq := Except.ok.inj (Accessor.scan_eq.symm.trans hs)
  obtain rfl := (List.append_inj' heq rfl).1
  have hstatement : Accessor.program.top.child Accessor.statement ∈ Accessor.program.top.preorder :=
    Position.child_mem_preorder (Position.self_mem_preorder _) (.head _)
  have hassignment := Position.child_mem_preorder hstatement (c := Accessor.assignment) (.head _)
  have hobject := Position.child_mem_preorder hassignment (.tail _ (.head _))
  have hproperty := Position.child_mem_preorder hobject (c := Accessor.property) (.head _)
  rw [← Tree.preorder_table] at hproperty
  obtain ⟨hproper,_,_,hmethod⟩ := hall _ hproperty
  have hm : Accessor.property.isMethodAmong Accessor.tokens := by decide
  exact ⟨Accessor.parseSource_eq,hm,(hproper (List.cons_ne_nil _ _)).2,
    fun key value computed hshape => hmethod key value computed hshape hm⟩

end ScriptLint
