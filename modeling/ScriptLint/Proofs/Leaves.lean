import Mathlib
import ScriptLint.Proofs.Parsed

/-! The leaves of a tree against the tokens of its text. A parser passes a token over or makes one
leaf of it, and the leaves of a tree come in the order of their tokens; which tokens are passed over
is known by their kinds. -/
namespace ScriptLint

/-- A number, a string or a template. -/
def TokenKind.isLiteral : TokenKind → Bool
  | .number _ | .string _ | .template _ => true
  | _ => false

/-- A word, reserved or not. -/
def TokenKind.isWord : TokenKind → Bool
  | .reserved _ | .name _ => true
  | _ => false

/-- What is written and where. -/
def Token.written (t : Token) : String × Span := (t.kind.text,t.span)

namespace Tree

/-- A node that is one token. -/
def isLeaf (t : Tree) : Bool :=
  match t.shape with
  | .identifier _ | .literal .. | .this => true
  | _ => false

/-- The text and the place of a number, a string or a template. -/
def literal? (t : Tree) : Option (String × Span) :=
  match t.shape with
  | .literal .number raw | .literal .string raw | .literal .template raw => some (raw,t.span)
  | _ => none

/-- The name and the place of an identifier. -/
def identifier? (t : Tree) : Option (String × Span) := t.name?.map (·,t.span)

/-- The leaves at and below some nodes, in source order. -/
def leaves (trees : List Tree) : List Tree := (trees.flatMap preorder).filter isLeaf

theorem preorder_eq (t : Tree) : t.preorder = t :: t.children.flatMap preorder := by
  rw [preorder]
  simp [List.flatMap]

theorem leaves_append (trees trees' : List Tree) :
    leaves (trees ++ trees') = leaves trees ++ leaves trees' := by
  rw [leaves,List.flatMap_append,List.filter_append]
  rfl

theorem leaves_cons (t : Tree) (trees : List Tree) :
    leaves (t :: trees) = leaves [t] ++ leaves trees := leaves_append [t] trees

/-- The leaves of a node that is no leaf are those of the nodes below it. -/
theorem leaves_node {t : Tree} (h : t.isLeaf = false) : leaves [t] = leaves t.children := by
  rw [leaves,List.flatMap_singleton,preorder_eq,List.filter_cons_of_neg (by simp [h])]
  rfl

theorem leaves_leaf {t : Tree} (h : t.isLeaf) (hc : t.children = []) : leaves [t] = [t] := by
  rw [leaves,List.flatMap_singleton,preorder_eq,hc,List.filter_cons_of_pos h]
  rfl

theorem filterMap_leaves {α : Type} {f : Tree → Option α} (trees : List Tree)
    (h : ∀ t : Tree, t.isLeaf = false → f t = none) :
    (leaves trees).filterMap f = (trees.flatMap preorder).filterMap f := by
  rw [leaves,List.filterMap_filter]
  refine List.filterMap_congr fun t _ => ?_
  cases ht : t.isLeaf with
  | true => rfl
  | false => exact (h t ht).symm

theorem literal_eq_none {t : Tree} (h : t.isLeaf = false) : t.literal? = none := by
  obtain ⟨i,span,shape⟩ := t
  cases shape with
  | literal => contradiction
  | _ => rfl

theorem identifier_eq_none {t : Tree} (h : t.isLeaf = false) : t.identifier? = none := by
  obtain ⟨i,span,shape⟩ := t
  cases shape with
  | identifier => contradiction
  | _ => rfl

end Tree

theorem Shape.Composite.isLeaf_eq {i : Nat} {span span' : Span} {tokens : List Token}
    {shape : Shape Tree} (h : shape.Composite span tokens) :
    (Tree.node i span' shape).isLeaf = false := by
  cases shape with
  | identifier | literal | this => exact h.elim
  | _ => rfl

theorem Position.map_node_preorder (p : Position) : p.preorder.map node = p.node.preorder := by
  induction p using below_induction with
  | step p ih =>
    rw [preorder_eq,Tree.preorder_eq,List.map_cons,List.map_flatMap]
    exact congrArg _ (List.flatMap_congr ih)

namespace Grammar

namespace Leaf
variable {token : Token} {i : NodeId} {shape : Shape Tree}

theorem isLeaf_eq {kind : TokenKind} {span : Span} (h : Leaf kind shape) :
    (Tree.node i span shape).isLeaf := by
  cases h <;> rfl

theorem literal_eq (h : Leaf token.kind shape) :
    (Tree.node i token.span shape).literal? =
      if token.kind.isLiteral then some token.written else none := by
  generalize hk : token.kind = kind at h
  cases h with
  | constant w kind _ hword => rcases hword with rfl | rfl <;> rfl
  | number | string | template =>
    rw [Token.written,hk]
    rfl
  | _ => rfl

/-- An identifier is the word it was read from, and a word that is none is silent. -/
theorem identifier_cases (h : Leaf token.kind shape) :
    ((Tree.node i token.span shape).identifier? = some token.written ∧ token.kind.isWord) ∨
      ((Tree.node i token.span shape).identifier? = none ∧
        (token.kind.isWord → token.kind.isSilent)) := by
  generalize hk : token.kind = kind at h
  cases h with
  | name | word =>
    rw [Token.written,hk]
    exact .inl ⟨rfl,rfl⟩
  | this | constant => exact .inr ⟨rfl,fun _ => rfl⟩
  | number | string | template => exact .inr ⟨rfl,id⟩

end Leaf

/-- Words are silent when they are reserved, be it only in some places. -/
theorem isSilent_of_isWord {kind : TokenKind} (hw : kind.isWord)
    (hr : Keyword.ofText? kind.text = none) (hp : kind.text ∉ ["let","of","get","set"]) :
    kind.isSilent = false := by
  cases kind with
  | reserved w => cases w.ofText_text.symm.trans hr
  | name x => simpa [TokenKind.isSilent,TokenKind.text,and_assoc] using hp
  | _ => contradiction

/-- Each of some tokens is silent or is the next of some leaves. -/
inductive Accounts : List Token → List Tree → Prop
  | nil : Accounts [] []
  | silent {token : Token} {tokens : List Token} {leaves : List Tree} (h : token.kind.isSilent)
      (more : Accounts tokens leaves) : Accounts (token :: tokens) leaves
  | leaf {token : Token} {tokens : List Token} {leaves : List Tree} {i : NodeId}
      {shape : Shape Tree} (h : Leaf token.kind shape) (more : Accounts tokens leaves) :
      Accounts (token :: tokens) (.node i token.span shape :: leaves)

namespace Accounts
variable {tokens tokens' : List Token} {leaves leaves' : List Tree}

theorem append (h : Accounts tokens leaves) (h' : Accounts tokens' leaves') :
    Accounts (tokens ++ tokens') (leaves ++ leaves') := by
  induction h with
  | nil => exact h'
  | silent hs _ ih => exact .silent hs ih
  | leaf hl _ ih => exact .leaf hl ih

lemma isLiteral_of_isSilent {kind : TokenKind} (h : kind.isSilent) : kind.isLiteral = false := by
  cases kind with
  | number | string | template => contradiction
  | _ => rfl

/-- The numbers, strings and templates are all there. -/
theorem literals_eq (h : Accounts tokens leaves) :
    leaves.filterMap Tree.literal? = (tokens.filter (·.kind.isLiteral)).map Token.written := by
  induction h with
  | nil => rfl
  | silent hs _ ih => rw [ih,List.filter_cons_of_neg (by simp [isLiteral_of_isSilent hs])]
  | @leaf token _ _ _ _ hl _ ih =>
    rw [List.filterMap_cons,hl.literal_eq,ih,List.filter_cons]
    cases token.kind.isLiteral <;> rfl

/-- Every identifier is a word. -/
theorem identifiers_sublist (h : Accounts tokens leaves) :
    (leaves.filterMap Tree.identifier?).Sublist
      ((tokens.filter (·.kind.isWord)).map Token.written) := by
  induction h with
  | nil => exact .slnil
  | @silent token tokens _ _ _ ih =>
    exact ih.trans (((List.sublist_cons_self token tokens).filter _).map _)
  | @leaf token tokens _ i shape hl _ ih =>
    rcases hl.identifier_cases (i := i) with ⟨hsome,hword⟩ | ⟨hnone,_⟩
    · rw [List.filterMap_cons_some hsome,List.filter_cons,if_pos hword]
      exact ih.cons_cons _
    · rw [List.filterMap_cons_none hnone]
      exact ih.trans (((List.sublist_cons_self token tokens).filter _).map _)

/-- Every word that is not silent is an identifier. -/
theorem words_sublist (h : Accounts tokens leaves) :
    ((tokens.filter fun t => t.kind.isWord && !t.kind.isSilent).map Token.written).Sublist
      (leaves.filterMap Tree.identifier?) := by
  induction h with
  | nil => exact .slnil
  | silent hs _ ih => rwa [List.filter_cons_of_neg (by simp [hs])]
  | @leaf token tokens _ i shape hl _ ih =>
    rcases hl.identifier_cases (i := i) with ⟨hsome,hword⟩ | ⟨hnone,hsilent⟩
    · rw [List.filterMap_cons_some hsome,List.filter_cons]
      split
      · exact ih.cons_cons _
      · exact ih.cons _
    · rwa [List.filterMap_cons_none hnone,List.filter_cons_of_neg (by simpa using hsilent)]

end Accounts

/-- Every token that is read is silent or a leaf of what is finished. -/
theorem Reads.accounts {c d : Cursor} {tokens : List Token} {trees : List Tree}
    (h : Reads c tokens trees d) : Accounts tokens (Tree.leaves trees) := by
  induction h with
  | done => exact .nil
  | pass _ hs ih =>
    have hpassed := ih.append (.silent hs .nil)
    rwa [List.append_nil] at hpassed
  | leaf hl =>
    rw [Tree.leaves_leaf hl.isLeaf_eq hl.children]
    exact .leaf hl .nil
  | append _ _ ih ih' =>
    rw [Tree.leaves_append]
    exact ih.append ih'
  | finish _ _ hs _ ih =>
    rw [Tree.leaves_node hs.isLeaf_eq]
    exact ih
  | @method _ _ _ key _ _ _ _ _ _ _ _ _ _ ih =>
    -- Neither the property nor the function in it is a leaf.
    rw [Tree.leaves_node rfl]
    change Accounts _ (Tree.leaves [key,_])
    rw [Tree.leaves_cons,Tree.leaves_node (t := .node ..) rfl,← Tree.leaves_cons]
    exact ih

end Grammar

/-- What is asked of leaves only is found among the leaves. -/
theorem Tree.filterMap_preorder {α : Type} {f : Tree → Option α} (root : Tree)
    (h : ∀ t : Tree, t.isLeaf = false → f t = none) :
    (root.table.preorder.filterMap fun p => f p.node) = (leaves [root]).filterMap f := by
  rw [filterMap_leaves _ h,List.flatMap_singleton,preorder_table]
  change (root.top.preorder.filterMap (f ∘ Position.node)) = _
  rw [← List.filterMap_map,Position.map_node_preorder]
  rfl

/-- What is found only once is found at one place. -/
lemma eq_of_nodup_filterMap {α β : Type} {l : List α} {f : α → Option β} {a b : α} {y : β}
    (h : (l.filterMap f).Nodup) (ha : a ∈ l) (hb : b ∈ l) (hfa : f a = some y)
    (hfb : f b = some y) : a = b := by
  have hsymm : Std.Symm fun a b => ∀ y, f a = some y → ∀ z, f b = some z → y ≠ z :=
    ⟨fun a b hab y hy z hz => (hab z hz y hy).symm⟩
  by_contra hne
  exact (List.pairwise_filterMap.mp h).forall ha hb hne y hfa y hfb rfl

/-- The tokens of a text that is accepted: what its tree accounts for, and the end of input. -/
theorem parseText_accounts {cs : List Char} {t : SyntaxTree} (h : parseText cs = .ok t) :
    ∃ tokens last root, Token.scan cs = .ok (tokens ++ [last]) ∧
      Grammar.Tokens 0 (tokens ++ [last]) ∧ last.kind = .endOfInput ∧ t = ⟨some root⟩ ∧
      Grammar.Accounts tokens (Tree.leaves [root]) := by
  obtain ⟨tokens,body,c,d,hs,hk,_,hb,_,rfl⟩ := parseText_built h
  refine ⟨tokens,d.current,_,hs,(Token.scanFrom_spec hs).1,hk,rfl,?_⟩
  rw [Tree.leaves_node rfl]
  exact hb.reads.accounts

/-- No leaf is lost, doubled or moved. The numbers, strings and templates of a tree are those of its
text in their order; its identifiers are words of the text, each after the one before; and a word
that is neither reserved nor one of those that are reserved in some places is one identifier. -/
theorem parseSource_leaves {content : ByteArray} {t : SyntaxTree} (h : parseSource content = .ok t) :
    ∃ cs tokens, Text.decode content = .ok cs ∧ Token.scan cs = .ok tokens ∧
      (t.preorder.filterMap fun p => p.node.literal?) =
        (tokens.filter (·.kind.isLiteral)).map Token.written ∧
      (t.preorder.filterMap fun p => p.node.identifier?).Pairwise (fun a b =>
        a.2.start < b.2.start ∧ a.2.stop ≤ b.2.start) ∧
      (∀ p ∈ t.preorder, ∀ x, p.node.name? = some x →
        ∃ token ∈ tokens, token.kind.isWord ∧ token.kind.text = x ∧ token.span = p.node.span) ∧
      ∀ token ∈ tokens, token.kind.isWord → Keyword.ofText? token.kind.text = none →
        token.kind.text ∉ ["let","of","get","set"] →
        ∃! p, p ∈ t.preorder ∧ p.node.name? = some token.kind.text ∧ p.node.span = token.span := by
  obtain ⟨cs,hcs,h⟩ := parseSource_eq_ok h
  obtain ⟨tokens,last,root,hs,htokens,hlast,rfl,haccounts⟩ := parseText_accounts h
  have hliteral := root.filterMap_preorder fun _ => Tree.literal_eq_none
  have hidentifier := root.filterMap_preorder fun _ => Tree.identifier_eq_none
  have hentry (p : Position) (x : String) (span : Span) :
      p.node.identifier? = some (x,span) ↔ p.node.name? = some x ∧ p.node.span = span := by
    simp [Tree.identifier?]
  have hwords : (tokens.filter (·.kind.isWord)).Sublist (tokens ++ [last]) :=
    List.filter_sublist.trans (List.sublist_append_left ..)
  have hordered : ((Tree.leaves [root]).filterMap Tree.identifier?).Pairwise fun a b =>
      a.2.start < b.2.start ∧ a.2.stop ≤ b.2.start :=
    (List.pairwise_map.mpr (htokens.ordered.sublist hwords)).sublist haccounts.identifiers_sublist
  refine ⟨cs,_,hcs,hs,?_,?_,?_,?_⟩
  · rw [hliteral,haccounts.literals_eq,List.filter_append]
    simp [TokenKind.isLiteral,hlast]
  · rwa [hidentifier]
  · intro p hp x hx
    have hmem : (x,p.node.span) ∈ (Tree.leaves [root]).filterMap Tree.identifier? := by
      rw [← hidentifier]
      exact List.mem_filterMap.mpr ⟨p,hp,(hentry ..).mpr ⟨hx,rfl⟩⟩
    obtain ⟨token,htoken,heq⟩ := List.mem_map.mp (haccounts.identifiers_sublist.subset hmem)
    obtain ⟨htoken,hword⟩ := List.mem_filter.mp htoken
    obtain ⟨htext,hspan⟩ := Prod.mk.inj heq
    exact ⟨token,List.mem_append_left _ htoken,hword,htext,hspan⟩
  · intro token htoken hword hreserved hplain
    have hread : token ∈ tokens := by
      rcases List.mem_append.mp htoken with htoken | htoken
      · exact htoken
      · rw [List.mem_singleton.mp htoken,hlast] at hword
        contradiction
    have hmem := haccounts.words_sublist.subset (List.mem_map_of_mem (List.mem_filter.mpr
      ⟨hread,by simp [hword,Grammar.isSilent_of_isWord hword hreserved hplain]⟩))
    have hnodup := hordered.imp (S := (· ≠ ·)) fun hab he => Nat.lt_irrefl _ (he ▸ hab.1)
    rw [← hidentifier] at hmem hnodup
    obtain ⟨p,hp,hsome⟩ := List.mem_filterMap.mp hmem
    refine ⟨p,⟨hp,(hentry ..).mp hsome⟩,?_⟩
    rintro q ⟨hq,hname⟩
    exact eq_of_nodup_filterMap hnodup hq hp ((hentry ..).mpr hname) hsome

/-! An accessor whose key is a number. -/
namespace Accessor

def source : ByteArray := "a={get 1(){}}".toUTF8

def target : Tree := .node 0 ⟨0,1⟩ (.identifier "a")

def property : Tree :=
  .node 4 ⟨3,12⟩ (.property (.node 1 ⟨7,8⟩ (.literal .number "1"))
    (.node 3 ⟨3,12⟩ (.function .expression none [] (.node 2 ⟨10,12⟩ (.block [])))) false)

def assignment : Tree :=
  .node 6 ⟨0,13⟩ (.assignment .assign target (.node 5 ⟨2,13⟩ (.object [property])))

def statement : Tree := .node 7 ⟨0,13⟩ (.expressionStatement assignment)

def program : Tree := .node 8 ⟨0,13⟩ (.program [statement])

theorem parseSource_eq : parseSource source = .ok ⟨some program⟩ := by cbv

end Accessor

theorem parseSource_leaves_sample :
    ∃ cs tokens, Text.decode Accessor.source = .ok cs ∧ Token.scan cs = .ok tokens ∧
      (tokens.filter (·.kind.isLiteral)).map Token.written = [("1",⟨7,8⟩)] ∧
      ∃! p, p ∈ Accessor.program.table.preorder ∧ p.node.name? = some "a" ∧
        p.node.span = ⟨0,1⟩ := by
  obtain ⟨cs,tokens,hcs,hs,hliteral,_,hname,hunique⟩ := parseSource_leaves Accessor.parseSource_eq
  have hstatement : Accessor.program.top.child Accessor.statement ∈ Accessor.program.top.preorder :=
    Position.child_mem_preorder (Position.self_mem_preorder _) (.head _)
  have hassignment := Position.child_mem_preorder hstatement (c := Accessor.assignment) (.head _)
  have htarget := Position.child_mem_preorder hassignment (c := Accessor.target) (.head _)
  rw [← Tree.preorder_table] at htarget
  obtain ⟨token,htoken,hword,htext,hspan⟩ := hname _ htarget "a" rfl
  have hplain := hunique token htoken hword
  rw [htext,hspan] at hplain
  exact ⟨cs,tokens,hcs,hs,hliteral.symm.trans (by cbv),hplain (by decide) (by decide)⟩

end ScriptLint
