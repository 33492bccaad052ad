import Mathlib
import ScriptLint.Proofs.Brackets.Statement
import ScriptLint.Proofs.Leaves

/-! The look ahead for an arrow counts brackets of all kinds alike. In a source file that is
accepted this does no harm: its brackets are properly nested, so the count ends at the bracket that
closes the first one, and an arrow function reads its parameters up to the same place. -/
namespace ScriptLint

namespace Grammar

/-- A list of parameters is read from a parenthesis to the one that closes it. -/
lemma parameterList_parts {n : Nat} {s : Surroundings} {c : Cursor} (hc : c.WellFormed) :
    Yields (parameterList (productions n)) s c fun _ d => ∃ inner closing,
      c.rest = c.current :: (inner ++ closing :: d.rest) ∧ Bracketed inner ∧
      c.current.kind = .punct .openParen ∧ closing.kind = .punct .closeParen := by
  rw [parameterList,yields_bind,yields_expectPunct]
  intro hopen
  rw [yields_bind]
  refine ((tallied_productions n).parameters s c.advance (Tally.start hc.advance)).mono ?_
  intro params d hd
  rw [yields_bind,yields_expectPunct]
  intro hclose
  rw [yields_pure]
  obtain ⟨inner,heq,hinner⟩ := hd.passed
  refine ⟨inner,d.current,?_,hinner,hopen,hclose⟩
  rw [hc.rest_eq (by simp [hopen]),heq,hd.wellFormed.rest_eq (by simp [hclose])]

/-- What is known when a program is read to its end. -/
lemma parseTokens_tally {first : Token} {others : List Token} {root : Tree}
    (ht : Tokens 0 (first :: others)) (h : parseTokens first others = .ok root) :
    ∃ d, d.current.kind = .endOfInput ∧ Tally (first :: others) [] [root] d := by
  have hprogram : Yields (program (productions (others.length + 1))) ⟨0,false⟩
      ⟨first,others,0,0⟩ fun root _ =>
      ∃ d, d.current.kind = .endOfInput ∧ Tally (first :: others) [] [root] d := by
    have hc : Cursor.WellFormed ⟨first,others,0,0⟩ := ht
    rw [program,yields_bind]
    refine ((tallied_productions _).programItems _ _ (Tally.start hc)).mono ?_
    intro body d hd
    rw [yields_bind,yields_current]
    intro t e he
    cases he
    exact ⟨d,hd.1,hd.2.mono (.node (by simp [Shape.children]))⟩
  unfold parseTokens at h
  dsimp only at h
  split at h
  · next tree d hp =>
    cases h
    exact hprogram _ _ hp
  · contradiction

/-- The brackets of a program are properly nested, and all its arrows belong to arrow functions. -/
theorem parseTokens_bracketed {first : Token} {others : List Token} {root : Tree}
    (ht : Tokens 0 (first :: others)) (h : parseTokens first others = .ok root) :
    ∃ tokens last, first :: others = tokens ++ [last] ∧ last.kind = .endOfInput ∧
      Bracketed tokens ∧ ∀ arrow more, arrow.kind = .punct .arrow →
        arrow :: more <:+ tokens ++ [last] → Led (tokens ++ [last]) [root] (arrow :: more) := by
  obtain ⟨d,hend,htally⟩ := parseTokens_tally ht h
  obtain ⟨tokens,htokens,hbracketed⟩ := htally.passed
  have hlast : d.rest = [d.current] := by
    obtain ⟨current,ahead,stop,n⟩ := d
    cases htally.wellFormed with
    | last => rfl
    | cons hne => contradiction
  rw [hlast] at htokens
  refine ⟨tokens,d.current,htokens,hend,hbracketed,fun arrow more harrow hsuffix => ?_⟩
  rw [htokens] at htally
  apply htally.arrows arrow more harrow hsuffix
  -- What is behind the end of input is all the rest.
  obtain hnil | ⟨front,hfront,-⟩ := List.suffix_concat_iff.mp hsuffix
  · cases hnil
  rw [hlast]
  cases front with
  | nil =>
    rw [(List.cons.inj hfront).1,hend] at harrow
    cases harrow
  | cons _ front =>
    rw [(List.cons.inj hfront).2]
    exact List.suffix_append ..

section
variable {c : Cursor} {inner after : List Token} {closing : Token}
  (hopen : c.current.kind = .punct .openParen) (hclose : closing.kind = .punct .closeParen)
  (hinner : Bracketed inner) (hahead : c.ahead = inner ++ closing :: after)
include hopen hclose hinner hahead

/-- At a parenthesis the look ahead sees what follows the one that closes it. -/
theorem startsArrow_iff : c.startsArrow = true ↔ ∃ arrow more, after = arrow :: more ∧
    arrow.kind = .punct .arrow ∧ arrow.newlineBefore = false := by
  have hpairs : c.current.Pairs closing := ⟨_,_,hopen,rfl,hclose⟩
  unfold Cursor.startsArrow
  rw [hopen]
  dsimp only
  rw [hahead,afterClosing_pair hpairs hinner,Option.any_some]
  cases after with
  | nil => simp [hclose]
  | cons arrow more => simp

omit hopen in
/-- A list of parameters ends where the parenthesis before it is closed. -/
theorem parameterList_rest {n : Nat} {s : Surroundings} {params : List Tree} {d : Cursor}
    (hc : c.WellFormed) (hparams : parameterList (productions n) s c = .ok (params,d)) :
    d.rest = after := by
  obtain ⟨inner',closing',hrest,hinner',-,hclose'⟩ := parameterList_parts hc params d hparams
  have heq : inner ++ closing :: after = inner' ++ closing' :: d.rest :=
    hahead.symm.trans (List.cons.inj hrest).2
  exact (hinner.closing_unique hinner' ⟨_,hclose,rfl⟩ ⟨_,hclose',rfl⟩ heq).2.symm

/-- An arrow after a parenthesis that is closed belongs to a function with parameters in just these
parentheses. -/
theorem exists_arrowFunction {tokens : List Token} {held : List Tree} (hc : c.Within tokens)
    (hled : Led tokens held after) : ∃ q n s params d body f e, q.rest = c.rest ∧
      arrowFunction (productions n) s q = .ok (f,e) ∧
      parameterList (productions n) s q = .ok (params,d) ∧ d.rest = after ∧
      f.shape = .function .arrow none params body ∧ ∃ t ∈ held, f ∈ t.preorder := by
  obtain ⟨q,n,s,f,e,hq,-,hrun,hheld,hhead⟩ := hled
  obtain ⟨before,hbefore⟩ := hc.suffix
  obtain ⟨before',hbefore'⟩ := hq.suffix
  have hwhole : (before ++ c.current :: inner) ++ closing :: after = tokens := by
    rw [← hbefore,Cursor.rest,hahead]
    simp
  cases hhead with
  | inl hname =>
    obtain ⟨name,x,hrest,hx⟩ := hname
    rw [hrest,← hwhole] at hbefore'
    have hlast := List.append_inj_right' hbefore' (by simp)
    cases (List.cons.inj hlast).1
    cases hx.symm.trans hclose
  | inr hparams =>
    obtain ⟨params,d,body,hparams,hd,hshape⟩ := hparams
    refine ⟨q,n,s,params,d,body,f,e,?_,hrun,hparams,hd,hshape,hheld⟩
    obtain ⟨inner',closing',hrest,hinner',hopen',-⟩ :=
      parameterList_parts hq.wellFormed params d hparams
    rw [hd] at hrest
    have hwhole' : (before' ++ q.current :: inner') ++ closing' :: after = tokens := by
      rw [← hbefore',hrest]
      simp
    have heq := List.append_inj_left' (hwhole.trans hwhole'.symm) (by simp)
    obtain ⟨rfl,-⟩ := hinner.opening_unique hinner' ⟨_,hopen,rfl⟩ ⟨_,hopen',rfl⟩ heq
    exact List.append_cancel_left (hbefore'.trans hbefore.symm)

end

/-- A parenthesis in tokens whose brackets are properly nested is closed. -/
theorem exists_closeParen {tokens : List Token} {last : Token} {c : Cursor} (h : Bracketed tokens)
    (hlast : last.kind = .endOfInput) (hc : c.Within (tokens ++ [last]))
    (hopen : c.current.kind = .punct .openParen) : ∃ inner closing after,
      c.ahead = inner ++ closing :: after ∧ Bracketed inner ∧
      closing.kind = .punct .closeParen := by
  obtain hnil | ⟨front,hrest,before,hbefore⟩ := List.suffix_concat_iff.mp hc.suffix
  · cases hnil
  cases front with
  | nil =>
    rw [(List.cons.inj hrest).1,hlast] at hopen
    cases hopen
  | cons opening ahead =>
    obtain ⟨rfl,hahead⟩ := List.cons.inj hrest
    obtain ⟨inner,closing,rest,rfl,hinner,p,q,hp,hcloser,hq⟩ :=
      h.exists_closing hbefore.symm ⟨_,hopen,rfl⟩
    cases hopen.symm.trans hp
    cases hcloser
    exact ⟨inner,closing,rest ++ [last],by simp [hahead],hinner,hq⟩

end Grammar

/-- The brackets of a source file that is accepted are properly nested and closed by their own kind.
At each of its opening parentheses, the look ahead for an arrow succeeds if and only if an arrow
follows the parenthesis that closes it, on the same line. A list of parameters that is read from
there ends with that parenthesis. If the look ahead succeeds, then an arrow function of the tree is
read from there, and so is the list of its parameters. -/
theorem parseSource_brackets {content : ByteArray} {t : SyntaxTree}
    (h : parseSource content = .ok t) :
    ∃ cs tokens last, Text.decode content = .ok cs ∧ Token.scan cs = .ok (tokens ++ [last]) ∧
      last.kind = .endOfInput ∧ Grammar.Bracketed tokens ∧
      ∀ c : Grammar.Cursor, c.Within (tokens ++ [last]) → c.current.kind = .punct .openParen →
        ∃ inner closing after, c.ahead = inner ++ closing :: after ∧ Grammar.Bracketed inner ∧
          closing.kind = .punct .closeParen ∧
          (∀ inner' closing' after', c.ahead = inner' ++ closing' :: after' →
            Grammar.Bracketed inner' → closing'.kind = .punct .closeParen → after' = after) ∧
          (c.startsArrow = true ↔ ∃ arrow more, after = arrow :: more ∧
            arrow.kind = .punct .arrow ∧ arrow.newlineBefore = false) ∧
          (∀ n s params d, Grammar.parameterList (Grammar.productions n) s c = .ok (params,d) →
            d.rest = after) ∧
          (c.startsArrow = true → ∃ q n s params d body f e, q.rest = c.rest ∧
            Grammar.arrowFunction (Grammar.productions n) s q = .ok (f,e) ∧
            Grammar.parameterList (Grammar.productions n) s q = .ok (params,d) ∧ d.rest = after ∧
            f.shape = .function .arrow none params body ∧ ∃ p ∈ t.preorder, p.node = f) := by
  obtain ⟨cs,hcs,htext⟩ := parseSource_eq_ok h
  obtain ⟨first,others,root,hscan,hparse,rfl⟩ := parseText_eq_ok htext
  obtain ⟨tokens,last,htokens,hend,hbracketed,hled⟩ :=
    Grammar.parseTokens_bracketed (Token.scanFrom_spec hscan).1 hparse
  rw [htokens] at hscan
  refine ⟨cs,tokens,last,hcs,hscan,hend,hbracketed,fun c hc hopen => ?_⟩
  obtain ⟨inner,closing,after,hahead,hinner,hclose⟩ :=
    Grammar.exists_closeParen hbracketed hend hc hopen
  have hstarts := Grammar.startsArrow_iff hopen hclose hinner hahead
  refine ⟨inner,closing,after,hahead,hinner,hclose,?_,hstarts,?_,?_⟩
  · intro inner' closing' after' hahead' hinner' hclose'
    exact (hinner'.closing_unique hinner ⟨_,hclose',rfl⟩ ⟨_,hclose,rfl⟩
      (hahead'.symm.trans hahead)).2
  · intro n s params d hparams
    exact Grammar.parameterList_rest hclose hinner hahead hc.wellFormed hparams
  · intro harrow
    obtain ⟨arrow,more,rfl,hkind,-⟩ := hstarts.mp harrow
    have hsuffix : arrow :: more <:+ c.rest := by
      rw [Grammar.Cursor.rest,hahead]
      exact ⟨c.current :: (inner ++ [closing]),by simp⟩
    obtain ⟨q,n,s,params,d,body,f,e,hq,hrun,hparams,hd,hshape,t,ht,hf⟩ :=
      Grammar.exists_arrowFunction hopen hclose hinner hahead hc
        (hled arrow more hkind (hsuffix.trans hc.suffix))
    refine ⟨q,n,s,params,d,body,f,e,hq,hrun,hparams,hd,hshape,?_⟩
    rw [List.mem_singleton.mp ht] at hf
    have hnodes : f ∈ root.top.preorder.map Position.node := by
      rw [Position.map_node_preorder]
      exact hf
    obtain ⟨p,hp,hnode⟩ := List.mem_map.mp hnodes
    exact ⟨p,by rwa [Tree.preorder_table],hnode⟩

/-! A call with an arrow function for an argument. -/
namespace Callback

def source : ByteArray := "f((a=[])=>a)".toUTF8

def token (kind : TokenKind) (start stop : Nat) : Token := ⟨kind,⟨start,stop⟩,false⟩

/-- The parameter without its parentheses. -/
def inner : List Token :=
  [token (.name "a") 3 4,token (.punct .assign) 4 5,token (.punct .openBracket) 5 6,
    token (.punct .closeBracket) 6 7]

def after : List Token :=
  [token (.punct .arrow) 8 10,token (.name "a") 10 11,token (.punct .closeParen) 11 12,
    token .endOfInput 12 12]

def others : List Token :=
  token (.punct .openParen) 1 2 :: token (.punct .openParen) 2 3 ::
    (inner ++ token (.punct .closeParen) 7 8 :: after)

/-- Where the arrow function begins. -/
def place : Grammar.Cursor := Grammar.Cursor.advance (Grammar.Cursor.advance
  ⟨token (.name "f") 0 1,others,0,0⟩)

def param : Tree :=
  .node 3 ⟨3,7⟩ (.defaultParam (.node 1 ⟨3,4⟩ (.identifier "a")) (.node 2 ⟨5,7⟩ (.array [])))

def function : Tree :=
  .node 5 ⟨2,11⟩ (.function .arrow none [param] (.node 4 ⟨10,11⟩ (.identifier "a")))

def call : Tree := .node 6 ⟨0,12⟩ (.call (.node 0 ⟨0,1⟩ (.identifier "f")) [function] false)

def program : Tree := .node 8 ⟨0,12⟩ (.program [.node 7 ⟨0,12⟩ (.expressionStatement call)])

set_option maxRecDepth 1024 in
theorem parseSource_eq : parseSource source = .ok ⟨some program⟩ := by cbv

theorem decode_eq : Text.decode source = .ok "f((a=[])=>a)".toList := by cbv

theorem scan_eq : Token.scan "f((a=[])=>a)".toList = .ok (token (.name "f") 0 1 :: others) := by cbv

theorem bracketed_inner : Grammar.Bracketed inner := by
  have hpair : Token.Pairs (token (.punct .openBracket) 5 6) (token (.punct .closeBracket) 6 7) :=
    ⟨_,_,rfl,rfl,rfl⟩
  exact .plain rfl (.plain rfl (.pair hpair .nil .nil))

end Callback

theorem parseSource_brackets_callback :
    parseSource Callback.source = .ok ⟨some Callback.program⟩ ∧
    Callback.place.startsArrow = true ∧ ∃ q n s params d body f e,
      q.rest = Callback.place.rest ∧
      Grammar.arrowFunction (Grammar.productions n) s q = .ok (f,e) ∧
      Grammar.parameterList (Grammar.productions n) s q = .ok (params,d) ∧
      d.rest = Callback.after ∧ f.shape = .function .arrow none params body ∧
      ∃ p ∈ (SyntaxTree.mk (some Callback.program)).preorder, p.node = f := by
  obtain ⟨cs,tokens,last,hcs,hscan,-,-,hplaces⟩ := parseSource_brackets Callback.parseSource_eq
  cases hcs.symm.trans Callback.decode_eq
  have htokens : tokens ++ [last] = Callback.token (.name "f") 0 1 :: Callback.others :=
    Except.ok.inj (hscan.symm.trans Callback.scan_eq)
  have hstart : Grammar.Cursor.Within (tokens ++ [last])
      ⟨Callback.token (.name "f") 0 1,Callback.others,0,0⟩ := by
    rw [htokens]
    exact ⟨(Token.scanFrom_spec Callback.scan_eq).1,List.suffix_rfl⟩
  obtain ⟨inner,closing,after,-,-,-,hunique,-,-,harrow⟩ :=
    hplaces Callback.place hstart.advance.advance rfl
  have hstarts : Callback.place.startsArrow = true := by cbv
  obtain rfl := hunique Callback.inner _ Callback.after rfl Callback.bracketed_inner rfl
  exact ⟨Callback.parseSource_eq,hstarts,harrow hstarts⟩

end ScriptLint
