import ScriptLint.Proofs.Category
import ScriptLint.Proofs.Yields

/-! What a parser does to the tokens and to the nodes it finishes. It passes over a token, turns one
into a node without children, or puts a node on top of the nodes it finished last. -/
namespace ScriptLint

/-- The tokens that may be passed without becoming a node. -/
def TokenKind.isSilent : TokenKind → Bool
  | .reserved _ | .punct _ => true
  | .name s => s == "let" || s == "of" || s == "get" || s == "set"
  | _ => false

namespace Grammar

/-- Tokens as a text falls into them from byte `n` on: in order, apart from each other, and ended by
the end of input and by nothing else. -/
inductive Tokens : Nat → List Token → Prop
  | last {n : Nat} {t : Token} (kind : t.kind = .endOfInput) (after : n ≤ t.span.start)
      (width : t.span.stop = t.span.start) : Tokens n [t]
  | cons {n : Nat} {t : Token} {ts : List Token} (kind : t.kind ≠ .endOfInput)
      (name : ∀ s, t.kind = .name s → (Keyword.ofText? s).isNone) (after : n ≤ t.span.start)
      (width : t.span.start < t.span.stop) (more : Tokens t.span.stop ts) : Tokens n (t :: ts)

namespace Tokens
variable {n : Nat} {ts : List Token}

theorem le_start (h : Tokens n ts) : ∀ t ∈ ts, n ≤ t.span.start := by
  induction h with
  | last _ ha _ =>
    intro t ht
    rwa [List.mem_singleton.mp ht]
  | cons _ _ ha hw _ ih =>
    intro t ht
    rcases List.mem_cons.mp ht with rfl | ht
    · exact ha
    · have hle := ih t ht
      omega

/-- Only the end of input takes up no bytes. -/
theorem start_lt_stop (h : Tokens n ts) :
    ∀ t ∈ ts, t.kind ≠ .endOfInput → t.span.start < t.span.stop := by
  induction h with
  | last hk _ _ =>
    intro t ht hne
    rw [List.mem_singleton.mp ht] at hne
    contradiction
  | cons _ _ _ hw _ ih =>
    intro t ht hne
    rcases List.mem_cons.mp ht with rfl | ht
    · exact hw
    · exact ih t ht hne

/-- Each token ends before all that follow it begin. -/
theorem ordered (h : Tokens n ts) :
    ts.Pairwise fun t u => t.span.start < u.span.start ∧ t.span.stop ≤ u.span.start := by
  induction h with
  | last => exact List.pairwise_singleton ..
  | cons _ _ _ hw hm ih =>
    refine List.pairwise_cons.mpr ⟨fun u hu => ?_,ih⟩
    have hle := hm.le_start u hu
    exact ⟨by omega,hle⟩

end Tokens

namespace Cursor

/-- The tokens that are not yet passed. -/
def rest (c : Cursor) : List Token := c.current :: c.ahead

def WellFormed (c : Cursor) : Prop := Tokens c.consumedEnd c.rest

variable {c : Cursor}

theorem WellFormed.le_start (h : c.WellFormed) : c.consumedEnd ≤ c.current.span.start := by
  obtain ⟨t,ts,n,k⟩ := c
  cases h with
  | last _ ha _ => exact ha
  | cons _ _ ha _ _ => exact ha

theorem WellFormed.start_lt_stop (h : c.WellFormed) (hk : c.current.kind ≠ .endOfInput) :
    c.current.span.start < c.current.span.stop := by
  obtain ⟨t,ts,n,k⟩ := c
  cases h with
  | last he _ _ => exact absurd he hk
  | cons _ _ _ hw _ => exact hw

theorem WellFormed.start_le_stop (h : c.WellFormed) :
    c.current.span.start ≤ c.current.span.stop := by
  obtain ⟨t,ts,n,k⟩ := c
  cases h with
  | last _ _ hw => exact Nat.le_of_eq hw.symm
  | cons _ _ _ hw _ => exact Nat.le_of_lt hw

theorem WellFormed.name (h : c.WellFormed) {s : String} (hs : c.current.kind = .name s) :
    (Keyword.ofText? s).isNone := by
  obtain ⟨t,ts,n,k⟩ := c
  cases h with
  | last he _ _ => cases he.symm.trans hs
  | cons _ hn _ _ _ => exact hn s hs

/-- Only the end of input is never passed. -/
theorem WellFormed.advance_eq (h : c.WellFormed) (hk : c.current.kind ≠ .endOfInput) :
    c.ahead = c.advance.rest ∧ c.advance.consumedEnd = c.current.span.stop := by
  obtain ⟨t,ts,n,k⟩ := c
  cases h with
  | last he _ _ => exact absurd he hk
  | cons _ _ _ _ hm => cases hm <;> exact ⟨rfl,rfl⟩

theorem WellFormed.advance (h : c.WellFormed) : c.advance.WellFormed := by
  obtain ⟨t,ts,n,k⟩ := c
  cases h with
  | last he ha hw => exact .last he ha hw
  | cons _ _ _ _ hm => cases hm with
    | last he ha hw => exact .last he ha hw
    | cons he hn ha hw hm => exact .cons he hn ha hw hm

theorem WellFormed.advance_current (h : c.WellFormed) : c.advance.current = c.next := by
  obtain ⟨t,ts,n,k⟩ := c
  cases h with
  | last => rfl
  | cons _ _ _ _ hm => cases hm <;> rfl

theorem advance_finished (c : Cursor) : c.advance.finished = c.finished := by
  unfold advance
  split <;> rfl

end Cursor

/-- The node without children that a token may become. -/
inductive Leaf : TokenKind → Shape Tree → Prop
  | name (s : String) : Leaf (.name s) (.identifier s)
  | word (w : Keyword) : Leaf (.reserved w) (.identifier w.text)
  | this : Leaf (.reserved .kwThis) .this
  | constant (w : Keyword) (kind : LiteralKind) (h : kind.Admits w.text)
      (word : kind = .null ∨ kind = .boolean) : Leaf (.reserved w) (.literal kind w.text)
  | number (raw : String) : Leaf (.number raw) (.literal .number raw)
  | string (raw : String) : Leaf (.string raw) (.literal .string raw)
  | template (raw : String) : Leaf (.template raw) (.literal .template raw)

namespace Leaf
variable {kind : TokenKind} {shape : Shape Tree}

theorem kind_ne (h : Leaf kind shape) : kind ≠ .endOfInput := by cases h <;> simp

theorem children (h : Leaf kind shape) : shape.children = [] := by cases h <;> rfl

theorem admissible (h : Leaf kind shape) : shape.Admissible := by
  cases h with
  | constant _ _ h _ => exact h
  | _ => trivial

theorem isReturn (h : Leaf kind shape) : shape.isReturn = false := by cases h <;> rfl

end Leaf

/-- `Reads c tokens trees d` says that a parser gets from `c` to `d` over `tokens` and finishes
`trees` on the way, with what is below them. -/
inductive Reads : Cursor → List Token → List Tree → Cursor → Prop
  | done (c : Cursor) : Reads c [] [] c
  | pass {c d : Cursor} {tokens : List Token} {trees : List Tree} (h : Reads c tokens trees d)
      (silent : d.current.kind.isSilent) : Reads c (tokens ++ [d.current]) trees d.advance
  | leaf {c : Cursor} {shape : Shape Tree} (h : Leaf c.current.kind shape) :
      Reads c [c.current] [.node c.finished c.current.span shape]
        { c.advance with finished := c.finished + 1 }
  | append {c d e : Cursor} {tokens tokens' : List Token} {trees trees' : List Tree}
      (h : Reads c tokens trees d) (h' : Reads d tokens' trees' e) :
      Reads c (tokens ++ tokens') (trees ++ trees') e
  | finish {c d : Cursor} {tokens : List Token} {shape : Shape Tree}
      (h : Reads c tokens shape.children d) (admissible : shape.Admissible)
      (composite : shape.Composite ⟨c.current.span.start,max d.consumedEnd c.current.span.start⟩
        tokens) (some : tokens ≠ []) :
      Reads c tokens
        [.node d.finished ⟨c.current.span.start,max d.consumedEnd c.current.span.start⟩ shape]
        { d with finished := d.finished + 1 }
  /-- The function of a method begins where the property does, before the key. -/
  | method {c d : Cursor} {tokens : List Token} {key body : Tree} {params : List Tree}
      {span : Span} {computed : Bool} (h : Reads c tokens (key :: (params ++ [body])) d)
      (hspan : span = ⟨c.current.span.start,max d.consumedEnd c.current.span.start⟩)
      (hparams : ∀ p ∈ params, p.isParameter) (hbody : body.isBlock)
      (hkey : (if computed then key.isExpression else key.isKey) = true)
      (hnext : key.FollowedBy tokens .openParen) :
      Reads c tokens
        [.node (d.finished + 1) span
          (.property key (.node d.finished span (.function .expression none params body)) computed)]
        { d with finished := d.finished + 2 }

namespace Reads
variable {c d : Cursor} {tokens : List Token} {trees : List Tree}

theorem wellFormed (h : Reads c tokens trees d) (hc : c.WellFormed) : d.WellFormed := by
  induction h with
  | done => exact hc
  | pass _ _ ih => exact (ih hc).advance
  | leaf => exact hc.advance
  | append _ _ ih ih' => exact ih' (ih hc)
  | finish _ _ _ _ ih => exact ih hc
  | method _ _ _ _ _ _ ih => exact ih hc

/-- No node is finished without a token. -/
theorem tokens_ne_nil (h : Reads c tokens trees d) (ht : trees ≠ []) : tokens ≠ [] := by
  induction h with
  | done => contradiction
  | pass => simp
  | leaf => simp
  | append _ _ ih ih' =>
    intro he
    obtain ⟨h₁,h₂⟩ := List.append_eq_nil_iff.mp he
    apply ht
    rw [List.append_eq_nil_iff]
    constructor
    · by_contra hn
      exact ih hn h₁
    · by_contra hn
      exact ih' hn h₂
  | finish _ _ _ hs => exact hs
  | method _ _ _ _ _ _ ih => exact ih (by simp)

/-- Every finished tree follows the grammar, down to its leaves. -/
theorem grammatical (h : Reads c tokens trees d) : ∀ t ∈ trees, t.Grammatical := by
  induction h with
  | done => simp
  | pass _ _ ih => exact ih
  | leaf hl =>
    intro t ht
    rw [List.mem_singleton] at ht
    subst ht
    exact .intro hl.admissible (by simp [Tree.children,Tree.shape,hl.children])
  | append _ _ ih ih' =>
    intro t ht
    rcases List.mem_append.mp ht with ht | ht
    · exact ih t ht
    · exact ih' t ht
  | finish _ ha _ _ ih =>
    intro t ht
    rw [List.mem_singleton] at ht
    subst ht
    exact .intro ha ih
  | method _ _ hp hb hk _ ih =>
    intro t ht
    rw [List.mem_singleton] at ht
    subst ht
    refine .intro ⟨hk,rfl⟩ ?_
    intro u hu
    simp only [Tree.children,Tree.shape,Shape.children,List.mem_cons,List.not_mem_nil,
      or_false] at hu
    rcases hu with rfl | rfl
    · exact ih u (by simp)
    · refine .intro ⟨by simp,by simp,by simp,hp,.inl hb⟩ ?_
      intro v hv
      exact ih v (List.mem_cons_of_mem _ hv)

end Reads

/-- A reading that starts well and that holds a return only where `b` allows for one. -/
structure Built (b : Bool) (c : Cursor) (tokens : List Token) (trees : List Tree) (d : Cursor) :
    Prop where
  start : c.WellFormed
  reads : Reads c tokens trees d
  returns : ∀ t ∈ trees, t.Returns → b = true

namespace Built
variable {b : Bool} {c d e : Cursor} {tokens tokens' : List Token} {trees trees' : List Tree}

theorem stop (h : Built b c tokens trees d) : d.WellFormed := h.reads.wellFormed h.start

theorem tokens_ne_nil (h : Built b c tokens trees d) (ht : trees ≠ []) : tokens ≠ [] :=
  h.reads.tokens_ne_nil ht

theorem done (hc : c.WellFormed) : Built b c [] [] c := ⟨hc,.done c,by simp⟩

theorem pass (h : Built b c tokens trees d) (silent : d.current.kind.isSilent) :
    Built b c (tokens ++ [d.current]) trees d.advance :=
  ⟨h.start,h.reads.pass silent,h.returns⟩

theorem punct (h : Built b c tokens trees d) {p : Punct} (hp : d.current.kind = .punct p) :
    Built b c (tokens ++ [d.current]) trees d.advance :=
  h.pass (by rw [hp]; rfl)

theorem word (h : Built b c tokens trees d) {w : Keyword} (hw : d.current.kind = .reserved w) :
    Built b c (tokens ++ [d.current]) trees d.advance :=
  h.pass (by rw [hw]; rfl)

theorem append (h : Built b c tokens trees d) (h' : Built b d tokens' trees' e) :
    Built b c (tokens ++ tokens') (trees ++ trees') e := by
  refine ⟨h.start,h.reads.append h'.reads,?_⟩
  intro t ht
  rcases List.mem_append.mp ht with ht | ht
  · exact h.returns t ht
  · exact h'.returns t ht

/-- What may stand outside a function may stand in one. -/
theorem inside (h : Built b c tokens trees d) : Built true c tokens trees d :=
  ⟨h.start,h.reads,fun _ _ _ => rfl⟩

theorem leaf {shape : Shape Tree} (hc : c.WellFormed) (hl : Leaf c.current.kind shape) :
    Built b c [c.current]
      [.node c.advance.finished
        ⟨c.current.span.start,max c.advance.consumedEnd c.current.span.start⟩ shape]
      { c.advance with finished := c.advance.finished + 1 } := by
  have hlt := hc.start_lt_stop hl.kind_ne
  rw [c.advance_finished,(hc.advance_eq hl.kind_ne).2,Nat.max_eq_left (Nat.le_of_lt hlt)]
  refine ⟨hc,.leaf hl,?_⟩
  intro t ht hr
  rw [List.mem_singleton] at ht
  subst ht
  rcases hr.cases_or with hr | ⟨_,u,hu,_⟩
  · rw [Tree.shape,hl.isReturn] at hr
    contradiction
  · rw [Tree.children,Tree.shape,hl.children] at hu
    contradiction

/-- Puts a node on top of all that was finished since `c`. -/
theorem finish {shape : Shape Tree} (h : Built b c tokens shape.children d)
    (ha : shape.Admissible) (hne : tokens ≠ []) (hr : shape.isReturn = false ∨ b = true)
    (composite : shape.Composite ⟨c.current.span.start,max d.consumedEnd c.current.span.start⟩
      tokens) :
    Built b c tokens
      [.node d.finished ⟨c.current.span.start,max d.consumedEnd c.current.span.start⟩ shape]
      { d with finished := d.finished + 1 } := by
  refine ⟨h.start,h.reads.finish ha composite hne,?_⟩
  intro t ht hret
  rw [List.mem_singleton] at ht
  subst ht
  rcases hret.cases_or with hret | ⟨_,u,hu,hret⟩
  · exact hr.resolve_left (ne_false_of_eq_true hret)
  · exact h.returns u hu hret

/-- The body of a function may hold returns wherever the function stands. -/
theorem function {kind : FunctionKind} {name : Option Tree} {params : List Tree} {body : Tree}
    (h : Built b c tokens (name.toList ++ params) d) (h' : Built true d tokens' [body] e)
    (ha : (Shape.function kind name params body).Admissible) :
    Built b c (tokens ++ tokens')
      [.node e.finished ⟨c.current.span.start,max e.consumedEnd c.current.span.start⟩
        (.function kind name params body)]
      { e with finished := e.finished + 1 } := by
  have hne : tokens ++ tokens' ≠ [] := by
    simp [h'.tokens_ne_nil (List.cons_ne_nil _ _)]
  refine ⟨h.start,(h.reads.append h'.reads).finish ha trivial hne,?_⟩
  intro t ht hret
  rw [List.mem_singleton] at ht
  subst ht
  rcases hret.cases_or with hret | ⟨hf,_⟩
  · contradiction
  · contradiction

theorem method {key body : Tree} {params : List Tree} {computed : Bool} {span : Span}
    (h : Built b c tokens (key :: params) d) (h' : Built true d tokens' [body] e)
    (hspan : span = ⟨c.current.span.start,max e.consumedEnd c.current.span.start⟩)
    (hparams : ∀ p ∈ params, p.isParameter) (hbody : body.isBlock)
    (hkey : (if computed then key.isExpression else key.isKey) = true)
    (hnext : key.FollowedBy (tokens ++ tokens') .openParen) :
    Built b c (tokens ++ tokens')
      [.node (e.finished + 1) span
        (.property key (.node e.finished span (.function .expression none params body)) computed)]
      { e with finished := e.finished + 2 } := by
  refine ⟨h.start,(h.reads.append h'.reads).method hspan hparams hbody hkey hnext,?_⟩
  intro t ht hret
  rw [List.mem_singleton] at ht
  subst ht
  rcases hret.cases_or with hret | ⟨_,u,hu,hur⟩
  · contradiction
  · simp only [Tree.children,Tree.shape,Shape.children,List.mem_cons,List.not_mem_nil,
      or_false] at hu
    rcases hu with rfl | rfl
    · exact h.returns u (by simp) hur
    · rcases hur.cases_or with hur | ⟨hf,_⟩ <;> contradiction

end Built

/-- One tree of a category is read from `c`. -/
def One (category : Tree → Bool) (b : Bool) (c : Cursor) (t : Tree) (d : Cursor) : Prop :=
  ∃ tokens, Built b c tokens [t] d ∧ category t

/-- Trees that are all of a category are read from `c`. -/
def Many (category : Tree → Bool) (b : Bool) (c : Cursor) (ts : List Tree) (d : Cursor) : Prop :=
  ∃ tokens, Built b c tokens ts d ∧ ∀ t ∈ ts, category t

end Grammar
end ScriptLint
