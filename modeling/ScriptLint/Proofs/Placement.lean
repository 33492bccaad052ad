import ScriptLint.Proofs.Position
import ScriptLint.Proofs.Reading

/-! Where the nodes that a parser finishes stand: what their numbers are, how their spans lie in
each other and after each other, and which tokens the identifiers among them are. -/
namespace ScriptLint

/-- A place that begins where one of some tokens does and ends where one of them does. -/
def Span.Bounded (tokens : List Token) (span : Span) : Prop :=
  (∃ token ∈ tokens, token.span.start = span.start) ∧ ∃ token ∈ tokens, token.span.stop = span.stop

theorem Span.Bounded.mono {tokens more : List Token} {span : Span} (h : span.Bounded tokens)
    (hsub : tokens ⊆ more) : span.Bounded more := by
  obtain ⟨⟨first,hfirst,hstart⟩,last,hlast,hstop⟩ := h
  exact ⟨⟨first,hsub hfirst,hstart⟩,last,hsub hlast,hstop⟩

namespace Tree

theorem postorder_eq (t : Tree) : t.postorder = t.children.flatMap postorder ++ [t] := by
  rw [postorder]
  simp [List.flatMap]

/-- The function of a method is finished right before the method. -/
theorem postorder_method {i j : NodeId} {span span' : Span} {key body : Tree} {params : List Tree}
    {kind : FunctionKind} {computed : Bool} :
    (node i span (.property key (node j span' (.function kind none params body))
      computed)).postorder =
      (key :: (params ++ [body])).flatMap postorder ++
        [node j span' (.function kind none params body),
          node i span (.property key (node j span' (.function kind none params body)) computed)] := by
  rw [postorder_eq]
  simp only [children,shape,Shape.children,List.flatMap_cons,List.flatMap_nil]
  rw [postorder_eq (node j ..)]
  simp [children,shape,Shape.children]

theorem mem_preorder {t u : Tree} : u ∈ t.preorder ↔ u = t ∨ ∃ c ∈ t.children, u ∈ c.preorder := by
  rw [preorder]
  simp [List.flatMap]

/-- A property whose function begins where it does itself, before its key. -/
def isMethod (t : Tree) : Bool :=
  match t.shape with
  | .property _ value _ => value.isFunction && value.span.start == t.span.start
  | _ => false

/-- Every node takes up some bytes, has the nodes below it inside its span and, unless it is a
method, one after the other there. -/
inductive Placed : Tree → Prop
  | intro {t : Tree} (proper : t.span.start < t.span.stop)
      (inside : ∀ c ∈ t.children, t.span.start ≤ c.span.start ∧ c.span.stop ≤ t.span.stop)
      (ordered : t.isMethod = false → t.children.Pairwise (·.span.stop ≤ ·.span.start))
      (below : ∀ c ∈ t.children, Placed c) : Placed t

namespace Placed
variable {t c : Tree}

theorem start_lt_stop (h : t.Placed) : t.span.start < t.span.stop := by
  cases h with
  | intro hp _ _ _ => exact hp

theorem inside (h : t.Placed) (hc : c ∈ t.children) :
    t.span.start ≤ c.span.start ∧ c.span.stop ≤ t.span.stop := by
  cases h with
  | intro _ hin _ _ => exact hin c hc

theorem ordered (h : t.Placed) (hm : t.isMethod = false) :
    t.children.Pairwise (·.span.stop ≤ ·.span.start) := by
  cases h with
  | intro _ _ ho _ => exact ho hm

theorem child (h : t.Placed) (hc : c ∈ t.children) : c.Placed := by
  cases h with
  | intro _ _ _ hb => exact hb c hc

end Placed

/-- An identifier is the token at its place, and a declarator begins with its name. -/
def Written (tokens : List Token) (t : Tree) : Prop :=
  match t.shape with
  | .identifier x => ∃ token ∈ tokens, t.span = token.span ∧ token.kind.text = x
  | .declarator id _ => id.span.start = t.span.start
  | _ => True

end Tree

theorem Position.node_mem_preorder {p q : Position} (h : p ∈ q.preorder) :
    p.node ∈ q.node.preorder := by
  induction q using below_induction with
  | step q ih =>
    rcases mem_preorder.mp h with rfl | ⟨c,hc,hp⟩
    · exact Tree.mem_preorder.mpr (.inl rfl)
    · exact Tree.mem_preorder.mpr (.inr ⟨c,hc,ih c hc hp⟩)

lemma Tree.Written.mono {tokens more : List Token} {t : Tree} (h : t.Written tokens)
    (hsub : tokens ⊆ more) : t.Written more := by
  unfold Written at h ⊢
  split
  next hshape =>
    rw [hshape] at h
    obtain ⟨token,htoken,h⟩ := h
    exact ⟨token,hsub htoken,h⟩
  next hshape =>
    rw [hshape] at h
    exact h
  next => trivial

lemma Shape.Composite.written {tokens : List Token} {i : Nat} {span : Span} {shape : Shape Tree}
    (h : shape.Composite span tokens) : (Tree.node i span shape).Written tokens := by
  unfold Tree.Written
  split
  next hshape =>
    obtain rfl : shape = _ := hshape
    exact h.elim
  next hshape =>
    obtain rfl : shape = _ := hshape
    exact h
  next => trivial

namespace Grammar

lemma Leaf.written {token : Token} {i : NodeId} {shape : Shape Tree} (h : Leaf token.kind shape) :
    (Tree.node i token.span shape).Written [token] := by
  have hkind {kind : TokenKind} (h : Leaf kind shape) (he : token.kind = kind) :
      (Tree.node i token.span shape).Written [token] := by
    cases h with
    | name s => exact ⟨token,by simp,rfl,by rw [he]; rfl⟩
    | word w => exact ⟨token,by simp,rfl,by rw [he]; rfl⟩
    | _ => trivial
  exact hkind h rfl

namespace Reads
variable {c d : Cursor} {tokens : List Token} {trees : List Tree}

/-- The nodes that are finished between `c` and `d`, in the order in which they are. -/
theorem numbered (h : Reads c tokens trees d) :
    ∃ n, d.finished = c.finished + n ∧
      (trees.flatMap Tree.postorder).map Tree.id = List.range' c.finished n := by
  induction h with
  | done c => exact ⟨0,rfl,rfl⟩
  | pass _ _ ih =>
    rw [Cursor.advance_finished]
    exact ih
  | leaf hl =>
    refine ⟨1,rfl,?_⟩
    simp [Tree.postorder_eq,Tree.children,Tree.shape,hl.children,Tree.id]
  | append _ _ ih ih' =>
    obtain ⟨n,hn,h⟩ := ih
    obtain ⟨m,hm,h'⟩ := ih'
    refine ⟨n + m,by rw [hm,hn,Nat.add_assoc],?_⟩
    rw [List.flatMap_append,List.map_append,h,h',hn,List.range'_append_1]
  | finish _ _ _ _ ih =>
    obtain ⟨n,hn,h⟩ := ih
    refine ⟨n + 1,congrArg (· + 1) hn,?_⟩
    rw [List.flatMap_singleton,Tree.postorder_eq,List.map_append,Tree.children,Tree.shape,h,
      ← List.range'_append_1,← hn]
    rfl
  | method _ _ _ _ _ _ ih =>
    obtain ⟨n,hn,h⟩ := ih
    -- The function of a method is finished right before the property that holds it.
    refine ⟨n + 2,congrArg (· + 2) hn,?_⟩
    rw [List.flatMap_singleton,Tree.postorder_method,List.map_append,h,← List.range'_append_1,← hn]
    rfl

lemma kind_ne_of_isSilent {kind : TokenKind} (h : kind.isSilent) : kind ≠ .endOfInput := by
  rintro rfl
  contradiction

/-- The tokens that are read are those in between. -/
theorem rest_eq (h : Reads c tokens trees d) (hc : c.WellFormed) : c.rest = tokens ++ d.rest := by
  induction h with
  | done => rfl
  | pass h hs ih =>
    rw [ih hc,List.append_assoc,← ((h.wellFormed hc).advance_eq (kind_ne_of_isSilent hs)).1]
    rfl
  | leaf hl => exact congrArg (_ :: ·) (hc.advance_eq hl.kind_ne).1
  | append h _ ih ih' => rw [ih hc,ih' (h.wellFormed hc),List.append_assoc]
  | finish _ _ _ _ ih => exact ih hc
  | method _ _ _ _ _ _ ih => exact ih hc

/-- Either nothing is read, or the first token is and takes up some bytes. -/
theorem progress (h : Reads c tokens trees d) (hc : c.WellFormed) :
    (tokens = [] ∧ d.current = c.current ∧ d.consumedEnd = c.consumedEnd) ∨
      (tokens ≠ [] ∧ c.current.span.start < c.current.span.stop ∧
        c.current.span.stop ≤ d.consumedEnd) := by
  induction h with
  | done => exact .inl ⟨rfl,rfl,rfl⟩
  | pass h hs ih =>
    have hd := h.wellFormed hc
    have hk := kind_ne_of_isSilent hs
    have hlt := hd.start_lt_stop hk
    rw [(hd.advance_eq hk).2]
    refine .inr ⟨by simp,?_⟩
    rcases ih hc with ⟨_,he,_⟩ | ⟨_,hlt',hle⟩
    · rw [← he]
      exact ⟨hlt,Nat.le_refl _⟩
    · have hstart := hd.le_start
      exact ⟨hlt',by omega⟩
  | leaf hl =>
    exact .inr ⟨by simp,hc.start_lt_stop hl.kind_ne,
      Nat.le_of_eq (hc.advance_eq hl.kind_ne).2.symm⟩
  | append h h' ih ih' =>
    have hd := h.wellFormed hc
    have hstart := hd.le_start
    rcases ih hc with ⟨rfl,he,hend⟩ | ⟨hne,hlt,hle⟩
    · rw [List.nil_append,← he,← hend]
      exact ih' hd
    · refine .inr ⟨by simp [hne],hlt,?_⟩
      rcases ih' hd with ⟨_,_,hend'⟩ | ⟨_,hlt',hle'⟩ <;> omega
  | finish _ _ _ _ ih => exact ih hc
  | method _ _ _ _ _ _ ih => exact ih hc

/-- Nothing is read backwards. -/
lemma start_le (h : Reads c tokens trees d) (hc : c.WellFormed) :
    c.current.span.start ≤ d.current.span.start ∧ c.consumedEnd ≤ d.consumedEnd := by
  have hstart := hc.le_start
  have hstart' := (h.wellFormed hc).le_start
  rcases h.progress hc with ⟨_,he,hend⟩ | ⟨_,hlt,hle⟩
  · rw [he,hend]
    exact ⟨Nat.le_refl _,Nat.le_refl _⟩
  · exact ⟨by omega,by omega⟩

end Reads

/-- Trees in a row between two bytes. -/
structure Row (start stop : Nat) (trees : List Tree) : Prop where
  inside : ∀ t ∈ trees, start ≤ t.span.start ∧ t.span.stop ≤ stop
  ordered : trees.Pairwise (·.span.stop ≤ ·.span.start)
  placed : ∀ t ∈ trees, t.Placed

namespace Row
variable {start stop start' stop' : Nat} {trees trees' : List Tree}

theorem singleton {t : Tree} (h : t.Placed) (hspan : t.span = ⟨start,stop⟩) :
    Row start stop [t] := by
  refine ⟨?_,List.pairwise_singleton ..,by simpa using h⟩
  rintro u hu
  obtain rfl := List.mem_singleton.mp hu
  rw [hspan]
  exact ⟨Nat.le_refl _,Nat.le_refl _⟩

theorem widen (h : Row start stop trees) (hstart : start' ≤ start) (hstop : stop ≤ stop') :
    Row start' stop' trees := by
  refine ⟨?_,h.ordered,h.placed⟩
  intro t ht
  have hin := h.inside t ht
  exact ⟨by omega,by omega⟩

theorem append (h : Row start stop trees) (h' : Row start' stop' trees') (hle : stop ≤ start')
    (hstart : start ≤ start') (hstop : stop ≤ stop') : Row start stop' (trees ++ trees') := by
  have hw := h.widen (Nat.le_refl _) hstop
  have hw' := h'.widen hstart (Nat.le_refl _)
  refine ⟨?_,List.pairwise_append.mpr ⟨h.ordered,h'.ordered,?_⟩,?_⟩
  · exact List.forall_mem_append.mpr ⟨hw.inside,hw'.inside⟩
  · intro t ht u hu
    have hin := h.inside t ht
    have hin' := h'.inside u hu
    omega
  · exact List.forall_mem_append.mpr ⟨h.placed,h'.placed⟩

/-- A node on top of a row. -/
theorem node {i : NodeId} {shape : Shape Tree} (h : Row start stop shape.children)
    (hlt : start < stop) : (Tree.node i ⟨start,stop⟩ shape).Placed :=
  .intro hlt h.inside (fun _ => h.ordered) h.placed

end Row

namespace Reads
variable {c d : Cursor} {tokens : List Token} {trees : List Tree}

theorem row (h : Reads c tokens trees d) (hc : c.WellFormed) :
    Row c.current.span.start d.consumedEnd trees := by
  induction h with
  | done => exact ⟨by simp,.nil,by simp⟩
  | pass h hs ih =>
    have hd := h.wellFormed hc
    have hk := kind_ne_of_isSilent hs
    have hlt := hd.start_lt_stop hk
    have hstart := hd.le_start
    refine (ih hc).widen (Nat.le_refl _) ?_
    rw [(hd.advance_eq hk).2]
    omega
  | leaf hl =>
    have hk := hl.kind_ne
    refine Row.singleton (.intro (hc.start_lt_stop hk) ?_ ?_ ?_) ?_
    all_goals simp [Tree.children,Tree.shape,hl.children]
    rw [(hc.advance_eq hk).2]
    rfl
  | append h h' ih ih' =>
    have hd := h.wellFormed hc
    exact (ih hc).append (ih' hd) hd.le_start (h.start_le hc).1 (h'.start_le hd).2
  | @finish c d _ _ h _ _ hne ih =>
    have hlt : c.current.span.start < d.consumedEnd := by
      rcases h.progress hc with ⟨he,_⟩ | ⟨_,hlt,hle⟩
      · contradiction
      · omega
    rw [Nat.max_eq_left (Nat.le_of_lt hlt)]
    exact .singleton ((ih hc).node hlt) rfl
  | @method c d _ key body params span computed h hspan _ _ _ _ ih =>
    have hlt : c.current.span.start < d.consumedEnd := by
      rcases h.progress hc with ⟨he,_⟩ | ⟨_,hlt,hle⟩
      · exact absurd he (h.tokens_ne_nil (by simp))
      · omega
    rw [Nat.max_eq_left (Nat.le_of_lt hlt)] at hspan
    subst hspan
    obtain ⟨hinside,hordered,hplaced⟩ := ih hc
    have hfunction : Row c.current.span.start d.consumedEnd
        (Shape.function .expression none params body).children :=
      ⟨fun t ht => hinside t (.tail _ ht),hordered.of_cons,fun t ht => hplaced t (.tail _ ht)⟩
    refine .singleton (.intro hlt ?_ ?_ ?_) rfl
    · intro t ht
      rcases List.mem_pair.mp ht with rfl | rfl
      · exact hinside t (.head _)
      · exact ⟨Nat.le_refl _,Nat.le_refl _⟩
    · simp [Tree.isMethod,Tree.shape,Tree.isFunction,Tree.span]
    · intro t ht
      rcases List.mem_pair.mp ht with rfl | rfl
      · exact hplaced t (.head _)
      · exact hfunction.node hlt

/-- What is read begins with the current token. -/
theorem exists_first (h : Reads c tokens trees d) (hc : c.WellFormed) (hne : tokens ≠ []) :
    ∃ others, tokens = c.current :: others := by
  obtain ⟨first,others,rfl⟩ := List.exists_cons_of_ne_nil hne
  rw [(List.cons.inj (h.rest_eq hc)).1]
  exact ⟨others,rfl⟩

/-- What is read ends with the last of its tokens. -/
theorem exists_last (h : Reads c tokens trees d) (hc : c.WellFormed) (hne : tokens ≠ []) :
    ∃ (front : List Token) (last : Token), tokens = front ++ [last] ∧
      last.span.stop = d.consumedEnd := by
  induction h with
  | done => contradiction
  | @pass _ d tokens _ h hs _ =>
    refine ⟨tokens,d.current,rfl,?_⟩
    rw [((h.wellFormed hc).advance_eq (kind_ne_of_isSilent hs)).2]
  | @leaf c _ hl => exact ⟨[],c.current,rfl,(hc.advance_eq hl.kind_ne).2.symm⟩
  | @append _ _ _ tokens tokens' _ _ h h' ih ih' =>
    by_cases hmore : tokens' = []
    · subst hmore
      rw [List.append_nil] at hne ⊢
      obtain ⟨front,last,hlast,hstop⟩ := ih hc hne
      refine ⟨front,last,hlast,hstop.trans ?_⟩
      rcases h'.progress (h.wellFormed hc) with ⟨_,_,hend⟩ | ⟨hne',_⟩
      · exact hend.symm
      · contradiction
    · obtain ⟨front,last,rfl,hstop⟩ := ih' (h.wellFormed hc) hmore
      exact ⟨tokens ++ front,last,(List.append_assoc ..).symm,hstop⟩
  | finish _ _ _ _ ih => exact ih hc hne
  | method _ _ _ _ _ _ ih => exact ih hc hne

/-- What is read begins where its first token does and ends where its last one does. -/
theorem bounded (h : Reads c tokens trees d) (hc : c.WellFormed) (hne : tokens ≠ []) :
    Span.Bounded tokens ⟨c.current.span.start,max d.consumedEnd c.current.span.start⟩ := by
  have hlt : c.current.span.start < d.consumedEnd := by
    rcases h.progress hc with ⟨he,_⟩ | ⟨_,hlt,hle⟩
    · contradiction
    · omega
  rw [Nat.max_eq_left (Nat.le_of_lt hlt)]
  obtain ⟨others,hfirst⟩ := h.exists_first hc hne
  obtain ⟨front,last,hlast,hstop⟩ := h.exists_last hc hne
  refine ⟨⟨c.current,?_,rfl⟩,last,?_,hstop⟩
  · rw [hfirst]
    exact .head _
  · rw [hlast]
    exact List.mem_append_right _ (.head _)

/-- What holds of leaves, and of nodes on top of others, holds of all that is read. -/
theorem forall_nodes {P : List Token → Tree → Prop}
    (mono : ∀ {tokens more t}, P tokens t → tokens <:+: more → P more t)
    (leaf : ∀ {token i shape}, Leaf token.kind shape → P [token] (.node i token.span shape))
    (node : ∀ {tokens i span shape}, shape.Composite span tokens → span.Bounded tokens →
      P tokens (.node i span shape))
    (h : Reads c tokens trees d) (hc : c.WellFormed) :
    ∀ t ∈ trees, ∀ u ∈ t.preorder, P tokens u := by
  induction h with
  | done => simp
  | pass _ _ ih =>
    intro t ht u hu
    exact mono (ih hc t ht u hu) (List.prefix_append ..).isInfix
  | leaf hl =>
    intro t ht u hu
    obtain rfl := List.mem_singleton.mp ht
    rcases Tree.mem_preorder.mp hu with rfl | ⟨v,hv,_⟩
    · exact leaf hl
    · rw [Tree.children,Tree.shape,hl.children] at hv
      contradiction
  | append h _ ih ih' =>
    intro t ht u hu
    rcases List.mem_append.mp ht with ht | ht
    · exact mono (ih hc t ht u hu) (List.prefix_append ..).isInfix
    · exact mono (ih' (h.wellFormed hc) t ht u hu) (List.suffix_append ..).isInfix
  | finish h _ hs hne ih =>
    intro t ht u hu
    obtain rfl := List.mem_singleton.mp ht
    rcases Tree.mem_preorder.mp hu with rfl | ⟨v,hv,hu⟩
    · exact node hs (h.bounded hc hne)
    · exact ih hc v hv u hu
  | method h hspan _ _ _ hnext ih =>
    subst hspan
    have hbounded := h.bounded hc (h.tokens_ne_nil (by simp))
    intro t ht u hu
    obtain rfl := List.mem_singleton.mp ht
    rcases Tree.mem_preorder.mp hu with rfl | ⟨v,hv,huv⟩
    · exact node (.inr ⟨hnext,rfl,rfl⟩) hbounded
    rcases List.mem_pair.mp hv with rfl | rfl
    · exact ih hc v (.head _) u huv
    rcases Tree.mem_preorder.mp huv with rfl | ⟨w,hw,huw⟩
    · exact node trivial hbounded
    · exact ih hc w (.tail _ hw) u huw

/-- All that is read begins and ends with tokens. -/
theorem bounded_nodes (h : Reads c tokens trees d) (hc : c.WellFormed) :
    ∀ t ∈ trees, ∀ u ∈ t.preorder, u.span.Bounded tokens := by
  refine h.forall_nodes (P := fun tokens u => u.span.Bounded tokens)
    (fun h hsub => h.mono hsub.subset) ?_ (fun _ hbounded => hbounded) hc
  intro token i shape _
  exact ⟨⟨token,.head _,rfl⟩,token,.head _,rfl⟩

/-- The identifiers and declarators of all that is read. -/
theorem written (h : Reads c tokens trees d) (hc : c.WellFormed) :
    ∀ t ∈ trees, ∀ u ∈ t.preorder, u.Written tokens :=
  h.forall_nodes (fun h hsub => h.mono hsub.subset) (fun hl => hl.written) (fun hs _ => hs.written) hc

end Reads
end Grammar
end ScriptLint
