import ScriptLint.Proofs.Discipline.Basic

/-! Parsers as they run, with an index into their tokens and with counters for what they are in. The
counters are turned up on the way into a construct and down again on the way out. A run is derived
step by step, and no step reads a token that is not there. -/
namespace ScriptLint.Grammar

/-- What a parser keeps while it runs. -/
structure Registers where
  /-- The index of the current token. -/
  position : Nat
  consumedEnd : Nat
  finished : NodeId
  nesting : Nat
  functionDepth : Nat

namespace Registers

def initial : Registers := ⟨0,0,0,0,0⟩

def surroundings (r : Registers) : Surroundings := ⟨r.nesting,decide (0 < r.functionDepth)⟩

/-- The place that the registers stand for. There is none if the index is out of range. -/
def cursor? (tokens : List Token) (r : Registers) : Option Cursor :=
  tokens[r.position]?.map fun t => ⟨t,tokens.drop (r.position + 1),r.consumedEnd,r.finished⟩

/-- The registers once the current token `t` is passed. -/
def pass (t : Token) (r : Registers) : Registers :=
  if t.kind = .endOfInput then r
  else { r with position := r.position + 1, consumedEnd := t.span.stop }

variable {tokens : List Token} {r : Registers} {c : Cursor}

theorem cursor_eq_some : r.cursor? tokens = some c ↔
    tokens.drop r.position = c.rest ∧ r.consumedEnd = c.consumedEnd ∧ r.finished = c.finished := by
  obtain ⟨current,ahead,stop,n⟩ := c
  rw [cursor?,Option.map_eq_some_iff]
  constructor
  · rintro ⟨t,ht,heq⟩
    cases heq
    obtain ⟨hlt,rfl⟩ := List.getElem?_eq_some_iff.mp ht
    exact ⟨List.drop_eq_getElem_cons hlt,rfl,rfl⟩
  · rintro ⟨hdrop,rfl,rfl⟩
    have hlt : r.position < tokens.length := by
      by_contra hle
      rw [List.drop_eq_nil_of_le (Nat.le_of_not_lt hle)] at hdrop
      cases hdrop
    rw [List.drop_eq_getElem_cons hlt] at hdrop
    cases hdrop
    exact ⟨tokens[r.position],List.getElem?_eq_getElem hlt,rfl⟩

theorem exists_cursor (h : r.position < tokens.length) : ∃ c, r.cursor? tokens = some c :=
  ⟨_,by rw [cursor?,List.getElem?_eq_getElem h]; rfl⟩

theorem length_eq (h : r.cursor? tokens = some c) :
    tokens.length = r.position + c.ahead.length + 1 := by
  have hlength := congrArg List.length (cursor_eq_some.mp h).1
  rw [List.length_drop] at hlength
  change tokens.length - r.position = c.ahead.length + 1 at hlength
  omega

theorem ended (ht : Ended tokens) (h : r.cursor? tokens = some c) : Ended c.rest :=
  ht.drop (cursor_eq_some.mp h).1 (List.cons_ne_nil _ _)

/-- Passing the current token leads to the next place, or nowhere from the end of input. -/
theorem cursor_pass (hc : r.cursor? tokens = some c) (hended : Ended c.rest) :
    (r.pass c.current).cursor? tokens = some c.advance := by
  obtain ⟨hdrop,hstop,hfinished⟩ := cursor_eq_some.mp hc
  obtain ⟨current,ahead,stop,n⟩ := c
  unfold pass
  cases hended with
  | last hkind =>
    rw [if_pos hkind]
    exact hc
  | cons hkind hmore =>
    rw [if_neg hkind,cursor_eq_some]
    have hahead : tokens.drop (r.position + 1) = ahead := by
      rw [← List.drop_drop,hdrop]
      rfl
    cases hmore with
    | last => exact ⟨hahead,rfl,hfinished⟩
    | cons => exact ⟨hahead,rfl,hfinished⟩

theorem cursor_allocate (h : r.cursor? tokens = some c) :
    cursor? tokens { r with finished := r.finished + 1 } =
      some { c with finished := c.finished + 1 } := by
  obtain ⟨hdrop,hstop,hfinished⟩ := cursor_eq_some.mp h
  exact cursor_eq_some.mpr ⟨hdrop,hstop,congrArg (· + 1) hfinished⟩

end Registers

/-- `Runs tokens p r answer r'` says that the parser can be run from `r` to `r'`, where it answers
or gives up. Only a token that is there can be looked at or passed, and what is ahead of it is a part
of the tokens. -/
inductive Runs (tokens : List Token) :
    {α : Type} → Parser α → Registers → Except SyntaxError α → Registers → Prop
  | pure {α : Type} {a : α} {r : Registers} : Runs tokens (Pure.pure a) r (.ok a) r
  | bind {α β : Type} {p : Parser α} {k : α → Parser β} {a : α} {answer : Except SyntaxError β}
      {r r' r'' : Registers} (first : Runs tokens p r (.ok a) r')
      (second : Runs tokens (k a) r' answer r'') : Runs tokens (p >>= k) r answer r''
  | stop {α β : Type} {p : Parser α} {k : α → Parser β} {e : SyntaxError} {r r' : Registers}
      (first : Runs tokens p r (.error e) r') : Runs tokens (p >>= k) r (.error e) r'
  | look {c : Cursor} {r : Registers} (there : r.cursor? tokens = some c) :
      Runs tokens (get : Parser Cursor) r (.ok c) r
  | pass {c : Cursor} {r : Registers} (there : r.cursor? tokens = some c) :
      Runs tokens advance r (.ok ()) (r.pass c.current)
  | refuse {α : Type} {offset : Nat} {fault : Fault} {r : Registers} :
      Runs tokens (failAt offset fault : Parser α) r (.error ⟨fault,offset⟩) r
  /-- A node takes the next number. -/
  | allocate {c : Cursor} {r : Registers} {span : Cursor → Span} {shape : Shape Tree}
      (there : r.cursor? tokens = some c) :
      Runs tokens (modifyGet fun c =>
        (Tree.node c.finished (span c) shape,{ c with finished := c.finished + 1 }) : Parser Tree)
        r (.ok (.node r.finished (span c) shape)) { r with finished := r.finished + 1 }
  | around {r : Registers} : Runs tokens (read : Parser Surroundings) r (.ok r.surroundings) r
  | deeper {α : Type} {p : Parser α} {answer : Except SyntaxError α} {r r' : Registers}
      (room : r.nesting < maxNesting)
      (inner : Runs tokens p { r with nesting := r.nesting + 1 } answer r') :
      Runs tokens (nested p) r answer { r' with nesting := r'.nesting - 1 }
  | tooDeep {α : Type} {p : Parser α} {c : Cursor} {r : Registers} (full : maxNesting ≤ r.nesting)
      (there : r.cursor? tokens = some c) :
      Runs tokens (nested p) r (.error ⟨.nestingTooDeep,c.current.span.start⟩) r
  | inside {α : Type} {p : Parser α} {answer : Except SyntaxError α} {r r' : Registers}
      (inner : Runs tokens p { r with functionDepth := r.functionDepth + 1 } answer r') :
      Runs tokens (insideFunction p) r answer { r' with functionDepth := r'.functionDepth - 1 }

/-- How a parser ends that answers or gives up at a place. -/
def ending {α : Type} (d : Cursor) : Except SyntaxError α → Except Halt (α × Cursor)
  | .ok a => .ok (a,d)
  | .error e => .error ⟨e,d⟩

namespace Runs
variable {α : Type} {tokens : List Token} {p : Parser α} {r r' : Registers}
  {answer : Except SyntaxError α} {c : Cursor}

/-- A run leads from a place to the one where the parser ends, which is not before it, and leaves
the counters as they were. -/
structure Faithful (tokens : List Token) (p : Parser α) (r : Registers) (c : Cursor)
    (answer : Except SyntaxError α) (r' : Registers) (d : Cursor) : Prop where
  there : r'.cursor? tokens = some d
  eq_ending : p r.surroundings c = ending d answer
  position_le : r.position ≤ r'.position
  nesting_eq : r'.nesting = r.nesting
  functionDepth_eq : r'.functionDepth = r.functionDepth

theorem Faithful.surroundings_eq {d : Cursor} (h : Faithful tokens p r c answer r' d) :
    r'.surroundings = r.surroundings := by
  rw [Registers.surroundings,h.nesting_eq,h.functionDepth_eq]
  rfl

theorem faithful (h : Runs tokens p r answer r') (ht : Ended tokens)
    (hc : r.cursor? tokens = some c) : ∃ d, Faithful tokens p r c answer r' d := by
  induction h generalizing c with
  | pure => exact ⟨c,hc,rfl,Nat.le_refl _,rfl,rfl⟩
  | @bind _ _ p k _ _ _ _ _ _ _ ih ih' =>
    obtain ⟨d,hd⟩ := ih hc
    obtain ⟨e,he⟩ := ih' hd.there
    refine ⟨e,he.there,?_,Nat.le_trans hd.position_le he.position_le,
      he.nesting_eq.trans hd.nesting_eq,he.functionDepth_eq.trans hd.functionDepth_eq⟩
    rw [← he.eq_ending,hd.surroundings_eq]
    change (p _ c >>= fun q => k q.1 _ q.2) = _
    rw [hd.eq_ending]
    rfl
  | @stop _ _ p k _ _ _ _ ih =>
    obtain ⟨d,hd⟩ := ih hc
    refine ⟨d,hd.there,?_,hd.position_le,hd.nesting_eq,hd.functionDepth_eq⟩
    change (p _ c >>= fun q => k q.1 _ q.2) = _
    rw [hd.eq_ending]
    rfl
  | look hthere =>
    obtain rfl := Option.some.inj (hc.symm.trans hthere)
    exact ⟨c,hc,rfl,Nat.le_refl _,rfl,rfl⟩
  | @pass _ r hthere =>
    obtain rfl := Option.some.inj (hc.symm.trans hthere)
    refine ⟨c.advance,Registers.cursor_pass hc (Registers.ended ht hc),rfl,?_,?_,?_⟩ <;>
      unfold Registers.pass <;> split <;> simp
  | refuse => exact ⟨c,hc,rfl,Nat.le_refl _,rfl,rfl⟩
  | allocate hthere =>
    obtain rfl := Option.some.inj (hc.symm.trans hthere)
    refine ⟨_,Registers.cursor_allocate hc,?_,Nat.le_refl _,rfl,rfl⟩
    rw [(Registers.cursor_eq_some.mp hc).2.2]
    rfl
  | around => exact ⟨c,hc,rfl,Nat.le_refl _,rfl,rfl⟩
  | deeper hroom _ ih =>
    obtain ⟨d,hd⟩ := ih hc
    refine ⟨d,hd.there,?_,hd.position_le,?_,hd.functionDepth_eq⟩
    · rw [nested_of_lt hroom]
      exact hd.eq_ending
    · simp [hd.nesting_eq]
  | tooDeep hfull hthere =>
    obtain rfl := Option.some.inj (hc.symm.trans hthere)
    exact ⟨c,hc,nested_of_le hfull,Nat.le_refl _,rfl,rfl⟩
  | @inside _ p _ r _ _ ih =>
    obtain ⟨d,hd⟩ := ih hc
    refine ⟨d,hd.there,?_,hd.position_le,hd.nesting_eq,?_⟩
    · rw [← hd.eq_ending]
      change p ⟨r.nesting,true⟩ c = p ⟨r.nesting,decide (0 < r.functionDepth + 1)⟩ c
      rw [decide_eq_true (Nat.succ_pos _)]
    · simp [hd.functionDepth_eq]

/-- There is no other way to run a parser. -/
theorem unique {answer' : Except SyntaxError α} {r'' : Registers} (h : Runs tokens p r answer r')
    (h' : Runs tokens p r answer' r'') (ht : Ended tokens) (hc : r.cursor? tokens = some c) :
    answer = answer' ∧ r' = r'' := by
  obtain ⟨d,hd⟩ := h.faithful ht hc
  obtain ⟨e,he⟩ := h'.faithful ht hc
  have hending := hd.eq_ending.symm.trans he.eq_ending
  have hsame : answer = answer' ∧ d = e := by
    cases answer <;> cases answer' <;> cases hending <;> exact ⟨rfl,rfl⟩
  obtain ⟨rfl,rfl⟩ := hsame
  -- The place determines the index by how many tokens are ahead.
  have hlength := (Registers.length_eq hd.there).symm.trans (Registers.length_eq he.there)
  obtain ⟨-,hstop,hfinished⟩ := Registers.cursor_eq_some.mp hd.there
  obtain ⟨-,hstop',hfinished'⟩ := Registers.cursor_eq_some.mp he.there
  refine ⟨rfl,?_⟩
  obtain ⟨position,stop,n,nesting,depth⟩ := r'
  obtain ⟨position',stop',n',nesting',depth'⟩ := r''
  have hposition : position = position' := by
    dsimp only at hlength
    omega
  cases hposition
  cases hstop.trans hstop'.symm
  cases hfinished.trans hfinished'.symm
  cases hd.nesting_eq.trans he.nesting_eq.symm
  cases hd.functionDepth_eq.trans he.functionDepth_eq.symm
  rfl

end Runs
end ScriptLint.Grammar
