import Mathlib
import ScriptLint.Grammar.Program
import ScriptLint.Proofs.Reading

/-! Ways to judge parsers. A discipline compares two parsers, of which one sees the tokens plainly and
the other through a view. It has one rule for each of the steps that parsers are made of; all that is
put together from these steps is judged in the same way by all disciplines. -/
namespace ScriptLint

/-- A fault that a parser may find with a token of a given kind: if it names a token, it is that one,
and what it asks for is a sign or a reserved word. -/
def Fault.Blames (kind : TokenKind) : Fault → Prop
  | .unexpected found | .expectedIdentifier found | .expectedPropertyName found => found = kind
  | .expected text found => found = kind ∧ ((∃ p : Punct, text = p.text) ∨ ∃ w : Keyword, text = w.text)
  | .notUtf8 | .unterminatedComment | .unterminatedString | .unterminatedTemplate
  | .escapedIdentifier | .unexpectedCharacter _ => False
  | _ => True

theorem Shape.map_id {α : Type} (s : Shape α) : s.map id = s := by
  cases s <;> simp [map]

namespace Grammar

/-- Tokens with the end of input last and nowhere else. -/
inductive Ended : List Token → Prop
  | last {t : Token} (kind : t.kind = .endOfInput) : Ended [t]
  | cons {t : Token} {ts : List Token} (kind : t.kind ≠ .endOfInput) (more : Ended ts) :
      Ended (t :: ts)

theorem Tokens.ended {n : Nat} {ts : List Token} (h : Tokens n ts) : Ended ts := by
  induction h with
  | last hkind => exact .last hkind
  | cons hkind _ _ _ _ ih => exact .cons hkind ih

theorem Ended.drop {ts rest : List Token} (h : Ended ts) {n : Nat} (hrest : ts.drop n = rest)
    (hne : rest ≠ []) : Ended rest := by
  induction h generalizing n with
  | last hkind =>
    cases n with
    | zero => exact hrest ▸ .last hkind
    | succ n => simp [← hrest] at hne
  | cons hkind hmore ih =>
    cases n with
    | zero => exact hrest ▸ .cons hkind hmore
    | succ n => exact ih hrest

theorem Ended.advance {c : Cursor} (h : Ended c.rest) : Ended c.advance.rest := by
  obtain ⟨current,ahead,stop,n⟩ := c
  cases ahead with
  | nil => exact h
  | cons t ts =>
    cases h with
    | cons _ hmore => exact hmore

/-- At most `k` tokens are ahead, and the nodes that are finished and two for each of these tokens
are at most `b`. Every token that is passed pays for two nodes, so that this budget grows with no
construct. -/
structure Left (k b : Int) (c : Cursor) : Prop where
  ahead_le : (c.ahead.length : Int) ≤ k
  budget_le : (c.finished + 2 * c.ahead.length : Int) ≤ b

namespace Left
variable {k k' b b' : Int} {c : Cursor}

theorem mono (h : Left k b c) (hle : k ≤ k' ∧ b ≤ b') : Left k' b' c :=
  ⟨Int.le_trans h.ahead_le hle.1,Int.le_trans h.budget_le hle.2⟩

theorem finish (h : Left k b c) : Left k (b + 1) { c with finished := c.finished + 1 } := by
  have hbudget := h.budget_le
  exact ⟨h.ahead_le,by dsimp only; omega⟩

theorem advance_le (h : Left k b c) : Left k b c.advance := by
  obtain ⟨hahead,hbudget⟩ := h
  obtain ⟨current,ahead,stop,n⟩ := c
  cases ahead with
  | nil => exact ⟨hahead,hbudget⟩
  | cons t ts =>
    simp only [List.length_cons] at hahead hbudget
    constructor <;> dsimp only [Cursor.advance] <;> omega

/-- Only the end of input is passed for nothing. -/
theorem advance (h : Left k b c) (hended : Ended c.rest) (hkind : c.current.kind ≠ .endOfInput) :
    Left (k - 1) (b - 2) c.advance := by
  obtain ⟨hahead,hbudget⟩ := h
  obtain ⟨current,ahead,stop,n⟩ := c
  cases ahead with
  | nil =>
    cases hended with
    | last hend => exact absurd hend hkind
    | cons _ hmore => cases hmore
  | cons t ts =>
    simp only [List.length_cons] at hahead hbudget
    constructor <;> dsimp only [Cursor.advance] <;> omega

end Left

/-- A way to see tokens and trees that keeps everything but places. -/
structure View where
  token : Token → Token
  cursor : Cursor → Cursor
  start : Nat → Nat
  tree : Tree → Tree
  kind_token (t : Token) : (token t).kind = t.kind
  newlineBefore_token (t : Token) : (token t).newlineBefore = t.newlineBefore
  start_token (t : Token) : (token t).span.start = start t.span.start
  rest_cursor (c : Cursor) : (cursor c).rest = c.rest.map token
  shape_tree (t : Tree) : (tree t).shape = t.shape.map tree
  start_tree (t : Tree) : (tree t).span.start = start t.span.start

namespace View

/-- The view that leaves everything as it is. -/
def plain : View where
  token := id
  cursor := id
  start := id
  tree := id
  kind_token _ := rfl
  newlineBefore_token _ := rfl
  start_token _ := rfl
  rest_cursor _ := (List.map_id _).symm
  shape_tree t := t.shape.map_id.symm
  start_tree _ := rfl

variable (view : View)

theorem current_cursor (c : Cursor) : (view.cursor c).current = view.token c.current :=
  (List.cons.inj (view.rest_cursor c)).1

theorem ahead_cursor (c : Cursor) : (view.cursor c).ahead = c.ahead.map view.token :=
  (List.cons.inj (view.rest_cursor c)).2

theorem next_cursor (c : Cursor) : (view.cursor c).next = view.token c.next := by
  unfold Cursor.next
  rw [view.current_cursor,view.ahead_cursor]
  cases c.ahead <;> rfl

theorem afterClosing_map (depth : Nat) (ts : List Token) :
    afterClosing depth (ts.map view.token) = (afterClosing depth ts).map view.token := by
  fun_induction afterClosing depth ts with
  | case1 => rfl
  | case3 depth t ts p hk hopening hclosing hdepth =>
    cases ts <;> simp [afterClosing,view.kind_token,hk,hopening,hclosing,hdepth]
  | case4 depth t ts p hk hopening hclosing hdepth ih =>
    simp [afterClosing,view.kind_token,hk,hopening,hclosing,hdepth,← ih]
  | _ => simp_all [afterClosing,view.kind_token]

theorem startsArrow_cursor (c : Cursor) : (view.cursor c).startsArrow = c.startsArrow := by
  unfold Cursor.startsArrow
  rw [view.next_cursor,view.current_cursor,view.ahead_cursor,← List.map_cons,view.afterClosing_map]
  simp only [view.kind_token,view.newlineBefore_token]
  split
  · rfl
  · cases afterClosing 0 (c.current :: c.ahead) with
    | none => rfl
    | some t => simp [view.kind_token,view.newlineBefore_token]
  · rfl

theorem startsAccessor_cursor (c : Cursor) : (view.cursor c).startsAccessor = c.startsAccessor := by
  unfold Cursor.startsAccessor
  rw [view.next_cursor,view.current_cursor,view.kind_token,view.kind_token]

theorem declares_cursor (c : Cursor) : (view.cursor c).declares? = c.declares? := by
  unfold Cursor.declares?
  rw [view.next_cursor,view.current_cursor,view.kind_token,view.kind_token]

theorem isTarget_tree (t : Tree) : isTarget (view.tree t) = isTarget t := by
  unfold isTarget
  rw [view.shape_tree]
  cases t.shape <;> rfl

theorem isLoopTarget_tree (t : Tree) : isLoopTarget (view.tree t) = isLoopTarget t := by
  unfold isLoopTarget
  rw [view.shape_tree]
  cases t.shape with
  | variableDeclaration kind declarators =>
    cases declarators with
    | nil => rfl
    | cons _ declarators => cases declarators <;> rfl
  | _ => rfl

end View

section
variable {α : Type} {p : Parser α} {s : Surroundings} {c : Cursor}

lemma nested_of_lt (h : s.nesting < maxNesting) :
    nested p s c = p { s with nesting := s.nesting + 1 } c := by
  change (if s.nesting < maxNesting then
    withReader (fun around => { around with nesting := around.nesting + 1 }) p
    else fail .nestingTooDeep) s c = _
  rw [if_pos h]
  rfl

lemma nested_of_le (h : maxNesting ≤ s.nesting) :
    nested p s c = .error ⟨⟨.nestingTooDeep,c.current.span.start⟩,c⟩ := by
  change (if s.nesting < maxNesting then
    withReader (fun around => { around with nesting := around.nesting + 1 }) p
    else fail .nestingTooDeep) s c = _
  rw [if_neg (Nat.not_lt.mpr h)]
  rfl

end

/-- A judgment of two parsers, the second of which sees everything through a view, and a rule for it
for each step that a parser can take. -/
structure Discipline extends View where
  /-- From where the first assertion holds, the second parser does as the first one, and its answer
  is seen by the function. Once they answer, the second assertion holds. -/
  Judges {α : Type} : (Cursor → Prop) → (α → α) → Parser α → Parser α → (α → Cursor → Prop) → Prop
  /-- A tree that was read by the time a parser stands at a place. -/
  Behind : Tree → Cursor → Prop
  /-- The trees in what a parser answers are behind it. -/
  Leaves {α : Type} : (α → List Tree) → Parser α → Prop
  judges_of {α : Type} {P P' : Cursor → Prop} {f : α → α} {p q : Parser α} {Q : α → Cursor → Prop}
    (h : Judges P' f p q Q) (hP : ∀ c, P c → P' c) : Judges P f p q Q
  judges_false {α : Type} {f : α → α} {p q : Parser α} {Q : α → Cursor → Prop} :
    Judges (fun _ => False) f p q Q
  judges_leaves {α : Type} {P : Cursor → Prop} {f : α → α} {p q : Parser α} {Q : α → Cursor → Prop}
    {trees : α → List Tree} (h : Judges P f p q Q) (hp : Leaves trees p) :
    Judges P f p q fun a d => Q a d ∧ ∀ t ∈ trees a, Behind t d
  judges_pure {α : Type} {P : Cursor → Prop} {f : α → α} {a : α} {Q : α → Cursor → Prop}
    (h : ∀ c, P c → Q a c) : Judges P f (pure a) (pure (f a)) Q
  judges_bind {α β : Type} {P : Cursor → Prop} {f : α → α} {f' : β → β} {p q : Parser α}
    {k k' : α → Parser β} {M : α → Cursor → Prop} {Q : β → Cursor → Prop} (h : Judges P f p q M)
    (hk : ∀ a, Judges (M a) f' (k a) (k' (f a)) Q) : Judges P f' (p >>= k) (q >>= k') Q
  judges_get {P : Cursor → Prop} : Judges P cursor get get fun c d => d = c ∧ P d
  judges_read {P : Cursor → Prop} : Judges P id read read fun _ => P
  judges_advance {P Q : Cursor → Prop} (h : ∀ c, Ended c.rest → P c → Q c.advance) :
    Judges P id advance advance fun _ => Q
  judges_finish {P Q : Cursor → Prop} {n : Nat} {shape : Shape Tree}
    (h : ∀ c, P c → Q { c with finished := c.finished + 1 }) :
    Judges P tree (finish n shape) (finish (start n) (shape.map tree)) fun _ => Q
  judges_fail {α : Type} {P : Cursor → Prop} {f : α → α} {Q : α → Cursor → Prop} {fault : Fault}
    (h : ∀ kind, fault.Blames kind) : Judges P f (fail fault) (fail fault) Q
  judges_failWith {α : Type} {P : Cursor → Prop} {f : α → α} {Q : α → Cursor → Prop}
    {fault : TokenKind → Fault} (h : ∀ kind, (fault kind).Blames kind) :
    Judges P f (failWith fault) (failWith fault) Q
  judges_failAt {α : Type} {P : Cursor → Prop} {f : α → α} {Q : α → Cursor → Prop} {t : Tree}
    {fault : Fault} (h : ∀ kind, fault.Blames kind) (ht : ∀ c, P c → Behind t c) :
    Judges P f (failAt t.span.start fault) (failAt (start t.span.start) fault) Q
  judges_nested {α : Type} {P : Cursor → Prop} {f : α → α} {p q : Parser α} {Q : α → Cursor → Prop}
    (h : Judges P f p q Q) : Judges P f (nested p) (nested q) Q
  judges_insideFunction {α : Type} {P : Cursor → Prop} {f : α → α} {p q : Parser α}
    {Q : α → Cursor → Prop} (h : Judges P f p q Q) :
    Judges P f (insideFunction p) (insideFunction q) Q

namespace Discipline
variable (A : Discipline) {α : Type}

/-- From a place with at most `k` tokens ahead and the budget `b`, a parser that answers has passed at
least `i` tokens and saved at least `j` of the budget. -/
abbrev Passes (k b : Int) (f : α → α) (p q : Parser α) (i j : Int) : Prop :=
  A.Judges (Left k b) f p q fun _ => Left (k - i) (b - j)

/-- The same from a token of a given kind. -/
abbrev PassesAt (kind : TokenKind) (k b : Int) (f : α → α) (p q : Parser α) (i j : Int) : Prop :=
  A.Judges (Facing kind (Left k b)) f p q fun _ => Left (k - i) (b - j)

end Discipline

namespace Discipline.Judges
variable {A : Discipline} {α β : Type} {P P' : Cursor → Prop} {f : α → α} {p q p' q' : Parser α}
  {Q : α → Cursor → Prop} {kind : TokenKind} {k k' b b' : Int}

theorem of (h : A.Judges P' f p q Q) (hP : ∀ c, P c → P' c) : A.Judges P f p q Q :=
  A.judges_of h hP

theorem facing (h : A.Judges P f p q Q) : A.Judges (Facing kind P) f p q Q := h.of fun _ hc => hc.2

theorem bind {f' : β → β} {r r' : α → Parser β} {M : α → Cursor → Prop} {Q : β → Cursor → Prop}
    (h : A.Judges P f p q M) (hr : ∀ a, A.Judges (M a) f' (r a) (r' (f a)) Q) :
    A.Judges P f' (p >>= r) (q >>= r') Q := A.judges_bind h hr

theorem imp {Q' : α → Cursor → Prop} (h : A.Judges P f p q Q) (hQ : ∀ a c, Q a c → Q' a c) :
    A.Judges P f p q Q' := by
  rw [← bind_pure p,← bind_pure q]
  exact h.bind fun a => A.judges_pure (hQ a)

theorem mono (h : A.Judges P f p q fun _ => Left k b) (hle : k ≤ k' ∧ b ≤ b') :
    A.Judges P f p q fun _ => Left k' b' := h.imp fun _ _ hleft => hleft.mono hle

/-- There is no place with fewer than no tokens ahead. -/
theorem of_neg (h : k < 0) : A.Judges (Left k b) f p q Q := by
  refine A.judges_false.of fun c hleft => ?_
  have hle := hleft.ahead_le
  omega

theorem pure {a : α} : A.Judges P f (Pure.pure a) (Pure.pure (f a)) fun _ => P :=
  A.judges_pure fun _ hP => hP

theorem some (h : A.Judges P f p q fun _ => P') :
    A.Judges P (Option.map f) (some <$> p) (some <$> q) fun _ => P' := by
  rw [map_eq_pure_bind,map_eq_pure_bind]
  exact h.bind fun _ => .pure

theorem ite {e : Prop} [Decidable e] (h : A.Judges P f p q Q) (h' : A.Judges P f p' q' Q) :
    A.Judges P f (if e then p else p') (if e then q else q') Q := by
  split
  · exact h
  · exact h'

theorem ite_of {e : Prop} [Decidable e] (h : e → A.Judges P f p q Q) (h' : A.Judges P f p' q' Q) :
    A.Judges P f (if e then p else p') (if e then q else q') Q := by
  split
  next he => exact h he
  next => exact h'

theorem nested (h : A.Judges P f p q Q) : A.Judges P f (nested p) (nested q) Q := A.judges_nested h

theorem insideFunction (h : A.Judges P f p q Q) :
    A.Judges P f (insideFunction p) (insideFunction q) Q := A.judges_insideFunction h

theorem get : A.Judges P A.cursor get get fun c => Facing c.current.kind P :=
  A.judges_get.imp fun _ _ hc => ⟨hc.1 ▸ rfl,hc.2⟩

theorem read : A.Judges P id (read : Parser Surroundings) read fun _ => P := A.judges_read

theorem current : A.Judges P A.token current current fun t => Facing t.kind P := by
  refine get.bind fun c => ?_
  rw [A.current_cursor]
  exact A.judges_pure fun _ hc => hc

theorem start : A.Judges P A.start start start fun _ => P := by
  refine get.bind fun c => .facing ?_
  rw [A.current_cursor,A.start_token]
  exact pure

theorem fail {fault : Fault} (h : ∀ kind, fault.Blames kind) :
    A.Judges P f (fail fault) (fail fault) Q := A.judges_fail h

theorem failWith {fault : TokenKind → Fault} (h : ∀ kind, (fault kind).Blames kind) :
    A.Judges P f (failWith fault) (failWith fault) Q := A.judges_failWith h

theorem unexpected : A.Judges P f unexpected unexpected Q := failWith fun _ => rfl

theorem atKind : A.Judges P id (atKind kind) (atKind kind) fun e c =>
    (e = true ↔ c.current.kind = kind) ∧ P c := by
  refine current.bind fun t => ?_
  rw [A.kind_token]
  exact A.judges_pure fun _ hc => ⟨beq_iff_eq.trans (hc.1 ▸ Iff.rfl),hc.2⟩

theorem atPunct {sign : Punct} : A.Judges P id (atPunct sign) (atPunct sign) fun _ => P :=
  atKind.imp fun _ _ hc => hc.2

theorem atWord {w : Keyword} : A.Judges P id (atWord w) (atWord w) fun _ => P :=
  atKind.imp fun _ _ hc => hc.2

/-- Where a token is looked for, it is there if it is found. -/
theorem atKind_ite (h : A.Judges (Facing kind P) f p q Q) (h' : A.Judges P f p' q' Q) :
    A.Judges P f (Grammar.atKind kind >>= fun e => if e = true then p else p')
      (Grammar.atKind kind >>= fun e => if e = true then q else q') Q := by
  refine atKind.bind fun e => ?_
  cases e with
  | true => exact h.of fun c hc => ⟨hc.1.mp rfl,hc.2⟩
  | false => exact h'.of fun c hc => hc.2

theorem finish {n : Nat} {shape : Shape Tree} : A.Judges (Left k b) A.tree (finish n shape)
    (finish (A.start n) (shape.map A.tree)) fun _ => Left k (b + 1) :=
  A.judges_finish fun _ hleft => hleft.finish

theorem advance (hkind : kind ≠ .endOfInput) : A.PassesAt kind k b id advance advance 1 2 :=
  A.judges_advance fun _ hended hc => hc.2.advance hended (hc.1 ▸ hkind)

/-- A token of any kind is passed at no cost. -/
theorem advance_le : A.Judges (Left k b) id Grammar.advance Grammar.advance fun _ => Left k b :=
  A.judges_advance fun _ _ hleft => hleft.advance_le

/-- A token that may be there is paid for if it is. -/
theorem eat_ite (hkind : kind ≠ .endOfInput) (h : A.Judges (Left (k - 1) (b - 2)) f p q Q)
    (h' : A.Judges (Left k b) f p' q' Q) :
    A.Judges (Left k b) f (eat kind >>= fun e => if e = true then p else p')
      (eat kind >>= fun e => if e = true then q else q') Q := by
  have heat : A.Judges (Left k b) id (eat kind) (eat kind) fun e =>
      if e = true then Left (k - 1) (b - 2) else Left k b :=
    atKind_ite ((advance hkind).bind fun _ => A.judges_pure fun _ hc => hc)
      (A.judges_pure fun _ hc => hc)
  refine heat.bind fun e => ?_
  cases e with
  | true => exact h
  | false => exact h'

theorem eatPunct_ite {sign : Punct} (h : A.Judges (Left (k - 1) (b - 2)) f p q Q)
    (h' : A.Judges (Left k b) f p' q' Q) :
    A.Judges (Left k b) f (eatPunct sign >>= fun e => if e = true then p else p')
      (eatPunct sign >>= fun e => if e = true then q else q') Q :=
  eat_ite (by simp) h h'

theorem eatWord_ite {w : Keyword} (h : A.Judges (Left (k - 1) (b - 2)) f p q Q)
    (h' : A.Judges (Left k b) f p' q' Q) :
    A.Judges (Left k b) f (eatWord w >>= fun e => if e = true then p else p')
      (eatWord w >>= fun e => if e = true then q else q') Q :=
  eat_ite (by simp) h h'

/-- A token that is there is paid for. -/
theorem eatPunct_facing {sign : Punct} (h : A.Judges (Left (k - 1) (b - 2)) f p q Q) :
    A.Judges (Facing (.punct sign) (Left k b)) f
      (Grammar.eatPunct sign >>= fun e => if e = true then p else p')
      (Grammar.eatPunct sign >>= fun e => if e = true then q else q') Q := by
  have heat : A.Judges (Facing (.punct sign) (Left k b)) id (Grammar.eatPunct sign)
      (Grammar.eatPunct sign) fun e c => e = true ∧ Left (k - 1) (b - 2) c := by
    refine atKind.bind fun e => ?_
    cases e with
    | true =>
      refine .of ((advance (by simp)).bind fun _ => ?_) (fun _ hc => hc.2)
      exact A.judges_pure fun _ hc => ⟨rfl,hc⟩
    | false => exact A.judges_pure fun c hc => absurd (hc.1.mpr hc.2.1) Bool.false_ne_true
  refine heat.bind fun e => ?_
  cases e with
  | true => exact h.of fun c hc => hc.2
  | false => exact A.judges_false.of fun c hc => Bool.false_ne_true hc.1

theorem eat : A.Judges (Left k b) id (eat kind) (eat kind) fun _ => Left k b :=
  atKind_ite (.facing (advance_le.bind fun _ => .pure)) .pure

theorem eatPunct {sign : Punct} :
    A.Judges (Left k b) id (eatPunct sign) (eatPunct sign) fun _ => Left k b := eat

theorem eatWord {w : Keyword} :
    A.Judges (Left k b) id (eatWord w) (eatWord w) fun _ => Left k b := eat

theorem expectPunct {sign : Punct} : A.Passes k b id (expectPunct sign) (expectPunct sign) 1 2 :=
  eatPunct_ite .pure (failWith fun _ => ⟨rfl,.inl ⟨sign,rfl⟩⟩)

theorem expectWord {w : Keyword} : A.Passes k b id (expectWord w) (expectWord w) 1 2 :=
  eatWord_ite .pure (failWith fun _ => ⟨rfl,.inr ⟨w,rfl⟩⟩)

theorem endStatement : A.Judges (Left k b) id endStatement endStatement fun _ => Left k b := by
  refine eatPunct_ite (pure.mono (by omega)) (current.bind fun t => .facing ?_)
  rw [A.kind_token,A.newlineBefore_token]
  exact .ite .pure unexpected

theorem bindingName : A.Passes k b A.tree bindingName bindingName 1 1 := by
  refine start.bind fun _ => current.bind fun t => ?_
  rw [A.kind_token]
  split
  next hkind => exact (advance (by simp [hkind])).bind fun _ => finish.mono (by omega)
  · exact fail fun _ => trivial
  · exact fail fun _ => trivial
  · exact failWith fun _ => rfl

theorem propertyName : A.Passes k b A.tree propertyName propertyName 1 1 := by
  refine start.bind fun _ => current.bind fun t => ?_
  rw [A.kind_token]
  split
  next hkind => exact (advance (by simp [hkind])).bind fun _ => finish.mono (by omega)
  next hkind => exact (advance (by simp [hkind])).bind fun _ => finish.mono (by omega)
  · exact failWith fun _ => rfl

end Discipline.Judges
end Grammar
end ScriptLint
