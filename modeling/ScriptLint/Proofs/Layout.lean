import ScriptLint.Proofs.Discipline.Statement
import ScriptLint.Proofs.Printing

/-! Forgetting where things stand in a text. A parser is steady when it makes no difference whether
the places are forgotten before it reads the tokens or after it has read them, so that nothing but
places in what it answers can depend on places. The parser of programs is steady. -/
namespace ScriptLint

def Token.unplaced (t : Token) : Token := ⟨t.kind,⟨0,0⟩,t.newlineBefore⟩

def SyntaxError.unplaced (e : SyntaxError) : SyntaxError := ⟨e.fault,0⟩

namespace Tree

/-- The tree with its numbers and shapes only. -/
def unplaced (t : Tree) : Tree :=
  .node t.id ⟨0,0⟩
    (t.shape.map fun c => if c.preorder.length < t.preorder.length then unplaced c else c)
termination_by t.preorder.length

theorem unplaced_eq (t : Tree) : t.unplaced = .node t.id ⟨0,0⟩ (t.shape.map unplaced) := by
  rw [unplaced]
  refine congrArg _ (Shape.map_congr fun c hc => ?_)
  rw [if_pos (length_preorder_child_lt hc)]

@[simp] theorem span_unplaced (t : Tree) : t.unplaced.span = ⟨0,0⟩ := by
  rw [unplaced_eq]
  rfl

@[simp] theorem shape_unplaced (t : Tree) : t.unplaced.shape = t.shape.map unplaced := by
  rw [unplaced_eq]
  rfl

end Tree

namespace Grammar

namespace Cursor

def unplaced (c : Cursor) : Cursor :=
  ⟨c.current.unplaced,c.ahead.map Token.unplaced,0,c.finished⟩

theorem advance_unplaced (c : Cursor) : c.unplaced.advance = c.advance.unplaced := by
  obtain ⟨t,ts,n,k⟩ := c
  cases ts <;> rfl

end Cursor

def Halt.unplaced (halt : Halt) : Halt := ⟨halt.error.unplaced,halt.place.unplaced⟩

/-- What a parser ends with, without its places. -/
def unplacedEnd {α : Type} (f : α → α) : Except Halt (α × Cursor) → Except Halt (α × Cursor)
  | .ok (a,c) => .ok (f a,c.unplaced)
  | .error halt => .error halt.unplaced

/-- On tokens without places, `q` does what `p` does on tokens with places, from where `P` holds; `f`
forgets the places of what `p` answers. If they answer, `Q` holds. -/
def Steady {α : Type} (P : Cursor → Prop) (f : α → α) (p q : Parser α) (Q : α → Cursor → Prop) :
    Prop :=
  ∀ s c, Ended c.rest → P c → q s c.unplaced = unplacedEnd f (p s c) ∧
    ∀ a d, p s c = .ok (a,d) → Ended d.rest ∧ Q a d

namespace Steady
variable {α β : Type} {P : Cursor → Prop} {f : α → α} {p q : Parser α} {Q : α → Cursor → Prop}

/-- A parser that answers. -/
theorem of_ok {a : Cursor → α} {next : Cursor → Cursor}
    (hp : ∀ s c, p s c = .ok (a c,next c)) (hq : ∀ s c, q s c.unplaced = unplacedEnd f (p s c))
    (h : ∀ c, Ended c.rest → P c → Ended (next c).rest ∧ Q (a c) (next c)) : Steady P f p q Q := by
  intro s c hended hP
  refine ⟨hq s c,fun b d hok => ?_⟩
  rw [hp] at hok
  cases hok
  exact h c hended hP

/-- A parser that gives up. -/
theorem of_error {halt : Cursor → Halt} (hp : ∀ s c, p s c = .error (halt c))
    (hq : ∀ s c, q s c.unplaced = .error (halt c).unplaced) : Steady P f p q Q := by
  intro s c _ _
  rw [hq,hp]
  exact ⟨rfl,nofun⟩

theorem bind {f' : β → β} {k k' : α → Parser β} {M : α → Cursor → Prop} {Q : β → Cursor → Prop}
    (h : Steady P f p q M) (hk : ∀ a, Steady (M a) f' (k a) (k' (f a)) Q) :
    Steady P f' (p >>= k) (q >>= k') Q := by
  intro s c hended hP
  obtain ⟨heq,hok⟩ := h s c hended hP
  change (q s c.unplaced >>= fun r => k' r.1 s r.2) =
    unplacedEnd f' (p s c >>= fun r => k r.1 s r.2) ∧
      ∀ b e, (p s c >>= fun r => k r.1 s r.2) = .ok (b,e) → _
  rw [heq]
  cases hp : p s c with
  | error e => exact ⟨rfl,nofun⟩
  | ok r =>
    obtain ⟨hended,hM⟩ := hok r.1 r.2 hp
    exact hk r.1 s r.2 hended hM

theorem nested (h : Steady P f p q Q) : Steady P f (nested p) (nested q) Q := by
  intro s c hended hP
  obtain hlt | hle := Nat.lt_or_ge s.nesting maxNesting
  · rw [nested_of_lt hlt,nested_of_lt hlt]
    exact h _ c hended hP
  · rw [nested_of_le hle,nested_of_le hle]
    exact ⟨rfl,nofun⟩

end Steady

/-- The places of tokens do not matter. -/
def layout : Discipline where
  token := Token.unplaced
  cursor := Cursor.unplaced
  start _ := 0
  tree := Tree.unplaced
  kind_token _ := rfl
  newlineBefore_token _ := rfl
  start_token _ := rfl
  rest_cursor _ := rfl
  shape_tree := Tree.shape_unplaced
  start_tree t := congrArg Span.start t.span_unplaced
  Judges := Steady
  Behind _ _ := True
  Leaves _ _ := True
  judges_of h hP s c hended hc := h s c hended (hP c hc)
  judges_false _ _ _ hc := hc.elim
  judges_leaves h _ s c hended hc := by
    obtain ⟨heq,hok⟩ := h s c hended hc
    refine ⟨heq,fun a d ha => ?_⟩
    obtain ⟨hd,hQ⟩ := hok a d ha
    exact ⟨hd,hQ,fun _ _ => trivial⟩
  judges_pure h := .of_ok (fun _ _ => rfl) (fun _ _ => rfl) fun c hended hc => ⟨hended,h c hc⟩
  judges_bind := Steady.bind
  judges_get := .of_ok (fun _ _ => rfl) (fun _ _ => rfl) fun c hended hc => ⟨hended,rfl,hc⟩
  judges_read s c hended hc := by
    refine ⟨rfl,fun a d ha => ?_⟩
    cases ha
    exact ⟨hended,hc⟩
  judges_advance h := by
    refine .of_ok (fun _ _ => rfl) (fun s c => ?_) fun c hended hc => ⟨hended.advance,h c hended hc⟩
    change Except.ok ((),c.unplaced.advance) = .ok ((),c.advance.unplaced)
    rw [c.advance_unplaced]
  judges_finish {P Q n shape} h := by
    refine .of_ok (fun _ _ => rfl) (fun s c => ?_) fun c hended hc => ⟨hended,h c hc⟩
    change Except.ok (Tree.node c.finished ⟨0,0⟩ (shape.map Tree.unplaced),_) =
      Except.ok (Tree.unplaced _,_)
    rw [Tree.unplaced_eq]
    rfl
  judges_fail _ := .of_error (fun _ _ => rfl) fun _ _ => rfl
  judges_failWith _ := .of_error (fun _ _ => rfl) fun _ _ => rfl
  judges_failAt _ _ := .of_error (fun _ _ => rfl) fun _ _ => rfl
  judges_nested := Steady.nested
  judges_insideFunction h s c := h _ c

/-- Whether the places of the tokens are forgotten does not matter to what is read of them. -/
theorem parseTokens_unplaced {first : Token} {others : List Token} (h : Ended (first :: others)) :
    parseTokens first.unplaced (others.map Token.unplaced) =
      match parseTokens first others with
      | .ok t => .ok t.unplaced
      | .error e => .error e.unplaced := by
  have hitems := (judged_productions (A := layout) (fun _ => ⟨trivial,trivial⟩)
    (others.length + 1)).programItems (b := 2 * others.length) (Int.lt_succ others.length)
  have hprogram : layout.Judges (Left others.length (2 * others.length)) Tree.unplaced
      (program (productions (others.length + 1))) (program (productions (others.length + 1)))
      fun _ _ => True := by
    refine hitems.bind fun body => Discipline.Judges.current.bind fun t => ?_
    refine Steady.of_ok (fun _ _ => rfl) (fun s c => ?_) fun c hended _ => ⟨hended,trivial⟩
    change Except.ok (Tree.node c.finished ⟨0,0⟩ ((Shape.program body).map Tree.unplaced),_) =
      Except.ok (Tree.unplaced _,_)
    rw [Tree.unplaced_eq]
    rfl
  have hcursor : (⟨first.unplaced,others.map Token.unplaced,0,0⟩ : Cursor) =
      Cursor.unplaced ⟨first,others,0,0⟩ := rfl
  simp only [parseTokens,List.length_map]
  rw [hcursor,(hprogram ⟨0,false⟩ ⟨first,others,0,0⟩ h ⟨by simp,by simp⟩).1]
  cases program (productions (others.length + 1)) ⟨0,false⟩ ⟨first,others,0,0⟩ <;> rfl

end Grammar
end ScriptLint
