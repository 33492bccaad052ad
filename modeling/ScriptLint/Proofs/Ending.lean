import Mathlib
import ScriptLint.Grammar.Cursor

/-! Reasoning about parsers that have to succeed. Such a parser is judged by what holds of its result
and by the errors that it may end with instead; the rules follow it from one token to the next. -/
namespace ScriptLint.Grammar
variable {α β : Type} {E : Halt → Prop} {s : Surroundings} {c : Cursor}

/-- From `c`, the parser ends with a result and at a place that satisfy `Q`, or with an error that
satisfies `E`. -/
def Ends (E : Halt → Prop) (p : Parser α) (s : Surroundings) (c : Cursor)
    (Q : α → Cursor → Prop) : Prop :=
  match p s c with
  | .ok (a,d) => Q a d
  | .error e => E e

theorem Ends.mono {p : Parser α} {P Q : α → Cursor → Prop} (h : Ends E p s c P)
    (hPQ : ∀ a d, P a d → Q a d) : Ends E p s c Q := by
  unfold Ends at h ⊢
  split
  next a d hp =>
    rw [hp] at h
    exact hPQ a d h
  next e hp =>
    rw [hp] at h
    exact h

@[simp] theorem ends_pure {a : α} {Q : α → Cursor → Prop} : Ends E (pure a) s c Q ↔ Q a c := Iff.rfl

@[simp] theorem ends_bind {p : Parser α} {f : α → Parser β} {Q : β → Cursor → Prop} :
    Ends E (p >>= f) s c Q ↔ Ends E p s c fun a d => Ends E (f a) s d Q := by
  unfold Ends
  change (match (p s c) >>= fun r => f r.1 s r.2 with
    | .ok (a,d) => Q a d
    | .error e => E e) ↔ _
  cases p s c <;> rfl

@[simp] theorem ends_map {p : Parser α} {f : α → β} {Q : β → Cursor → Prop} :
    Ends E (f <$> p) s c Q ↔ Ends E p s c fun a d => Q (f a) d := by
  rw [map_eq_pure_bind,ends_bind]
  simp only [ends_pure]

@[simp] theorem ends_ite {b : Prop} [Decidable b] {p q : Parser α} {Q : α → Cursor → Prop} :
    Ends E (if b then p else q) s c Q ↔ if b then Ends E p s c Q else Ends E q s c Q := by
  split <;> rfl

@[simp] theorem ends_get {Q : Cursor → Cursor → Prop} :
    Ends E (get : Parser Cursor) s c Q ↔ Q c c := Iff.rfl

@[simp] theorem ends_read {Q : Surroundings → Cursor → Prop} :
    Ends E (read : Parser Surroundings) s c Q ↔ Q s c := Iff.rfl

@[simp] theorem ends_current {Q : Token → Cursor → Prop} :
    Ends E current s c Q ↔ Q c.current c := Iff.rfl

@[simp] theorem ends_start {Q : Nat → Cursor → Prop} :
    Ends E start s c Q ↔ Q c.current.span.start c := Iff.rfl

@[simp] theorem ends_advance {Q : Unit → Cursor → Prop} :
    Ends E advance s c Q ↔ Q () c.advance := Iff.rfl

@[simp] theorem ends_finish {start : Nat} {shape : Shape Tree} {Q : Tree → Cursor → Prop} :
    Ends E (finish start shape) s c Q ↔
      Q (.node c.finished ⟨start,max c.consumedEnd start⟩ shape)
        { c with finished := c.finished + 1 } := Iff.rfl

@[simp] theorem ends_fail {fault : Fault} {Q : α → Cursor → Prop} :
    Ends E (fail fault) s c Q ↔ E ⟨⟨fault,c.current.span.start⟩,c⟩ := Iff.rfl

@[simp] theorem ends_failWith {fault : TokenKind → Fault} {Q : α → Cursor → Prop} :
    Ends E (failWith fault) s c Q ↔ E ⟨⟨fault c.current.kind,c.current.span.start⟩,c⟩ := Iff.rfl

@[simp] theorem ends_atPunct {p : Punct} {Q : Bool → Cursor → Prop} :
    Ends E (atPunct p) s c Q ↔ Q (c.current.kind == .punct p) c := Iff.rfl

@[simp] theorem ends_atWord {w : Keyword} {Q : Bool → Cursor → Prop} :
    Ends E (atWord w) s c Q ↔ Q (c.current.kind == .reserved w) c := Iff.rfl

theorem ends_eat {kind : TokenKind} {Q : Bool → Cursor → Prop} :
    Ends E (eat kind) s c Q ↔ if c.current.kind = kind then Q true c.advance else Q false c := by
  simp [eat,atKind]

@[simp] theorem ends_eatPunct {p : Punct} {Q : Bool → Cursor → Prop} :
    Ends E (eatPunct p) s c Q ↔
      if c.current.kind = .punct p then Q true c.advance else Q false c := ends_eat

@[simp] theorem ends_eatWord {w : Keyword} {Q : Bool → Cursor → Prop} :
    Ends E (eatWord w) s c Q ↔
      if c.current.kind = .reserved w then Q true c.advance else Q false c := ends_eat

@[simp] theorem ends_expectPunct {p : Punct} {Q : Unit → Cursor → Prop} :
    Ends E (expectPunct p) s c Q ↔ if c.current.kind = .punct p then Q () c.advance
      else E ⟨⟨.expected p.text c.current.kind,c.current.span.start⟩,c⟩ := by
  simp [expectPunct]

@[simp] theorem ends_expectWord {w : Keyword} {Q : Unit → Cursor → Prop} :
    Ends E (expectWord w) s c Q ↔ if c.current.kind = .reserved w then Q () c.advance
      else E ⟨⟨.expected w.text c.current.kind,c.current.span.start⟩,c⟩ := by
  simp [expectWord]

theorem ends_nested {p : Parser α} {Q : α → Cursor → Prop} :
    Ends E (nested p) s c Q ↔
      if s.nesting < maxNesting then Ends E p { s with nesting := s.nesting + 1 } c Q
      else E ⟨⟨.nestingTooDeep,c.current.span.start⟩,c⟩ := by
  simp only [nested,ends_bind,ends_read,ends_ite,ends_fail]
  rfl

end ScriptLint.Grammar
