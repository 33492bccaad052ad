import Mathlib
import ScriptLint.Grammar.Cursor

/-! Reasoning about parsers. A parser is judged by what holds whenever it succeeds; one rule for
each way to put parsers together reduces the judgment of a parser to those of its parts. -/
namespace ScriptLint.Grammar
variable {α β : Type} {s : Surroundings} {c : Cursor}

/-- What holds at a token of a given kind. -/
def Facing (kind : TokenKind) (P : Cursor → Prop) (c : Cursor) : Prop := c.current.kind = kind ∧ P c

/-- Whenever the parser succeeds from `c`, its result and the place it stops at satisfy `Q`. -/
def Yields (p : Parser α) (s : Surroundings) (c : Cursor) (Q : α → Cursor → Prop) : Prop :=
  ∀ a d, p s c = .ok (a,d) → Q a d

theorem Yields.mono {p : Parser α} {P Q : α → Cursor → Prop} (h : Yields p s c P)
    (hPQ : ∀ a d, P a d → Q a d) : Yields p s c Q :=
  fun a d hp => hPQ a d (h a d hp)

theorem Yields.and {p : Parser α} {P Q : α → Cursor → Prop} (h : Yields p s c P)
    (h' : Yields p s c Q) : Yields p s c fun a d => P a d ∧ Q a d :=
  fun a d hp => ⟨h a d hp,h' a d hp⟩

@[simp] theorem yields_pure {a : α} {Q : α → Cursor → Prop} : Yields (pure a) s c Q ↔ Q a c := by
  constructor
  · intro h
    exact h a c rfl
  · intro h b d hb
    cases hb
    exact h

/-- A chain of two parsers succeeds only where both do, the second from where the first stops. -/
lemma bind_eq_ok {p : Parser α} {f : α → Parser β} {b : β} {e : Cursor} :
    (p >>= f) s c = .ok (b,e) ↔ ∃ a d, p s c = .ok (a,d) ∧ f a s d = .ok (b,e) := by
  change ((p s c) >>= fun r => f r.1 s r.2) = .ok (b,e) ↔ _
  cases p s c with
  | error e => simp [bind,Except.bind]
  | ok r =>
    obtain ⟨a,d⟩ := r
    simp [bind,Except.bind,and_assoc]

@[simp] theorem yields_bind {p : Parser α} {f : α → Parser β} {Q : β → Cursor → Prop} :
    Yields (p >>= f) s c Q ↔ Yields p s c fun a d => Yields (f a) s d Q := by
  constructor
  · intro h a d hp b e hf
    exact h b e (bind_eq_ok.mpr ⟨a,d,hp,hf⟩)
  · intro h b e hb
    obtain ⟨a,d,hp,hf⟩ := bind_eq_ok.mp hb
    exact h a d hp b e hf

theorem Yields.of_forall {p : Parser α} {Q : α → Cursor → Prop} (h : ∀ a d, Q a d) :
    Yields p s c Q :=
  fun a d _ => h a d

/-- Where only the second of two parsers matters. -/
theorem Yields.last {p : Parser α} {f : α → Parser β} {Q : β → Cursor → Prop}
    (h : ∀ a d, Yields (f a) s d Q) : Yields (p >>= f) s c Q :=
  yields_bind.mpr (.of_forall h)

@[simp] theorem yields_map {p : Parser α} {f : α → β} {Q : β → Cursor → Prop} :
    Yields (f <$> p) s c Q ↔ Yields p s c fun a d => Q (f a) d := by
  rw [map_eq_pure_bind,yields_bind]
  simp only [yields_pure]

@[simp] theorem yields_ite {b : Prop} [Decidable b] {p q : Parser α} {Q : α → Cursor → Prop} :
    Yields (if b then p else q) s c Q ↔ (b → Yields p s c Q) ∧ (¬b → Yields q s c Q) := by
  split <;> simp_all

@[simp] theorem yields_get {Q : Cursor → Cursor → Prop} :
    Yields (get : Parser Cursor) s c Q ↔ Q c c := by
  constructor
  · intro h
    exact h c c rfl
  · intro h a d hp
    cases hp
    exact h

@[simp] theorem yields_read {Q : Surroundings → Cursor → Prop} :
    Yields (read : Parser Surroundings) s c Q ↔ Q s c := by
  constructor
  · intro h
    exact h s c rfl
  · intro h a d hp
    cases hp
    exact h

@[simp] theorem yields_current {Q : Token → Cursor → Prop} :
    Yields current s c Q ↔ Q c.current c := by
  simp [current]

@[simp] theorem yields_start {Q : Nat → Cursor → Prop} :
    Yields start s c Q ↔ Q c.current.span.start c := by
  simp [start]

@[simp] theorem yields_advance {Q : Unit → Cursor → Prop} :
    Yields advance s c Q ↔ Q () c.advance := by
  constructor
  · intro h
    exact h () c.advance rfl
  · intro h a d hp
    cases hp
    exact h

@[simp] theorem yields_finish {start : Nat} {shape : Shape Tree} {Q : Tree → Cursor → Prop} :
    Yields (finish start shape) s c Q ↔
      Q (.node c.finished ⟨start,max c.consumedEnd start⟩ shape)
        { c with finished := c.finished + 1 } := by
  constructor
  · intro h
    exact h _ _ rfl
  · intro h a d hp
    cases hp
    exact h

@[simp] theorem yields_failAt {offset : Nat} {fault : Fault} {Q : α → Cursor → Prop} :
    Yields (failAt offset fault) s c Q := by
  intro a d hp
  cases hp

@[simp] theorem yields_fail {fault : Fault} {Q : α → Cursor → Prop} :
    Yields (fail fault) s c Q := by
  simp [fail]

@[simp] theorem yields_failWith {fault : TokenKind → Fault} {Q : α → Cursor → Prop} :
    Yields (failWith fault) s c Q := by
  simp [failWith]

@[simp] theorem yields_unexpected {Q : α → Cursor → Prop} : Yields unexpected s c Q := by
  simp [unexpected]

@[simp] theorem yields_atKind {kind : TokenKind} {Q : Bool → Cursor → Prop} :
    Yields (atKind kind) s c Q ↔ Q (c.current.kind == kind) c := by
  simp [atKind]

@[simp] theorem yields_atPunct {p : Punct} {Q : Bool → Cursor → Prop} :
    Yields (atPunct p) s c Q ↔ Q (c.current.kind == .punct p) c := by
  simp [atPunct]

@[simp] theorem yields_atWord {w : Keyword} {Q : Bool → Cursor → Prop} :
    Yields (atWord w) s c Q ↔ Q (c.current.kind == .reserved w) c := by
  simp [atWord]

@[simp] theorem yields_eat {kind : TokenKind} {Q : Bool → Cursor → Prop} :
    Yields (eat kind) s c Q ↔
      (c.current.kind = kind → Q true c.advance) ∧ (c.current.kind ≠ kind → Q false c) := by
  simp [eat]

@[simp] theorem yields_eatPunct {p : Punct} {Q : Bool → Cursor → Prop} :
    Yields (eatPunct p) s c Q ↔
      (c.current.kind = .punct p → Q true c.advance) ∧ (c.current.kind ≠ .punct p → Q false c) :=
  yields_eat

@[simp] theorem yields_eatWord {w : Keyword} {Q : Bool → Cursor → Prop} :
    Yields (eatWord w) s c Q ↔
      (c.current.kind = .reserved w → Q true c.advance) ∧
      (c.current.kind ≠ .reserved w → Q false c) :=
  yields_eat

@[simp] theorem yields_expectPunct {p : Punct} {Q : Unit → Cursor → Prop} :
    Yields (expectPunct p) s c Q ↔ (c.current.kind = .punct p → Q () c.advance) := by
  simp [expectPunct]

@[simp] theorem yields_expectWord {w : Keyword} {Q : Unit → Cursor → Prop} :
    Yields (expectWord w) s c Q ↔ (c.current.kind = .reserved w → Q () c.advance) := by
  simp [expectWord]

@[simp] theorem yields_insideFunction {p : Parser α} {Q : α → Cursor → Prop} :
    Yields (insideFunction p) s c Q ↔ Yields p { s with inFunction := true } c Q :=
  Iff.rfl

@[simp] theorem yields_nested {p : Parser α} {Q : α → Cursor → Prop} :
    Yields (nested p) s c Q ↔
      (s.nesting < maxNesting → Yields p { s with nesting := s.nesting + 1 } c Q) := by
  simp only [nested,yields_bind,yields_read,yields_ite,yields_fail,implies_true,and_true]
  exact Iff.rfl

end ScriptLint.Grammar
