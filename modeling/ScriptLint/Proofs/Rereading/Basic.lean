import ScriptLint.Grammar.Program
import ScriptLint.Proofs.Ending
import ScriptLint.Proofs.Printing

/-! Printed words as a parser meets them: what stands before a cursor, how a token that follows an
expression may continue it, and how far the look ahead for an arrow goes. -/
namespace ScriptLint

/-- The words that may follow a statement: none that go on with a `try` or, at the end of an `if`,
with that. -/
def Tree.Precedes (t : Tree) (ws : Words) : Prop :=
  ws.head? ≠ some (.reserved .kwFinally) ∧ (t.Open → ws.head? ≠ some (.reserved .kwElse))

namespace Grammar

/-- What is not yet passed are the words and the end of input, all on one line. There are fewer of
the words than the productions are unrolled. -/
structure Cursor.Faces (c : Cursor) (n : Nat) (ws : Words) : Prop where
  kinds : c.rest.map Token.kind = ws ++ [.endOfInput]
  line : ∀ t ∈ c.rest, t.newlineBefore = false
  bound : ws.length < n

namespace Cursor.Faces
variable {c : Cursor} {n : Nat} {k k' : TokenKind} {ws : Words}

theorem kind (h : c.Faces n (k :: ws)) : c.current.kind = k := (List.cons.inj h.kinds).1

theorem kind_nil (h : c.Faces n []) : c.current.kind = .endOfInput := (List.cons.inj h.kinds).1

theorem newline (h : c.Faces n ws) : c.current.newlineBefore = false := h.line _ (.head _)

theorem finished (h : c.Faces n ws) (m : Nat) : { c with finished := m : Cursor }.Faces n ws :=
  ⟨h.kinds,h.line,h.bound⟩

theorem up (h : c.Faces n ws) : c.Faces (n + 1) ws := ⟨h.kinds,h.line,Nat.lt_succ_of_lt h.bound⟩

/-- What is left of some words is no longer than they were. -/
theorem within {d : Cursor} {m : Nat} {vs : Words} (h : c.Faces m ws) (hd : d.Faces n (vs ++ ws)) :
    c.Faces n ws := by
  have hbound := hd.bound
  rw [List.length_append] at hbound
  exact ⟨h.kinds,h.line,by omega⟩

/-- Passing a word leaves fewer of them. -/
theorem step (h : c.Faces (n + 1) (k :: ws)) : c.advance.Faces n ws := by
  obtain ⟨hkinds,hline,hbound⟩ := h
  obtain ⟨t,ts,stop,m⟩ := c
  have hahead : ts.map Token.kind = ws ++ [.endOfInput] := (List.cons.inj hkinds).2
  cases ts with
  | nil => simp at hahead
  | cons u us => exact ⟨hahead,fun v hv => hline v (.tail _ hv),Nat.lt_of_succ_lt_succ hbound⟩

theorem advance (h : c.Faces n (k :: ws)) : c.advance.Faces n ws := by
  cases n with
  | zero => exact absurd h.bound (Nat.not_lt_zero _)
  | succ n => exact h.step.up

theorem next_kind (h : c.Faces n (k :: k' :: ws)) : c.next.kind = k' := by
  obtain ⟨t,ts,stop,m⟩ := c
  have hahead : ts.map Token.kind = k' :: (ws ++ [.endOfInput]) := (List.cons.inj h.kinds).2
  cases ts with
  | nil => cases hahead
  | cons u us => exact (List.cons.inj hahead).1

end Cursor.Faces

/-- The one error that printing a tree may bring about. -/
def TooDeep (halt : Halt) : Prop := halt.error.fault = .nestingTooDeep

/-- From `c`, the parser reads something that `f` takes to `b` and stops before the words `ws`, unless
it is nested too deeply. -/
abbrev Rereads {α β : Type} (n : Nat) (f : α → β) (p : Parser α) (s : Surroundings) (c : Cursor)
    (b : β) (ws : Words) : Prop :=
  Ends TooDeep p s c fun a d => f a = b ∧ d.Faces n ws

section
variable {α β : Type} {n : Nat} {f : α → β} {p : Parser α} {s : Surroundings} {c : Cursor} {b : β}
  {ws : Words} {Q : α → Cursor → Prop}

theorem Rereads.up (h : Rereads n f p s c b ws) : Rereads (n + 1) f p s c b ws := by
  apply Ends.mono h
  rintro a d ⟨ha,hd⟩
  exact ⟨ha,hd.up⟩

/-- The nesting is too deep here or else further on. -/
theorem nested_ends (h : Ends TooDeep p { s with nesting := s.nesting + 1 } c Q) :
    Ends TooDeep (nested p) s c Q := by
  rw [ends_nested]
  split
  · exact h
  · rfl

theorem finish_rereads {t : Tree} {shape : Shape Tree} {start : Nat}
    (hshape : shape.map Tree.outline = t.shape.map Tree.outline) (hc : c.Faces n ws) :
    Rereads n Tree.outline (finish start shape) s c t.outline ws := by
  obtain ⟨i,span,shape⟩ := t
  exact ⟨Tree.outline_congr hshape,hc.finished _⟩

end

/-- How loosely a token holds on to an expression before it: an access does so most tightly, a token
that cannot go on with an expression at all not at all. -/
def grip (inHead : Bool) (k : TokenKind) : Nat :=
  if k = .punct .dot ∨ k = .punct .optionalDot ∨ k = .punct .openBracket ∨ k = .punct .openParen then 0
  else if (updateOperator? k).isSome then 1
  else if (binaryOperator? inHead k).isSome then 2
  else if k = .punct .question then 3
  else if (assignmentOperator? k).isSome ∨ k = .punct .arrow then 4
  else if k = .punct .comma then 5
  else 6

section
variable {inHead : Bool} {k : TokenKind}

theorem updateOperator_eq_none (h : 2 ≤ grip inHead k) : updateOperator? k = none := by
  grind [grip,Option.isSome_iff_ne_none]

theorem binaryOperator_eq_none (h : 3 ≤ grip inHead k) : binaryOperator? inHead k = none := by
  grind [grip,Option.isSome_iff_ne_none]

theorem ne_question (h : 4 ≤ grip inHead k) : k ≠ .punct .question := by
  grind [grip]

theorem assignmentOperator_eq_none (h : 5 ≤ grip inHead k) : assignmentOperator? k = none := by
  grind [grip,Option.isSome_iff_ne_none]

theorem ne_arrow (h : 5 ≤ grip inHead k) : k ≠ .punct .arrow := by
  grind [grip]

theorem ne_comma (h : 6 ≤ grip inHead k) : k ≠ .punct .comma := by
  grind [grip]

end

/-- The number of brackets that are open after some words, of which `depth` are before. -/
def rise (depth : Nat) : Words → Option Nat
  | [] => some depth
  | .punct p :: ws =>
    if p.isOpening then rise (depth + 1) ws
    else if p.isClosing then
      match depth with
      | 0 => none
      | depth + 1 => rise depth ws
    else rise depth ws
  | .endOfInput :: _ => none
  | _ :: ws => rise depth ws

/-- Words that close as many brackets as they open. -/
def Balanced (ws : Words) : Prop := ∀ depth, rise depth ws = some depth

theorem rise_append (depth : Nat) (ws vs : Words) :
    rise depth (ws ++ vs) = (rise depth ws).bind fun depth => rise depth vs := by
  fun_induction rise depth ws <;> simp_all [rise]

theorem afterClosing_append {depth depth' : Nat} {ts rest : List Token}
    (h : rise depth (ts.map Token.kind) = some depth') :
    afterClosing (depth + 1) (ts ++ rest) = afterClosing (depth' + 1) rest := by
  induction ts generalizing depth with
  | nil =>
    cases h
    rfl
  | cons t ts ih =>
    rw [List.map_cons] at h
    rw [List.cons_append,afterClosing]
    cases hk : t.kind with
    | endOfInput =>
      rw [hk] at h
      cases h
    | punct p =>
      simp only [hk,rise] at h
      dsimp only
      split at h
      next hp =>
        rw [if_pos hp]
        exact ih h
      next hp =>
        rw [if_neg hp]
        split at h
        next hp =>
          rw [if_pos hp]
          split at h
          · cases h
          next depth =>
            rw [if_neg (by omega)]
            exact ih h
        next hp =>
          rw [if_neg hp]
          exact ih h
    | _ =>
      rw [hk] at h
      exact ih h

theorem composable_balanced : Composable Balanced where
  nil _ := rfl
  append h h' depth := by
    rw [rise_append,h depth]
    exact h' depth
  fixed {k} h depth := by
    cases k with
    | punct p => simp_all [rise,TokenKind.isFixed]
    | endOfInput => contradiction
    | _ => rfl
  parens h depth := by simp [parens,rise,rise_append,h (depth + 1),Punct.isOpening,Punct.isClosing]
  brackets h depth := by
    simp [brackets,rise,rise_append,h (depth + 1),Punct.isOpening,Punct.isClosing]
  braces h depth := by simp [braces,rise,rise_append,h (depth + 1),Punct.isOpening,Punct.isClosing]

theorem balanced_leafWord {s : Shape Tree} {k : TokenKind} (h : s.leafWord? = some k) :
    Balanced [k] := by
  have hword (x : String) : Balanced [.ofWord x] := by
    intro depth
    unfold TokenKind.ofWord
    split <;> rfl
  cases s with
  | identifier x =>
    cases h
    exact hword x
  | literal kind raw =>
    cases h
    cases kind with
    | null | boolean => exact hword raw
    | _ => exact fun _ => rfl
  | _ => contradiction

theorem balanced_words (t : Tree) : Balanced t.words :=
  composable_balanced.words fun _ _ _ hk => balanced_leafWord hk

/-- An arrow function is recognised by what stands after its parentheses. -/
theorem startsArrow_of_parens {c : Cursor} {n : Nat} {k : TokenKind} {ws ks : Words}
    (hc : c.Faces n (parens ws ++ k :: ks)) (hws : Balanced ws) :
    c.startsArrow = (k == .punct .arrow) := by
  have hkind : c.current.kind = .punct .openParen := hc.kind
  have hahead : c.ahead.map Token.kind = ws ++ (.punct .closeParen :: k :: (ks ++ [.endOfInput])) := by
    have hkinds := (List.cons.inj hc.kinds).2
    simpa using hkinds
  obtain ⟨ts,rest,hts,hinner,hrest⟩ := List.map_eq_append_iff.mp hahead
  obtain ⟨close,more,rfl,hclose,hmore⟩ := List.map_eq_cons_iff.mp hrest
  obtain ⟨after,others,rfl,hafter,_⟩ := List.map_eq_cons_iff.mp hmore
  have hline : after.newlineBefore = false := by
    refine hc.line after ?_
    rw [Cursor.rest,hts]
    simp
  have hfound : afterClosing 0 (c.current :: c.ahead) = some after := by
    rw [← hinner] at hws
    rw [afterClosing,hkind,hts]
    exact (afterClosing_append (hws 0)).trans (by rw [afterClosing,hclose]; rfl)
  unfold Cursor.startsArrow
  rw [hkind]
  dsimp only
  rw [hfound,Option.any_some,hafter,hline,Bool.not_false,Bool.and_true]

end Grammar
end ScriptLint
