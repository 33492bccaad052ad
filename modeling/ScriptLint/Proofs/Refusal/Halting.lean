import ScriptLint.Proofs.Discipline.Statement
import ScriptLint.Proofs.Ending
import ScriptLint.Proofs.Program
import ScriptLint.Proofs.Refusal.Basic

/-! The care of parsers. A parser is careful when it stays within its tokens, and when it gives up only
with a refusal of the token it stands at. The parser of programs is careful. -/
namespace ScriptLint.Grammar

/-- What holds whenever a parser succeeds holds besides what it is judged by. -/
theorem Ends.and_yields {α : Type} {E : Halt → Prop} {p : Parser α} {s : Surroundings}
    {c : Cursor} {P Q : α → Cursor → Prop} (h : Ends E p s c P) (h' : Yields p s c Q) :
    Ends E p s c fun a d => P a d ∧ Q a d := by
  unfold Ends at h ⊢
  split
  next a d hp =>
    rw [hp] at h
    exact ⟨h,h' a d hp⟩
  next e hp =>
    rw [hp] at h
    exact h

/-- Among some tokens, the parser moves from where `P` holds to where `Q` does, and it gives up only
with a refusal. -/
def Careful {α : Type} (tokens : List Token) (P : Cursor → Prop) (p : Parser α)
    (Q : α → Cursor → Prop) : Prop :=
  ∀ s c, c.Within tokens → P c → Ends (Refusal tokens) p s c fun a d => d.Within tokens ∧ Q a d

namespace Careful
variable {α β : Type} {tokens : List Token} {P : Cursor → Prop} {p : Parser α}
  {Q : α → Cursor → Prop}

theorem bind {k : α → Parser β} {M : α → Cursor → Prop} {Q : β → Cursor → Prop}
    (h : Careful tokens P p M) (hk : ∀ a, Careful tokens (M a) (k a) Q) :
    Careful tokens P (p >>= k) Q := by
  intro s c hc hP
  rw [ends_bind]
  exact (h s c hc hP).mono fun a d hd => hk a s d hd.1 hd.2

theorem nested (h : Careful tokens P p Q) : Careful tokens P (nested p) Q := by
  intro s c hc hP
  rw [ends_nested]
  split
  · exact h _ c hc hP
  · exact hc.refusal trivial

end Careful

/-- A tree that a parser has read from some place on. -/
def Recent (tokens : List Token) (t : Tree) (d : Cursor) : Prop :=
  ∃ c passed, c.Within tokens ∧ Reads c passed [t] d

/-- Parsers are careful. An assignment to what is none is refused at the place of its target, and so
is a loop over members, which is read by then. -/
def care (tokens : List Token) : Discipline where
  toView := .plain
  Judges P _ p _ Q := Careful tokens P p Q
  Behind := Recent tokens
  Leaves trees p := ∀ s c, c.WellFormed → Yields p s c fun a d =>
    ∀ t ∈ trees a, ∃ passed, Reads c passed [t] d
  judges_of h hP s c hc hp := h s c hc (hP c hp)
  judges_false _ _ _ hp := hp.elim
  judges_leaves h hp s c hc hP := by
    refine ((h s c hc hP).and_yields (hp s c hc.wellFormed)).mono ?_
    rintro a d ⟨⟨hd,hQ⟩,hreads⟩
    refine ⟨hd,hQ,fun t ht => ?_⟩
    obtain ⟨passed,hr⟩ := hreads t ht
    exact ⟨c,passed,hc,hr⟩
  judges_pure h _ c hc hP := ⟨hc,h c hP⟩
  judges_bind h hk := h.bind hk
  judges_get _ _ hc hP := ⟨hc,rfl,hP⟩
  judges_read _ _ hc hP := ⟨hc,hP⟩
  judges_advance h _ c hc hP := ⟨hc.advance,h c hc.wellFormed.ended hP⟩
  judges_finish h _ c hc hP := ⟨⟨hc.wellFormed,hc.suffix⟩,h c hP⟩
  judges_fail h _ _ hc _ := hc.refusal (h _)
  judges_failWith h _ _ hc _ := hc.refusal (h _)
  judges_failAt h ht _ c hc hP := by
    obtain ⟨d,passed,hd,hr⟩ := ht c hP
    exact hd.refusal_of_reads hc hr h
  judges_nested := Careful.nested
  judges_insideFunction h _ c hc hP := h _ c hc hP

theorem retraced_productions (tokens : List Token) (n : Nat) :
    (productions n).Retraced (care tokens) where
  conditional s c hc := by
    refine (conditional_yields (sound_productions n) hc _).mono ?_
    rintro t d ⟨passed,hb,_⟩ u hu
    obtain rfl := List.mem_singleton.mp hu
    exact ⟨passed,hb.reads⟩
  forHead s c hc := by
    refine (forHead_yields (sound_productions n) hc).mono ?_
    rintro head d ⟨passed,hb,_⟩ t ht
    cases head with
    | none => contradiction
    | some head =>
      obtain rfl := List.mem_singleton.mp ht
      exact ⟨passed,hb.reads⟩

/-- How the reading of a program gives up that starts with `first`. -/
def Halts (first : Token) (others : List Token) (halt : Halt) : Prop :=
  program (productions (others.length + 1)) ⟨0,false⟩ ⟨first,others,0,0⟩ = .error halt

/-- A program is refused over the token at which its reading gives up. -/
theorem parseTokens_refusal {first : Token} {others : List Token} {e : SyntaxError}
    (ht : Tokens 0 (first :: others)) (h : parseTokens first others = .error e) :
    ∃ halt, Halts first others halt ∧ halt.error = e ∧ Refusal (first :: others) halt := by
  have hprogram : Ends (Refusal (first :: others)) (program (productions (others.length + 1)))
      ⟨0,false⟩ ⟨first,others,0,0⟩ fun _ _ => True := by
    rw [program,ends_bind]
    have hitems := (judged_productions (retraced_productions (first :: others))
      (others.length + 1)).programItems (b := 2 * others.length) (Int.lt_succ others.length)
    have hstart : Left others.length (2 * others.length) ⟨first,others,0,0⟩ := ⟨by simp,by simp⟩
    have hwithin : Cursor.Within (first :: others) ⟨first,others,0,0⟩ := ⟨ht,List.suffix_rfl⟩
    exact (hitems _ _ hwithin hstart).mono fun _ _ _ => trivial
  unfold parseTokens at h
  unfold Ends at hprogram
  dsimp only at h
  split at h
  · contradiction
  · next halt hp =>
    cases h
    rw [hp] at hprogram
    exact ⟨halt,hp,rfl,hprogram⟩

end ScriptLint.Grammar
