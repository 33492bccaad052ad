import Mathlib
import ScriptLint.Proofs.Rereading.Basic

/-! Tokens whose brackets are properly nested and closed each by its own kind. In them every bracket
that opens has just one that closes it, and every one that closes has just one that opens it. -/
namespace ScriptLint

/-- What closes the bracket that a sign opens. -/
def Punct.closer? : Punct → Option Punct
  | .openParen => some .closeParen
  | .openBracket => some .closeBracket
  | .openBrace => some .closeBrace
  | _ => none

/-- Whether a token is neither a bracket nor the end of input. -/
def TokenKind.isPlain : TokenKind → Bool
  | .punct p => !p.isOpening && !p.isClosing
  | .endOfInput => false
  | _ => true

/-- A token closes the bracket that another one opens. -/
def Token.Pairs (opening closing : Token) : Prop :=
  ∃ p q, opening.kind = .punct p ∧ p.closer? = some q ∧ closing.kind = .punct q

namespace Punct

theorem isOpening_of_closer {p q : Punct} (h : p.closer? = some q) : p.isOpening = true := by
  cases p <;> simp_all [closer?,isOpening]

theorem isClosing_of_closer {p q : Punct} (h : p.closer? = some q) : q.isClosing = true := by
  cases p <;> cases h <;> rfl

theorem isOpening_of_isClosing {p : Punct} (h : p.isClosing = true) : p.isOpening = false := by
  cases p <;> simp_all [isOpening,isClosing]

end Punct

namespace Token

/-- A token that opens a bracket. -/
def Opens (t : Token) : Prop := ∃ p, t.kind = .punct p ∧ p.isOpening = true

/-- A token that closes a bracket. -/
def Shuts (t : Token) : Prop := ∃ p, t.kind = .punct p ∧ p.isClosing = true

theorem Pairs.shuts {opening closing : Token} (h : opening.Pairs closing) : closing.Shuts := by
  obtain ⟨p,q,-,hcloser,hq⟩ := h
  exact ⟨q,hq,Punct.isClosing_of_closer hcloser⟩

theorem Opens.not_shuts {t : Token} (h : t.Opens) : ¬ t.Shuts := by
  obtain ⟨p,hp,hopening⟩ := h
  intro hshuts
  obtain ⟨q,hq,hclosing⟩ := hshuts
  cases hp.symm.trans hq
  rw [Punct.isOpening_of_isClosing hclosing] at hopening
  cases hopening

theorem Opens.not_plain {t : Token} (h : t.Opens) : t.kind.isPlain = false := by
  obtain ⟨p,hp,hopening⟩ := h
  simp [hp,TokenKind.isPlain,hopening]

end Token

namespace Grammar

/-- Tokens whose brackets are properly nested and closed by their own kind. -/
inductive Bracketed : List Token → Prop
  | nil : Bracketed []
  | plain {t : Token} {ts : List Token} (plain : t.kind.isPlain = true) (more : Bracketed ts) :
      Bracketed (t :: ts)
  | pair {opening closing : Token} {inner ts : List Token} (pairs : opening.Pairs closing)
      (inside : Bracketed inner) (more : Bracketed ts) :
      Bracketed (opening :: (inner ++ closing :: ts))

lemma rise_plain {k : TokenKind} (h : k.isPlain = true) (depth : Nat) (ws : Words) :
    rise depth (k :: ws) = rise depth ws := by
  cases k with
  | punct p =>
    simp only [TokenKind.isPlain,Bool.and_eq_true,Bool.not_eq_true'] at h
    simp [rise,h.1,h.2]
  | endOfInput => cases h
  | _ => rfl

namespace Bracketed
variable {ts us inner inner' before before' after after' : List Token}
  {opening opening' closing closing' : Token}

theorem append (h : Bracketed ts) (h' : Bracketed us) : Bracketed (ts ++ us) := by
  induction h with
  | nil => exact h'
  | plain hplain _ ih => exact .plain hplain ih
  | pair hpairs hinside _ _ ih =>
    rw [List.cons_append,List.append_assoc,List.cons_append]
    exact .pair hpairs hinside ih

/-- As many brackets are closed as are opened. -/
theorem balanced (h : Bracketed ts) : Balanced (ts.map Token.kind) := by
  induction h with
  | nil => exact fun _ => rfl
  | plain hplain _ ih =>
    intro depth
    rw [List.map_cons,rise_plain hplain,ih]
  | pair hpairs _ _ ihinner ih =>
    obtain ⟨p,q,hp,hcloser,hq⟩ := hpairs
    intro depth
    have hclosing := Punct.isClosing_of_closer hcloser
    simp [hp,hq,rise,rise_append,ihinner (depth + 1),ih depth,hclosing,
      Punct.isOpening_of_closer hcloser,Punct.isOpening_of_isClosing hclosing]

/-- Whatever is closed is opened before. -/
theorem not_shut (h : Bracketed inner) (hshuts : closing.Shuts) :
    ¬ Bracketed (inner ++ closing :: after) := by
  obtain ⟨q,hq,hclosing⟩ := hshuts
  intro hwhole
  have hrise := hwhole.balanced 0
  rw [List.map_append,rise_append,h.balanced 0,List.map_cons,hq] at hrise
  simp [rise,hclosing,Punct.isOpening_of_isClosing hclosing] at hrise

/-- Nothing is closed in two places. -/
theorem closing_unique (h : Bracketed inner) (h' : Bracketed inner') (hshuts : closing.Shuts)
    (hshuts' : closing'.Shuts) (heq : inner ++ closing :: after = inner' ++ closing' :: after') :
    inner = inner' ∧ after = after' := by
  obtain ⟨between,hinner,hafter⟩ | ⟨between,hinner,hafter⟩ := List.append_eq_append_iff.mp heq
  · cases between with
    | nil =>
      rw [List.append_nil] at hinner
      exact ⟨hinner.symm,(List.cons.inj hafter).2⟩
    | cons t between =>
      cases (List.cons.inj hafter).1
      exact absurd (hinner ▸ h') (h.not_shut hshuts)
  · cases between with
    | nil =>
      rw [List.append_nil] at hinner
      exact ⟨hinner,(List.cons.inj hafter).2.symm⟩
    | cons t between =>
      cases (List.cons.inj hafter).1
      exact absurd (hinner ▸ h) (h'.not_shut hshuts')

/-- Whatever is opened is closed. -/
theorem exists_closing (h : Bracketed ts) (heq : ts = before ++ opening :: after)
    (hopens : opening.Opens) : ∃ inner closing rest,
      after = inner ++ closing :: rest ∧ Bracketed inner ∧ opening.Pairs closing := by
  induction h generalizing before after with
  | nil => cases before <;> cases heq
  | plain hplain _ ih =>
    cases before with
    | nil =>
      cases heq
      rw [hopens.not_plain] at hplain
      cases hplain
    | cons t before => exact ih (List.cons.inj heq).2
  | @pair first last inner ts hpairs hinside _ ihinner ih =>
    cases before with
    | nil =>
      cases heq
      exact ⟨inner,last,ts,rfl,hinside,hpairs⟩
    | cons t before =>
      -- The bracket that is opened stands inside the first pair or after it.
      obtain ⟨between,hbefore,hafter⟩ | ⟨between,hinner,hafter⟩ :=
        List.append_eq_append_iff.mp (List.cons.inj heq).2
      · cases between with
        | nil =>
          cases (List.cons.inj hafter).1
          exact absurd hpairs.shuts hopens.not_shuts
        | cons u between => exact ih (List.cons.inj hafter).2
      · cases between with
        | nil =>
          cases (List.cons.inj hafter).1
          exact absurd hpairs.shuts hopens.not_shuts
        | cons u between =>
          obtain ⟨rfl,rfl⟩ := List.cons.inj hafter
          obtain ⟨inside,closing,rest,rfl,hbracketed,hcloses⟩ := ihinner hinner
          exact ⟨inside,closing,rest ++ last :: ts,by simp,hbracketed,hcloses⟩

/-- What is opened before tokens in which all is closed is not closed among them. -/
theorem not_open (h : Bracketed inner) (hopens : opening.Opens) :
    ¬ Bracketed (before ++ opening :: inner) := by
  intro hwhole
  obtain ⟨inside,closing,rest,rfl,hinside,hpairs⟩ := hwhole.exists_closing rfl hopens
  exact hinside.not_shut hpairs.shuts h

/-- Nothing is opened in two places. -/
theorem opening_unique (h : Bracketed inner) (h' : Bracketed inner') (hopens : opening.Opens)
    (hopens' : opening'.Opens) (heq : before ++ opening :: inner = before' ++ opening' :: inner') :
    before = before' ∧ inner = inner' := by
  obtain ⟨between,hbefore,hinner⟩ | ⟨between,hbefore,hinner⟩ := List.append_eq_append_iff.mp heq
  · cases between with
    | nil =>
      rw [List.append_nil] at hbefore
      exact ⟨hbefore.symm,(List.cons.inj hinner).2⟩
    | cons t between => exact absurd ((List.cons.inj hinner).2 ▸ h) (h'.not_open hopens')
  · cases between with
    | nil =>
      rw [List.append_nil] at hbefore
      exact ⟨hbefore,(List.cons.inj hinner).2.symm⟩
    | cons t between => exact absurd ((List.cons.inj hinner).2 ▸ h') (h.not_open hopens)

end Bracketed

/-- The look ahead from an opening bracket finds what follows the bracket that closes it. -/
theorem afterClosing_pair {opening closing : Token} {inner after : List Token}
    (hpairs : opening.Pairs closing) (h : Bracketed inner) :
    afterClosing 0 (opening :: (inner ++ closing :: after)) = some (after.headD closing) := by
  obtain ⟨p,q,hp,hcloser,hq⟩ := hpairs
  have hclosing := Punct.isClosing_of_closer hcloser
  rw [afterClosing,hp]
  dsimp only
  rw [if_pos (Punct.isOpening_of_closer hcloser),afterClosing_append (h.balanced 0),afterClosing,hq]
  dsimp only
  rw [if_neg (by simp [Punct.isOpening_of_isClosing hclosing]),if_pos hclosing,if_pos (by omega)]

end Grammar
end ScriptLint
