import ScriptLint.Grammar.Program
import ScriptLint.Proofs.Brackets.Basic
import ScriptLint.Proofs.Refusal.Basic

/-! Keeping count while tokens are passed. At every place it is known which brackets are still to be
closed, and that every arrow behind it belongs to an arrow function that has been read. One rule for
each way to put parsers together says what a parser does to this count. -/
namespace ScriptLint

/-- Whether a token is neither a bracket nor an arrow nor the end of input. -/
def TokenKind.isIdle : TokenKind → Bool
  | .punct p => !p.isOpening && !p.isClosing && p != .arrow
  | .endOfInput => false
  | _ => true

theorem TokenKind.isPlain_of_isIdle {k : TokenKind} (h : k.isIdle = true) : k.isPlain = true := by
  cases k with
  | punct p => exact (Bool.and_eq_true _ _ ▸ h).1
  | endOfInput => cases h
  | _ => rfl

namespace Grammar

/-- Tokens after which brackets are still to be closed, the one that was opened last first. -/
def Pending : List Punct → List Token → Prop
  | [], ts => Bracketed ts
  | q :: owed, ts => ∃ before opening p inner, ts = before ++ opening :: inner ∧
      opening.kind = .punct p ∧ p.closer? = some q ∧ Pending owed before ∧ Bracketed inner

/-- What is to be closed before and after a token that is no arrow. -/
inductive Settles (kind : TokenKind) : List Punct → List Punct → Prop
  | idle {owed : List Punct} (idle : kind.isIdle = true) : Settles kind owed owed
  | opening {owed : List Punct} {p q : Punct} (opening : kind = .punct p)
      (closer : p.closer? = some q) : Settles kind owed (q :: owed)
  | closing {owed : List Punct} {p : Punct} (closing : kind = .punct p)
      (isClosing : p.isClosing = true) : Settles kind (p :: owed) owed

theorem Settles.ne_arrow {kind : TokenKind} {owed owed' : List Punct}
    (h : Settles kind owed owed') : kind ≠ .punct .arrow := by
  cases h with
  | idle hidle =>
    rintro rfl
    cases hidle
  | opening hp hcloser =>
    intro harrow
    cases hp.symm.trans harrow
    cases hcloser
  | closing hp hclosing =>
    intro harrow
    cases hp.symm.trans harrow
    cases hclosing

theorem Settles.ne_end {kind : TokenKind} {owed owed' : List Punct}
    (h : Settles kind owed owed') : kind ≠ .endOfInput := by
  cases h with
  | idle hidle =>
    rintro rfl
    cases hidle
  | opening hp _ =>
    rintro rfl
    cases hp
  | closing hp _ =>
    rintro rfl
    cases hp

namespace Pending
variable {owed owed' : List Punct} {ts us : List Token} {t : Token}

theorem append (h : Pending owed ts) (hus : Bracketed us) : Pending owed (ts ++ us) := by
  cases owed with
  | nil => exact Bracketed.append h hus
  | cons q owed =>
    obtain ⟨before,opening,p,inner,rfl,hp,hcloser,hbefore,hinner⟩ := h
    exact ⟨before,opening,p,inner ++ us,by simp,hp,hcloser,hbefore,hinner.append hus⟩

theorem settle (h : Pending owed ts) (hs : Settles t.kind owed owed') :
    Pending owed' (ts ++ [t]) := by
  cases hs with
  | idle hidle => exact h.append (.plain (TokenKind.isPlain_of_isIdle hidle) .nil)
  | @opening _ p q hp hcloser => exact ⟨ts,t,p,[],rfl,hp,hcloser,h,.nil⟩
  | @closing _ p hp _ =>
    obtain ⟨before,opening,q,inner,rfl,hq,hcloser,hbefore,hinner⟩ := h
    have hpair : Bracketed (opening :: (inner ++ [t])) := .pair ⟨q,p,hq,hcloser,hp⟩ hinner .nil
    have heq : before ++ opening :: inner ++ [t] = before ++ opening :: (inner ++ [t]) := by simp
    rw [heq]
    exact hbefore.append hpair

end Pending

/-- The arrow that some tokens begin with belongs to an arrow function that was read. It was
announced by the look ahead and begins with one name or with parameters in parentheses, right before
the arrow. It is one of the trees that are held or below one of them. -/
def Led (tokens : List Token) (held : List Tree) (rest : List Token) : Prop :=
  ∃ q n s f e, q.Within tokens ∧ q.startsArrow = true ∧
    arrowFunction (productions n) s q = .ok (f,e) ∧ (∃ t ∈ held, f ∈ t.preorder) ∧
    ((∃ name x, q.rest = name :: rest ∧ name.kind = .name x) ∨
      ∃ params d body, parameterList (productions n) s q = .ok (params,d) ∧ d.rest = rest ∧
        f.shape = .function .arrow none params body)

/-- At a place in some tokens it is known what is still to be closed, and all arrows behind it
belong to functions among the trees that are held. -/
structure Tally (tokens : List Token) (owed : List Punct) (held : List Tree) (c : Cursor) :
    Prop where
  wellFormed : c.WellFormed
  passed : ∃ passed, tokens = passed ++ c.rest ∧ Pending owed passed
  arrows : ∀ arrow more, arrow.kind = .punct .arrow → arrow :: more <:+ tokens →
    c.rest <:+ more → Led tokens held (arrow :: more)

/-- Trees all of whose nodes are among those of other trees. -/
def Under (held held' : List Tree) : Prop := ∀ t ∈ held, ∃ t' ∈ held', t.preorder ⊆ t'.preorder

theorem Under.of_subset {held held' : List Tree} (h : held ⊆ held') : Under held held' :=
  fun t ht => ⟨t,h ht,List.Subset.refl _⟩

/-- What is below a node is under it. -/
theorem Under.node {parts held : List Tree} {id : NodeId} {span : Span} {shape : Shape Tree}
    (h : parts ⊆ shape.children ++ held) : Under parts (.node id span shape :: held) := by
  intro t ht
  cases List.mem_append.mp (h ht) with
  | inl hchild => exact ⟨_,.head _,fun f hf => Tree.mem_preorder.mpr (.inr ⟨t,hchild,hf⟩)⟩
  | inr hheld => exact ⟨t,.tail _ hheld,List.Subset.refl _⟩

theorem Led.mono {tokens tokens' rest : List Token} {held held' : List Tree}
    (h : Led tokens held rest) (htokens : tokens <:+ tokens') (hheld : Under held held') :
    Led tokens' held' rest := by
  obtain ⟨q,n,s,f,e,hq,hstarts,hrun,⟨t,ht,hf⟩,hhead⟩ := h
  obtain ⟨t',ht',hsub⟩ := hheld t ht
  exact ⟨q,n,s,f,e,⟨hq.wellFormed,hq.suffix.trans htokens⟩,hstarts,hrun,⟨t',ht',hsub hf⟩,hhead⟩

/-- Of two places in a list, the later one is right after the first token of the other or further
on. -/
lemma suffix_cases {α : Type} {l xs ys : List α} {x y : α} (hx : x :: xs <:+ l) (hy : y :: ys <:+ l)
    (h : xs <:+ ys) : (y = x ∧ ys = xs) ∨ x :: xs <:+ ys := by
  obtain hsuffix | hsuffix := List.suffix_or_suffix_of_suffix hx hy
  · obtain heq | hsuffix := List.suffix_cons_iff.mp hsuffix
    · exact .inl ⟨(List.cons.inj heq).1.symm,(List.cons.inj heq).2.symm⟩
    · exact .inr hsuffix
  · have hlength := hsuffix.length_le
    have hlength' := h.length_le
    rw [List.length_cons,List.length_cons] at hlength
    have heq : xs = ys := h.eq_of_length (by omega)
    subst heq
    exact .inl ⟨(List.cons.inj (hsuffix.eq_of_length (by simp))).1,rfl⟩

/-- What is left after a token that is not the last one. -/
lemma Cursor.WellFormed.rest_eq {c : Cursor} (h : c.WellFormed)
    (hne : c.current.kind ≠ .endOfInput) : c.rest = c.current :: c.advance.rest := by
  rw [rest,(h.advance_eq hne).1]

namespace Tally
variable {tokens : List Token} {owed owed' : List Punct} {held held' : List Tree} {c d : Cursor}

/-- Before the first token nothing is to be closed. -/
theorem start (h : c.WellFormed) : Tally c.rest [] [] c := by
  refine ⟨h,⟨[],rfl,.nil⟩,?_⟩
  intro arrow more _ hsuffix hmore
  have hlength := hsuffix.length_le
  have hlength' := hmore.length_le
  rw [List.length_cons] at hlength
  omega

theorem within (h : Tally tokens owed held c) : c.Within tokens := by
  obtain ⟨passed,heq,-⟩ := h.passed
  exact ⟨h.wellFormed,passed,heq.symm⟩

theorem mono (h : Tally tokens owed held c) (hheld : Under held held') :
    Tally tokens owed held' c :=
  ⟨h.wellFormed,h.passed,fun arrow more harrow hsuffix hmore =>
    (h.arrows arrow more harrow hsuffix hmore).mono List.suffix_rfl hheld⟩

theorem finished (h : Tally tokens owed held c) (n : NodeId) :
    Tally tokens owed held { c with finished := n } :=
  ⟨h.wellFormed,h.passed,h.arrows⟩

theorem advance (h : Tally tokens owed held c) (hs : Settles c.current.kind owed owed') :
    Tally tokens owed' held c.advance := by
  obtain ⟨passed,heq,hpending⟩ := h.passed
  have hahead := h.wellFormed.rest_eq hs.ne_end
  refine ⟨h.wellFormed.advance,⟨passed ++ [c.current],?_,hpending.settle hs⟩,?_⟩
  · rw [heq,hahead,List.append_assoc]
    rfl
  · intro arrow more harrow hsuffix hmore
    have hrest : c.current :: c.advance.rest <:+ tokens := hahead ▸ h.within.suffix
    obtain ⟨heq,-⟩ | hbehind := suffix_cases hrest hsuffix hmore
    · exact absurd (heq ▸ harrow) hs.ne_arrow
    · exact h.arrows arrow more harrow hsuffix (hahead ▸ hbehind)

/-- An arrow is passed with what follows it, once the function it belongs to is known. -/
theorem arrow {parts below : List Tree} (h : Tally tokens owed parts c)
    (hkind : c.current.kind = .punct .arrow) (hbelow : Tally c.advance.rest [] below d)
    (hled : Led tokens held c.rest) (hparts : Under parts held) (hunder : Under below held) :
    Tally tokens owed held d := by
  obtain ⟨passed,heq,hpending⟩ := h.passed
  obtain ⟨passed',heq',hbracketed⟩ := hbelow.passed
  have hahead := h.wellFormed.rest_eq (by simp [hkind])
  have hplain : Bracketed (c.current :: passed') := .plain (by rw [hkind]; rfl) hbracketed
  have hrest : c.current :: c.advance.rest <:+ tokens := hahead ▸ h.within.suffix
  refine ⟨hbelow.wellFormed,⟨passed ++ c.current :: passed',?_,hpending.append hplain⟩,?_⟩
  · rw [heq,hahead,heq',List.append_assoc]
    rfl
  · -- Another arrow stands before this one, is this one or stands after it.
    intro arrow more harrow hsuffix hmore
    obtain hbefore | hafter := List.suffix_or_suffix_of_suffix hrest hsuffix
    · obtain hthis | hbefore := List.suffix_cons_iff.mp hbefore
      · rw [← hthis,← hahead]
        exact hled
      · rw [← hahead] at hbefore
        exact (h.arrows arrow more harrow hsuffix hbefore).mono List.suffix_rfl hparts
    · obtain hthis | hafter := List.suffix_cons_iff.mp hafter
      · rw [hthis,← hahead]
        exact hled
      · have hadvance : c.advance.rest <:+ tokens := (List.suffix_cons _ _).trans hrest
        exact (hbelow.arrows arrow more harrow hafter hmore).mono hadvance hunder

end Tally

/-- Where `P` holds before the parser, `Q` holds of its result and of the place it stops at. -/
def Carries {α : Type} (P : Cursor → Prop) (p : Parser α) (Q : α → Cursor → Prop) : Prop :=
  ∀ s c, P c → Yields p s c Q

/-- A parser that reads a tree and closes all that it opens. -/
abbrev Adds (tokens : List Token) (owed : List Punct) (held : List Tree) (p : Parser Tree) : Prop :=
  Carries (Tally tokens owed held) p fun t => Tally tokens owed (t :: held)

/-- A parser that reads some trees and closes all that it opens. -/
abbrev AddsAll (tokens : List Token) (owed : List Punct) (held : List Tree)
    (p : Parser (List Tree)) : Prop :=
  Carries (Tally tokens owed held) p fun ts => Tally tokens owed (ts ++ held)

/-- A parser that reads a tree from a token of a given kind and closes all that it opens. -/
abbrev AddsAt (kind : TokenKind) (tokens : List Token) (owed : List Punct) (held : List Tree)
    (p : Parser Tree) : Prop :=
  Carries (Facing kind (Tally tokens owed held)) p fun t => Tally tokens owed (t :: held)

namespace Carries
section
variable {α β : Type} {P P' : Cursor → Prop} {p p' : Parser α} {M Q : α → Cursor → Prop}
  {kind : TokenKind}

theorem of (hP : ∀ c, P c → P' c) (h : Carries P' p Q) : Carries P p Q :=
  fun s c hc => h s c (hP c hc)

theorem facing (h : Carries P p Q) : Carries (Facing kind P) p Q := h.of fun _ hc => hc.2

/-- At a place that is known, the kind of its token is. -/
theorem here {c : Cursor} (h : Carries (Facing c.current.kind P) p Q) :
    Carries (fun d => d = c ∧ P d) p Q :=
  h.of fun _ hd => ⟨congrArg (·.current.kind) hd.1,hd.2⟩

theorem bind {k : α → Parser β} {Q : β → Cursor → Prop} (h : Carries P p M)
    (hk : ∀ a, Carries (M a) (k a) Q) : Carries P (p >>= k) Q := by
  intro s c hc
  rw [yields_bind]
  exact (h s c hc).mono fun a d hd => hk a s d hd

theorem ite {b : Prop} [Decidable b] (h : Carries P p Q) (h' : Carries P p' Q) :
    Carries P (if b then p else p') Q := by
  split
  · exact h
  · exact h'

theorem ite_of {b : Prop} [Decidable b] (h : b → Carries P p Q) (h' : Carries P p' Q) :
    Carries P (if b then p else p') Q := by
  split
  · next hb => exact h hb
  · exact h'

theorem nested (h : Carries P p Q) : Carries P (nested p) Q :=
  fun _ _ hc => yields_nested.mpr fun _ => h _ _ hc

theorem insideFunction (h : Carries P p Q) : Carries P (insideFunction p) Q :=
  fun _ _ hc => h _ _ hc

theorem fail {fault : Fault} : Carries P (fail fault) Q := fun _ _ _ => yields_fail

theorem failAt {offset : Nat} {fault : Fault} : Carries P (failAt offset fault) Q :=
  fun _ _ _ => yields_failAt

theorem failWith {fault : TokenKind → Fault} : Carries P (failWith fault) Q :=
  fun _ _ _ => yields_failWith

theorem unexpected : Carries P unexpected Q := fun _ _ _ => yields_unexpected

theorem get : Carries P (get : Parser Cursor) fun c d => d = c ∧ P d :=
  fun _ _ hc => yields_get.mpr ⟨rfl,hc⟩

theorem read : Carries P (read : Parser Surroundings) fun _ => P :=
  fun _ _ hc => yields_read.mpr hc

theorem current : Carries P current fun t => Facing t.kind P :=
  fun _ _ hc => yields_current.mpr ⟨rfl,hc⟩

theorem start : Carries P start fun _ => P := fun _ _ hc => yields_start.mpr hc

theorem atPunct {p : Punct} : Carries P (atPunct p) fun _ => P :=
  fun _ _ hc => yields_atPunct.mpr hc

theorem atWord {w : Keyword} : Carries P (atWord w) fun _ => P := fun _ _ hc => yields_atWord.mpr hc

/-- Where a sign is looked for, it is there if it is found. -/
theorem atPunct_ite {sign : Punct} (h : Carries (Facing (.punct sign) P) p Q)
    (h' : Carries P p' Q) :
    Carries P (Grammar.atPunct sign >>= fun b => if b = true then p else p') Q := by
  intro s c hc
  rw [yields_bind,yields_atPunct,yields_ite]
  exact ⟨fun hb => h s c ⟨eq_of_beq hb,hc⟩,fun _ => h' s c hc⟩

end

section
variable {α : Type} {tokens : List Token} {owed owed' : List Punct} {held parts : List Tree}
  {p p' : Parser α} {Q : α → Cursor → Prop}

theorem pure {a : α} {trees : α → List Tree} (h : held ⊆ trees a) :
    Carries (Tally tokens owed held) (Pure.pure a) fun a => Tally tokens owed (trees a) :=
  fun _ _ hc => yields_pure.mpr (hc.mono (.of_subset h))

theorem pure_facing {a : α} {trees : α → List Tree} {k kind : TokenKind} (hk : k = kind)
    (h : held ⊆ trees a) : Carries (Facing k (Tally tokens owed held)) (Pure.pure a) fun a =>
      Facing kind (Tally tokens owed (trees a)) :=
  fun _ _ hc => yields_pure.mpr ⟨hc.1.trans hk,hc.2.mono (.of_subset h)⟩

theorem none : Carries (Tally tokens owed held) (Pure.pure (none : Option Tree)) fun o =>
    Tally tokens owed (o.toList ++ held) :=
  fun _ _ hc => yields_pure.mpr hc

theorem some {P : Cursor → Prop} {p : Parser Tree}
    (h : Carries P p fun t => Tally tokens owed (t :: held)) :
    Carries P (some <$> p) fun o => Tally tokens owed (o.toList ++ held) :=
  fun s c hc => yields_map.mpr (h s c hc)

/-- Finishing a node holds on to what is below it. -/
theorem finish {n : Nat} {shape : Shape Tree} (h : parts ⊆ shape.children ++ held) :
    Carries (Tally tokens owed parts) (finish n shape) fun t => Tally tokens owed (t :: held) := by
  intro s c hc
  rw [yields_finish]
  exact (hc.finished _).mono (.node h)

theorem advance {kind k : TokenKind} (hk : k = kind) (h : Settles kind owed owed') :
    Carries (Facing k (Tally tokens owed held)) advance fun _ => Tally tokens owed' held := by
  intro s c hc
  obtain ⟨hkind,hc⟩ := hc
  rw [yields_advance]
  rw [← hk,← hkind] at h
  exact hc.advance h

theorem expectPunct {sign : Punct} (h : Settles (.punct sign) owed owed') :
    Carries (Tally tokens owed held) (expectPunct sign) fun _ => Tally tokens owed' held :=
  fun _ _ hc => yields_expectPunct.mpr fun hkind => hc.advance (hkind ▸ h)

/-- What stands in brackets. -/
theorem enclosed {first last : Punct} {trees : α → List Tree} (hcloser : first.closer? = .some last)
    (h : Carries (Tally tokens (last :: owed) held) p fun a =>
      Tally tokens (last :: owed) (trees a)) :
    Carries (Tally tokens owed held) (do
      Grammar.expectPunct first
      let a ← p
      Grammar.expectPunct last
      return a) fun a => Tally tokens owed (trees a) := by
  have hlast := Punct.isClosing_of_closer hcloser
  refine (expectPunct (.opening rfl hcloser)).bind fun _ => h.bind fun _ => ?_
  exact (expectPunct (.closing rfl hlast)).bind fun _ => pure (List.Subset.refl _)

theorem expectWord {w : Keyword} :
    Carries (Tally tokens owed held) (expectWord w) fun _ => Tally tokens owed held :=
  fun _ _ hc => yields_expectWord.mpr fun hkind => hc.advance (hkind ▸ .idle rfl)

theorem eatPunct {sign : Punct} (h : (TokenKind.punct sign).isIdle = true) :
    Carries (Tally tokens owed held) (eatPunct sign) fun _ => Tally tokens owed held :=
  fun _ _ hc => yields_eatPunct.mpr ⟨fun hkind => hc.advance (hkind ▸ .idle h),fun _ => hc⟩

theorem eatWord {w : Keyword} :
    Carries (Tally tokens owed held) (eatWord w) fun _ => Tally tokens owed held :=
  fun _ _ hc => yields_eatWord.mpr ⟨fun hkind => hc.advance (hkind ▸ .idle rfl),fun _ => hc⟩

/-- A bracket that may be there is settled if it is. -/
theorem eatPunct_ite {sign : Punct} (hs : Settles (.punct sign) owed owed')
    (h : Carries (Tally tokens owed' held) p Q) (h' : Carries (Tally tokens owed held) p' Q) :
    Carries (Tally tokens owed held)
      (Grammar.eatPunct sign >>= fun b => if b = true then p else p') Q := by
  intro s c hc
  rw [yields_bind,yields_eatPunct]
  exact ⟨fun hkind => h s _ (hc.advance (hkind ▸ hs)),fun _ => h' s c hc⟩

theorem endStatement :
    Carries (Tally tokens owed held) endStatement fun _ => Tally tokens owed held := by
  refine (eatPunct rfl).bind fun _ => .ite (.pure (List.Subset.refl _)) ?_
  exact current.bind fun _ => .facing (.ite (.pure (List.Subset.refl _)) unexpected)

theorem bindingName : Adds tokens owed held bindingName := by
  refine start.bind fun _ => current.bind fun t => ?_
  split
  · next hkind => exact (advance hkind (.idle rfl)).bind fun _ => finish (by simp)
  · exact fail
  · exact fail
  · exact failWith

theorem propertyName : Adds tokens owed held propertyName := by
  refine start.bind fun _ => current.bind fun t => ?_
  split
  · next hkind => exact (advance hkind (.idle rfl)).bind fun _ => finish (by simp)
  · next hkind => exact (advance hkind (.idle rfl)).bind fun _ => finish (by simp)
  · exact failWith

end
end Carries
end Grammar
end ScriptLint
