import ScriptLint.Proofs.Discipline.Basic
import ScriptLint.Proofs.Placement

/-! Where and why a parser gives up: over the token it stands at, at the place of that token or of an
earlier one. -/
namespace ScriptLint

namespace Grammar

/-- A cursor that stands somewhere in some tokens. -/
structure Cursor.Within (tokens : List Token) (c : Cursor) : Prop where
  wellFormed : c.WellFormed
  suffix : c.rest <:+ tokens

/-- A refusal of the token that a parser stands at, placed where one of the tokens begins that is not
behind it. -/
structure Refusal (tokens : List Token) (halt : Halt) : Prop where
  within : halt.place.Within tokens
  blames : halt.error.fault.Blames halt.place.current.kind
  le_start : halt.error.offset ≤ halt.place.current.span.start
  start : ∃ first ∈ tokens, halt.error.offset = first.span.start

namespace Cursor.Within
variable {tokens : List Token} {c : Cursor}

theorem advance (h : c.Within tokens) : c.advance.Within tokens := by
  refine ⟨h.wellFormed.advance,List.IsSuffix.trans ?_ h.suffix⟩
  obtain ⟨current,ahead,stop,n⟩ := c
  cases ahead with
  | nil => exact List.suffix_rfl
  | cons token ahead => exact List.suffix_cons ..

theorem current_mem (h : c.Within tokens) : c.current ∈ tokens := h.suffix.subset (.head _)

/-- Whatever is found with the current token. -/
theorem refusal (h : c.Within tokens) {fault : Fault} (hf : fault.Blames c.current.kind) :
    Refusal tokens ⟨⟨fault,c.current.span.start⟩,c⟩ :=
  ⟨h,hf,Nat.le_refl _,c.current,h.current_mem,rfl⟩

/-- Whatever is found with a tree that was read last. -/
theorem refusal_of_reads {d : Cursor} {passed : List Token} {t : Tree} (h : c.Within tokens)
    (hd : d.Within tokens) (hr : Reads c passed [t] d) {fault : Fault}
    (hf : ∀ kind, fault.Blames kind) : Refusal tokens ⟨⟨fault,t.span.start⟩,d⟩ := by
  have hrest := hr.rest_eq h.wellFormed
  have hrow := hr.row h.wellFormed
  have hproper := (hrow.placed t (.head _)).start_lt_stop
  have hstop := (hrow.inside t (.head _)).2
  have hstart := hd.wellFormed.le_start
  obtain ⟨first,hfirst,hplace⟩ :=
    (hr.bounded_nodes h.wellFormed t (.head _) t (Tree.mem_preorder.mpr (.inl rfl))).1
  refine ⟨hd,hf _,by dsimp only; omega,first,?_,hplace.symm⟩
  apply h.suffix.subset
  rw [hrest]
  exact List.mem_append_left _ hfirst

end Cursor.Within

end Grammar
end ScriptLint
