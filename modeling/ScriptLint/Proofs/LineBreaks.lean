import Mathlib
import ScriptLint.Proofs.Partition

/-! Which gaps end a line. A token remembers whether the gap before it does, and a statement may end
there. Between comments each of the four line breaks counts, in a delimited comment only the line
feed. -/
namespace ScriptLint
open Text

namespace Token

/-- What ends a line: a line break that stands alone, or a delimited comment with a line feed. -/
inductive Break : List Char → Prop
  | alone {c : Char} (h : isLineBreak c) : Break [c]
  | comment {body : List Char} (inside : ¬ ['*','/'] <:+: body) (held : '\n' ∈ body) :
      Break ('/' :: '*' :: (body ++ ['*','/']))

/-- Blanks and comments, with `rest` after them, among which something ends a line. -/
def EndsLine (rest skipped : List Char) : Prop :=
  ∃ before broken after, skipped = before ++ (broken ++ after) ∧
    Trivia (broken ++ (after ++ rest)) before ∧ Break broken ∧ Trivia rest after

section Reading
variable {c : Char} {body cs rest skipped : List Char} {n : Nat} {newline : Bool}

theorem gapFrom_blank (h : isBlank c ∨ c = '\ufeff') :
    gapFrom .between n newline (c :: cs) = gapFrom .between (n + 1) (newline || isLineBreak c) cs := by
  have hslash : c ≠ '/' := by
    rintro rfl
    revert h
    decide
  have hspacing : isSpacing c := by simpa [isSpacing] using h
  rw [gapFrom.eq_3 _ _ _ _ (fun _ hc => absurd hc hslash) (fun _ hc => absurd hc hslash)]
  by_cases hc : isLineBreak c
  · simp [hc]
  · simp [hc,hspacing]

/-- A comment that takes the rest of its line ends before the line does. -/
theorem gapFrom_line (inside : ∀ c ∈ body, c ≠ '\n' ∧ c ≠ '\r')
    (stop : ∀ c ∈ rest.head?, c = '\n' ∨ c = '\r') :
    gapFrom .lineComment n newline (body ++ rest) =
      gapFrom .between (n + body.length) newline rest := by
  induction body generalizing n with
  | nil =>
    cases rest with
    | nil => rfl
    | cons c rest => rcases stop c rfl with rfl | rfl <;> simp [gapFrom,isLineBreak]
  | cons c body ih =>
    obtain ⟨hc,hmore⟩ := List.forall_mem_cons.mp inside
    rw [List.cons_append,gapFrom,if_neg (by simpa using hc),ih hmore,List.length_cons]
    congr 1
    omega

/-- In a delimited comment everything is passed up to its end. -/
theorem gapFrom_block (inside : ¬ ['*','/'] <:+: body) (opened : Nat) (held : Bool) :
    gapFrom (.blockComment opened held) n newline (body ++ '*' :: '/' :: rest) =
      gapFrom .between (n + body.length + 2) (newline || (held || body.contains '\n')) rest := by
  induction body generalizing n held with
  | nil => simp [gapFrom]
  | cons c body ih =>
    have hmore : ¬ ['*','/'] <:+: body := fun hends => inside (List.infix_cons hends)
    -- The comment would have ended inside.
    have hopen : ∀ cs, c = '*' → body ++ '*' :: '/' :: rest = '/' :: cs → False := by
      intro cs hc heq
      subst hc
      cases body with
      | nil => cases heq
      | cons d body =>
        obtain rfl := (List.cons.inj heq).1
        exact inside ⟨[],body,rfl⟩
    rw [List.cons_append,gapFrom.eq_6 _ _ _ _ _ _ hopen,ih hmore,List.contains_cons,
      Bool.beq_comm (a := c),Bool.or_assoc,List.length_cons]
    congr 1
    omega

/-- Blanks and comments are passed as a whole. A line ends in them only if something among them ends
it, and does so if they hold a line feed. -/
theorem gapFrom_trivia (h : Trivia rest skipped) :
    ∃ b : Bool, (b = true → EndsLine rest skipped) ∧ ('\n' ∈ skipped → b = true) ∧ ∀ n newline,
      gapFrom .between n newline (skipped ++ rest) =
        gapFrom .between (n + skipped.length) (newline || b) rest := by
  induction h with
  | nil => exact ⟨false,by simp,by simp,by simp⟩
  | @blank c cs hc hmore ih =>
    obtain ⟨b,hb,hfeed,hread⟩ := ih
    refine ⟨isLineBreak c || b,?_,?_,?_⟩
    · intro hor
      by_cases hbreak : isLineBreak c
      · exact ⟨[],[c],cs,rfl,.nil,.alone hbreak,hmore⟩
      · obtain ⟨before,broken,after,rfl,hbefore,hrest⟩ := hb (by simpa [hbreak] using hor)
        exact ⟨c :: before,broken,after,rfl,.blank hc hbefore,hrest⟩
    · intro hmem
      rcases List.mem_cons.mp hmem with rfl | hmem
      · rfl
      · rw [hfeed hmem,Bool.or_true]
    · intro n newline
      rw [List.cons_append,gapFrom_blank hc,hread,List.length_cons,Bool.or_assoc]
      congr 1
      omega
  | @line body cs hinside hstop hmore ih =>
    obtain ⟨b,hb,hfeed,hread⟩ := ih
    refine ⟨b,?_,?_,?_⟩
    · intro hbreak
      obtain ⟨before,broken,after,rfl,hbefore,hrest⟩ := hb hbreak
      refine ⟨'/' :: '/' :: (body ++ before),broken,after,by simp,?_,hrest⟩
      exact .line hinside (by simpa using hstop) hbefore
    · intro hmem
      have hbody : '\n' ∉ body := fun hmem => (hinside _ hmem).1 rfl
      exact hfeed (by simpa [hbody] using hmem)
    · intro n newline
      rw [List.cons_append,List.cons_append,List.append_assoc,gapFrom,gapFrom_line hinside hstop,hread]
      simp only [List.length_cons,List.length_append]
      congr 1
      omega
  | @block body cs hinside hmore ih =>
    obtain ⟨b,hb,hfeed,hread⟩ := ih
    refine ⟨body.contains '\n' || b,?_,?_,?_⟩
    · intro hor
      by_cases hheld : '\n' ∈ body
      · exact ⟨[],'/' :: '*' :: (body ++ ['*','/']),cs,by simp,.nil,.comment hinside hheld,hmore⟩
      · obtain ⟨before,broken,after,rfl,hbefore,hrest⟩ := hb (by simpa [hheld] using hor)
        exact ⟨'/' :: '*' :: (body ++ '*' :: '/' :: before),broken,after,by simp,
          .block hinside hbefore,hrest⟩
    · intro hmem
      by_cases hheld : '\n' ∈ body
      · simp [hheld]
      · rw [hfeed (by simpa [hheld] using hmem),Bool.or_true]
    · intro n newline
      rw [List.cons_append,List.cons_append,List.append_assoc,List.cons_append,List.cons_append,
        gapFrom,gapFrom_block hinside,hread,Bool.false_or,Bool.or_assoc]
      simp only [List.length_cons,List.length_append]
      congr 1
      omega

theorem gapFrom_break {broken : List Char} (h : Break broken) :
    gapFrom .between n newline (broken ++ rest) = gapFrom .between (n + broken.length) true rest := by
  cases h with
  | alone hc =>
    rw [List.cons_append,gapFrom_blank (.inl (isBlank_of_isLineBreak hc)),hc,Bool.or_true]
    rfl
  | @comment body hinside hheld =>
    have hcontains : body.contains '\n' := by simpa using hheld
    rw [List.cons_append,List.cons_append,List.append_assoc,gapFrom]
    change gapFrom _ _ _ (body ++ '*' :: '/' :: rest) = _
    rw [gapFrom_block hinside,hcontains,Bool.or_true,Bool.or_true]
    simp only [List.length_cons,List.length_append]
    congr 1
    simp only [List.length_nil]
    omega

end Reading

/-- Nothing else than a line break ends a line. -/
theorem EndsLine.exists_isLineBreak {rest skipped : List Char} (h : EndsLine rest skipped) :
    ∃ c ∈ skipped, isLineBreak c := by
  obtain ⟨before,broken,after,rfl,_,hbroken,_⟩ := h
  cases hbroken with
  | @alone c hc => exact ⟨c,by simp,hc⟩
  | comment _ hheld => exact ⟨'\n',by simp [hheld],rfl⟩

section Taken
variable {skipped rest : List Char} {newline : Bool}
  (h : gap (skipped ++ rest) = .ok ⟨skipped.length,newline⟩)
include h

theorem gap_isSolid : isSolid rest := by
  have hsolid := isSolid_drop_gap h
  rwa [List.drop_left] at hsolid

/-- What a gap says of itself is right. -/
theorem gap_endsLine : newline = true ↔ EndsLine rest skipped := by
  have hsolid := gap_isSolid h
  constructor
  · intro hnewline
    obtain ⟨b,hb,_,hread⟩ := gapFrom_trivia (gap_trivia h)
    rw [gap,hread,gapFrom_of_isSolid hsolid,hnewline] at h
    exact hb (by simpa using h)
  · intro hends
    obtain ⟨before,broken,after,rfl,hbefore,hbroken,hafter⟩ := hends
    obtain ⟨_,_,_,hread⟩ := gapFrom_trivia hbefore
    obtain ⟨_,_,_,hread'⟩ := gapFrom_trivia hafter
    rw [gap,List.append_assoc,List.append_assoc,hread,gapFrom_break hbroken,hread',
      gapFrom_of_isSolid hsolid] at h
    simpa using (congrArg Gap.newline (Except.ok.inj h)).symm

theorem gap_lineFeed (hmem : '\n' ∈ skipped) : newline = true := by
  have hsolid := gap_isSolid h
  obtain ⟨b,_,hfeed,hread⟩ := gapFrom_trivia (gap_trivia h)
  rw [gap,hread,gapFrom_of_isSolid hsolid,hfeed hmem] at h
  simpa using h.symm

end Taken
end Token

/-- A token knows whether the gap before it ends a line: whether a line break stands there outside of
the comments, or a delimited comment with a line feed. So a gap with a line feed always ends a line,
and one without any line break never does. -/
theorem scan_newline {cs : List Char} {tokens front back : List Token} {t : Token}
    (h : Token.scan cs = .ok tokens) (ht : tokens = front ++ t :: back) :
    ∃ before gap after : List Char, cs = before ++ gap ++ t.kind.text.toList ++ after ∧
      front.getLast?.elim 0 (·.span.stop) = width before ∧
      t.span.start = width (before ++ gap) ∧
      (t.newlineBefore ↔ Token.EndsLine (t.kind.text.toList ++ after) gap) ∧
      (t.newlineBefore → ∃ c ∈ gap, isLineBreak c) ∧ ('\n' ∈ gap → t.newlineBefore) := by
  obtain ⟨before,gap,after,hcs,hprevious,hspan,htaken,_⟩ := (Token.scanFrom_divided h).parts ht
  have hends := Token.gap_endsLine htaken
  refine ⟨before,gap,after,hcs,by simpa using hprevious,by simp [hspan],hends,?_,?_⟩
  · exact fun hnewline => (hends.mp hnewline).exists_isLineBreak
  · exact Token.gap_lineFeed htaken

theorem scan_newline_sample :
    Token.scan Touching.text = .ok (Touching.name :: Touching.question :: Touching.others) ∧
      ∃ before gap after : List Char, Touching.text = before ++ gap ++ ['?'] ++ after ∧
        1 = width before ∧ 5 = width (before ++ gap) ∧ Token.EndsLine (['?'] ++ after) gap := by
  have ht : Touching.name :: Touching.question :: Touching.others =
      [Touching.name] ++ Touching.question :: Touching.others := rfl
  obtain ⟨before,gap,after,hcs,hprevious,hstart,hends,_⟩ := scan_newline Touching.scan_eq ht
  exact ⟨Touching.scan_eq,before,gap,after,hcs,hprevious,hstart,hends.mp rfl⟩

/-- A carriage return in a delimited comment goes unnoticed, though it ends a line elsewhere. -/
theorem scan_newline_unnoticed :
    ∃ a b last : Token, Token.scan "a/*\r*/b".toList = .ok [a,b,last] ∧
      "a/*\r*/b".toList = a.kind.text.toList ++ "/*\r*/".toList ++ b.kind.text.toList ∧
      a.span.stop = width a.kind.text.toList ∧
      b.span.start = width (a.kind.text.toList ++ "/*\r*/".toList) ∧
      (∃ c ∈ "/*\r*/".toList, isLineBreak c) ∧ b.newlineBefore = false :=
  ⟨⟨.name "a",⟨0,1⟩,false⟩,⟨.name "b",⟨6,7⟩,false⟩,⟨.endOfInput,⟨7,7⟩,false⟩,by cbv,by decide,
    by decide,by decide,⟨'\r',by decide,by decide⟩,rfl⟩

end ScriptLint
