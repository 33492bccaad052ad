import ScriptLint.Proofs.Execution.Budget

/-! The parser comes to an end and gets on. Wherever it is, the tokens that are ahead limit how
often productions call each other, so that what stands at the bottom is never called. A run stays
among the tokens, leaves the counters as they were, and passes a token for everything it reads. -/
namespace ScriptLint.Grammar
variable {α : Type} {tokens : List Token} {r : Registers}

theorem Productions.unroll_add (bottom : Productions) (m n : Nat) :
    bottom.unroll (m + n) = (bottom.unroll m).unroll n := by
  induction n with
  | zero => rfl
  | succ n ih => exact congrArg Productions.step ih

/-- Parsers that are alike over all bottoms run to one end over all of them, and over productions
that are unrolled more often. -/
lemma exists_runs_of_alike {p : Productions → Parser α} {P : Cursor → Prop} {Q : α → Cursor → Prop}
    {m : Nat} {c : Cursor}
    (h : ∀ bottom bottom' : Productions, Alike P (p (bottom.unroll m)) (p (bottom'.unroll m)) Q)
    (ht : Ended tokens) (hc : r.cursor? tokens = some c) (hP : P c) :
    ∃ answer r', (∀ (n : Nat) (bottom : Productions), m ≤ n →
        Runs tokens (p (bottom.unroll n)) r answer r') ∧
      ∀ a, answer = .ok a → ∃ d, r'.cursor? tokens = some d ∧ Q a d := by
  obtain ⟨answer,r',hrun,-,hanswer⟩ := h .none .none tokens r c ht hc hP
  refine ⟨answer,r',?_,hanswer⟩
  intro n bottom hn
  -- What is unrolled more often has the first unrollings as its bottom.
  obtain ⟨l,rfl⟩ := Nat.exists_eq_add_of_le' hn
  rw [bottom.unroll_add]
  obtain ⟨answer',r'',hrun',hrun'',-⟩ := h .none (bottom.unroll l) tokens r c ht hc hP
  obtain ⟨rfl,rfl⟩ := hrun.unique hrun' ht hc
  exact hrun''

/-- A program runs to the answer that the parser gives, and has at most two nodes for every token
besides its own. -/
theorem exists_program_runs {first : Token} {others : List Token} (h : Ended (first :: others)) :
    (∃ r, ∀ (n : Nat) (bottom : Productions), others.length < n →
      Runs (first :: others) (program (bottom.unroll n)) .initial (parseTokens first others) r) ∧
    ∀ root, parseTokens first others = .ok root → (root.id : Int) ≤ 2 * others.length := by
  have hc : Registers.initial.cursor? (first :: others) = some ⟨first,others,0,0⟩ := rfl
  have hleft : Left others.length (2 * others.length) ⟨first,others,0,0⟩ := ⟨by simp,by simp⟩
  have halike (bottom bottom' : Productions) :=
    alike_program (b := 2 * others.length) (judged_cost bottom bottom' (others.length + 1))
      (Int.lt_succ others.length)
  obtain ⟨answer,r,hruns,hanswer⟩ := exists_runs_of_alike halike h hc hleft
  obtain ⟨d,hd⟩ := (hruns _ .none (Nat.le_refl _)).faithful h hc
  have hparse : parseTokens first others = answer := by
    have hending : program (productions (others.length + 1)) ⟨0,false⟩ ⟨first,others,0,0⟩ =
      ending d answer := productions_eq_unroll _ ▸ hd.eq_ending
    unfold parseTokens
    dsimp only
    rw [hending]
    cases answer <;> rfl
  rw [hparse]
  refine ⟨⟨r,hruns⟩,fun root hroot => ?_⟩
  obtain ⟨-,-,hid⟩ := hanswer root hroot
  exact hid

/-- What reads a construct, given the productions it calls, runs to one end wherever they are
unrolled once for every token ahead, and if it answers it has passed a token. -/
def Advances (tokens : List Token) (p : Productions → Parser α) (r : Registers) : Prop :=
  ∃ answer r',
    (∀ (n : Nat) (bottom : Productions), tokens.length ≤ r.position + n + 1 →
      Runs tokens (p (bottom.unroll n)) r answer r') ∧
    ∀ a, answer = .ok a → r.position < r'.position

theorem advances_of_passes {p : Productions → Parser Tree} {j : Int}
    (h : ∀ {k b : Int} {g g' : Productions}, g.Judged cost k g' →
      cost.Passes k b cost.tree (p g) (p g') 1 j)
    (ht : Ended tokens) (hr : r.position < tokens.length) : Advances tokens p r := by
  obtain ⟨c,hc⟩ := Registers.exists_cursor hr
  have hlength := Registers.length_eq hc
  have halike (bottom bottom' : Productions) :=
    Parallel.alike (h (b := c.finished + 2 * c.ahead.length)
      (judged_cost bottom bottom' c.ahead.length)) rfl
  obtain ⟨answer,r',hruns,hanswer⟩ := exists_runs_of_alike halike ht hc ⟨Int.le_refl _,Int.le_refl _⟩
  refine ⟨answer,r',fun n bottom hn => hruns n bottom (by omega),?_⟩
  intro a ha
  obtain ⟨d,hd,hleft⟩ := hanswer a ha
  have hlength' := Registers.length_eq hd
  have hahead := hleft.ahead_le
  omega

/-- The parser runs to its end on all tokens, and nothing it calls reaches the bottom. From every
token there is, a run of any parser goes on among the tokens to where the parser ends and puts the
counters back, and a run that reads a construct passes a token. -/
theorem parseTokens_runs {first : Token} {others : List Token} (h : Ended (first :: others)) :
    (∀ (n : Nat) (bottom bottom' : Productions), (bottom.unroll n).Alike n (bottom'.unroll n)) ∧
    (∃ r, ∀ (n : Nat) (bottom : Productions), others.length < n →
      Runs (first :: others) (program (bottom.unroll n)) .initial (parseTokens first others) r) ∧
    (∀ (α : Type) (p : Parser α) (r r' : Registers) (answer : Except SyntaxError α) (c : Cursor),
      r.cursor? (first :: others) = some c → Runs (first :: others) p r answer r' →
      ∃ d, r'.cursor? (first :: others) = some d ∧ p r.surroundings c = ending d answer ∧
        r.position ≤ r'.position ∧ r'.position < (first :: others).length ∧
        r'.nesting = r.nesting ∧ r'.functionDepth = r.functionDepth) ∧
    ∀ r : Registers, r.position < (first :: others).length →
      Advances (first :: others) statement r ∧
      (∀ inHead, Advances (first :: others) (assignment · inHead) r) ∧
      Advances (first :: others) unary r ∧ Advances (first :: others) block r ∧
      (∀ kind, Advances (first :: others) (function · kind) r) ∧
      Advances (first :: others) property r := by
  refine ⟨fun n bottom bottom' => (judged_cost bottom bottom' n).alike,(exists_program_runs h).1,?_,?_⟩
  · intro α p r r' answer c hc hrun
    obtain ⟨d,hd⟩ := hrun.faithful h hc
    have hlength := Registers.length_eq hd.there
    exact ⟨d,hd.there,hd.eq_ending,hd.position_le,by omega,hd.nesting_eq,hd.functionDepth_eq⟩
  · intro r hr
    have hle (k : Int) : k ≤ k := Int.le_refl k
    refine ⟨?_,fun inHead => ?_,?_,?_,fun kind => ?_,?_⟩
    · exact advances_of_passes (fun hg => .statement hg retraced_cost (hle _)) h hr
    · exact advances_of_passes (fun hg => .assignment hg (hle _) retraced_cost) h hr
    · exact advances_of_passes (fun hg => .unary hg (hle _)) h hr
    · exact advances_of_passes (fun hg => .block hg (hle _)) h hr
    · exact advances_of_passes (fun hg => .function hg (hle _)) h hr
    · exact advances_of_passes (fun hg => .property hg (hle _)) h hr

/-- A block that is never closed is refused at the end of input. -/
theorem parseTokens_runs_unclosed :
    ∃ r, (∀ (n : Nat) (bottom : Productions), 2 < n →
      Runs [⟨.punct .openBrace,⟨0,1⟩,false⟩,⟨.punct .semicolon,⟨1,2⟩,false⟩,⟨.endOfInput,⟨2,2⟩,false⟩]
        (program (bottom.unroll n)) .initial (.error ⟨.unterminatedBlock,2⟩) r) ∧
      r.position < 3 ∧ r.nesting = 0 ∧ r.functionDepth = 0 := by
  have hended : Ended [⟨.punct .openBrace,⟨0,1⟩,false⟩,⟨.punct .semicolon,⟨1,2⟩,false⟩,
      ⟨.endOfInput,⟨2,2⟩,false⟩] := .cons (by simp) (.cons (by simp) (.last rfl))
  obtain ⟨-,⟨r,hruns⟩,hstays,-⟩ := parseTokens_runs hended
  obtain ⟨d,-,-,-,hlt,hnesting,hdepth⟩ := hstays _ _ _ _ _ _ rfl (hruns 3 .none (Nat.le_refl _))
  exact ⟨r,hruns,hlt,hnesting,hdepth⟩

end ScriptLint.Grammar
