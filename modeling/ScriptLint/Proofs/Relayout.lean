import Mathlib
import ScriptLint.Proofs.Layout
import ScriptLint.Proofs.RoundTrip

/-! Of the layout of a text only the line breaks matter. The tokens of a text are written down again
with one character before each of them; the tokens that are then read differ in their places only,
and so does all that is parsed from them. -/
namespace ScriptLint

/-- The character before a token in the plainest layout. -/
def Token.lead (t : Token) : Char := if t.newlineBefore then '\n' else ' '

/-- The tokens in the plainest layout. -/
def relayout (tokens : List Token) : List Char :=
  tokens.flatMap fun t => t.lead :: t.kind.text.toList

namespace Token
variable {m : Nat} {tokens : List Token}

theorem leads_lead (t : Token) : Leads [t.lead] t.newlineBefore := by
  intro cs hs
  unfold lead
  split
  next hline =>
    rw [hline]
    exact gapFrom_of_isSolid (n := 1) hs
  next hline =>
    rw [Bool.eq_false_iff.mpr hline]
    exact gapFrom_of_isSolid (n := 1) hs

theorem spaced_relayout (tokens : List Token) : Spaced (relayout tokens) := by
  cases tokens with
  | nil => exact spaced_nil
  | cons t tokens =>
    intro c hc
    obtain rfl : t.lead = c := by simpa [relayout] using hc
    unfold lead
    split
    · exact .inr rfl
    · exact .inl rfl

/-- Tokens in the plainest layout are read as themselves, but for their places. -/
theorem scanFrom_relayout (h : Grammar.Tokens m tokens)
    (hl : ∀ t ∈ tokens, t.kind = .endOfInput ∨ isLexical t.kind) (n : Nat) :
    ∃ others, scanFrom n (relayout tokens) = .ok others ∧
      others.map Token.unplaced = tokens.map Token.unplaced := by
  induction h generalizing n with
  | @last _ t hk =>
    have htext : relayout [t] = [t.lead] := by simp [relayout,hk,TokenKind.text]
    rw [htext]
    refine ⟨_,scanFrom_end t.leads_lead n,?_⟩
    simp [unplaced,hk]
  | @cons _ t tokens hk _ _ _ _ ih =>
    obtain ⟨hlexical,hmore⟩ := List.forall_mem_cons.mp hl
    obtain ⟨others,hscan,hothers⟩ := ih hmore _
    have htext : relayout (t :: tokens) = [t.lead] ++ (t.kind.text.toList ++ relayout tokens) := by
      simp [relayout]
    rw [htext]
    refine ⟨_,scanFrom_append t.leads_lead (hlexical.resolve_left hk) (spaced_relayout _) hscan,?_⟩
    rw [List.map_cons,List.map_cons,hothers]
    rfl

end Token

/-- Texts with the same tokens, but for their places, are parsed alike. -/
theorem parseText_unplaced {cs ds : List Char} {tokens others : List Token}
    (hcs : Token.scan cs = .ok tokens) (hds : Token.scan ds = .ok others)
    (h : others.map Token.unplaced = tokens.map Token.unplaced) :
    (∃ t u, parseText cs = .ok t ∧ parseText ds = .ok u ∧
      u.root?.map Tree.unplaced = t.root?.map Tree.unplaced) ∨
      ∃ e f, parseText cs = .error e ∧ parseText ds = .error f ∧ f.fault = e.fault := by
  cases tokens with
  | nil => cases (Token.scanFrom_spec hcs).1
  | cons first tokens =>
  cases others with
  | nil => cases (Token.scanFrom_spec hds).1
  | cons first' others =>
  obtain ⟨hfirst,hothers⟩ := List.cons.inj h
  have hends := Grammar.parseTokens_unplaced (Token.scanFrom_spec hds).1.ended
  rw [hfirst,hothers,Grammar.parseTokens_unplaced (Token.scanFrom_spec hcs).1.ended] at hends
  simp only [parseText,hcs,hds]
  cases ht : Grammar.parseTokens first tokens with
  | ok t =>
    cases hu : Grammar.parseTokens first' others with
    | ok u =>
      rw [ht,hu] at hends
      exact .inl ⟨_,_,rfl,rfl,congrArg some (Except.ok.inj hends).symm⟩
    | error f =>
      rw [ht,hu] at hends
      cases hends
  | error e =>
    cases hu : Grammar.parseTokens first' others with
    | ok u =>
      rw [ht,hu] at hends
      cases hends
    | error f =>
      rw [ht,hu] at hends
      exact .inr ⟨_,_,rfl,rfl,(congrArg SyntaxError.fault (Except.error.inj hends)).symm⟩

/-- The layout of a text is irrelevant beyond its line breaks. -/
theorem parseSource_relayout {text : String} {tokens : List Token}
    (h : Token.scan text.toList = .ok tokens) :
    (∃ others, Token.scan (relayout tokens) = .ok others ∧
      others.map (fun t => (t.kind,t.kind.text,t.newlineBefore)) =
        tokens.map fun t => (t.kind,t.kind.text,t.newlineBefore)) ∧
    ((∃ t u, parseSource text.toUTF8 = .ok t ∧
        parseSource (String.ofList (relayout tokens)).toUTF8 = .ok u ∧
        u.root?.map Tree.unplaced = t.root?.map Tree.unplaced) ∨
      ∃ e f, parseSource text.toUTF8 = .error e ∧
        parseSource (String.ofList (relayout tokens)).toUTF8 = .error f ∧
        f.fault.message = e.fault.message) := by
  obtain ⟨others,hscan,hothers⟩ := Token.scanFrom_relayout (Token.scanFrom_spec h).1
    (Token.scanFrom_lexical h) 0
  have htext : parseSource text.toUTF8 = parseText text.toList := by
    rw [← parseSource_toUTF8,String.ofList_toList]
  rw [htext,parseSource_toUTF8]
  refine ⟨⟨others,hscan,?_⟩,?_⟩
  · have hview := congrArg (List.map fun t => (t.kind,t.kind.text,t.newlineBefore)) hothers
    rwa [List.map_map,List.map_map] at hview
  · refine (parseText_unplaced h hscan hothers).imp_right ?_
    rintro ⟨e,f,he,hf,hfault⟩
    exact ⟨e,f,he,hf,congrArg Fault.message hfault⟩

/-! Two statements, of which the first one ends because a line does. -/
namespace Broken

def text : String := "a//b\n++/*c*/b"

def tokens : List Token :=
  [⟨.name "a",⟨0,1⟩,false⟩,⟨.punct .increment,⟨5,7⟩,true⟩,⟨.name "b",⟨12,13⟩,false⟩,
    ⟨.endOfInput,⟨13,13⟩,false⟩]

theorem scan_eq : Token.scan text.toList = .ok tokens := by cbv

end Broken

theorem parseSource_relayout_sample :
    Token.scan Broken.text.toList = .ok Broken.tokens ∧
      relayout Broken.tokens = " a\n++ b ".toList ∧
      ((∃ t u, parseSource Broken.text.toUTF8 = .ok t ∧
        parseSource (String.ofList (relayout Broken.tokens)).toUTF8 = .ok u ∧
        u.root?.map Tree.unplaced = t.root?.map Tree.unplaced) ∨
      ∃ e f, parseSource Broken.text.toUTF8 = .error e ∧
        parseSource (String.ofList (relayout Broken.tokens)).toUTF8 = .error f ∧
        f.fault.message = e.fault.message) :=
  ⟨Broken.scan_eq,by decide,(parseSource_relayout Broken.scan_eq).2⟩

end ScriptLint
