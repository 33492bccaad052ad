import Mathlib
import ScriptLint.Proofs.Parsed
import ScriptLint.Proofs.Refusal.Halting
import ScriptLint.Proofs.Spelling

/-! Messages that stay on one line. Whatever is said of a source text is, but for one case: a message
that names the token it stumbled over repeats it as it stands, and strings and templates may run over
several lines. -/
namespace ScriptLint

/-- A text without a line feed. -/
def OneLine (s : String) : Prop := '\n' ∉ s.toList

instance (s : String) : Decidable (OneLine s) := inferInstanceAs (Decidable (_ ∉ _))

@[simp] theorem oneLine_append {s t : String} : OneLine (s ++ t) ↔ OneLine s ∧ OneLine t := by
  simp [OneLine]

@[simp] theorem newline_notMem_toDigits (n : Nat) : '\n' ∉ Nat.toDigits 10 n := by
  intro hmem
  have hdigit := Nat.isDigit_of_mem_toDigits (by decide) (by decide) hmem
  contradiction

@[simp] theorem Punct.oneLine_text (p : Punct) : OneLine p.text := by
  cases p <;> decide

@[simp] theorem Keyword.oneLine_text (w : Keyword) : OneLine w.text := by
  cases w <;> decide

theorem TokenKind.oneLine_describe {kind : TokenKind} :
    OneLine kind.describe ↔ OneLine kind.text := by
  have hmark : OneLine "`" := by decide
  cases kind with
  | endOfInput => decide
  | _ => simp only [describe,oneLine_append,hmark,and_true,true_and]

namespace Fault

/-- The token that a message names. -/
def quoted? : Fault → Option TokenKind
  | .unexpected found | .expected _ found | .expectedIdentifier found
  | .expectedPropertyName found => some found
  | _ => none

/-- The texts that a message repeats. -/
def repeated : Fault → List String
  | .unexpectedCharacter c => [c.toString]
  | .unexpected found | .expectedIdentifier found | .expectedPropertyName found => [found.text]
  | .expected text found => [text,found.text]
  | .unsupportedDeclaration word | .unsupportedExpression word => [word.text]
  | _ => []

/-- A message is on one line just when what it repeats is. -/
theorem oneLine_message {fault : Fault} :
    OneLine fault.message ↔ ∀ s ∈ fault.repeated, OneLine s := by
  have hnamed (kind : TokenKind) : '\n' ∉ kind.describe.toList ↔ '\n' ∉ kind.text.toList :=
    TokenKind.oneLine_describe
  cases fault <;> unfold message <;> simp [OneLine,repeated,hnamed]

theorem oneLine_of_quoted {fault : Fault} {kind : TokenKind} (hq : fault.quoted? = some kind)
    (hm : OneLine fault.message) : OneLine kind.text := by
  refine oneLine_message.mp hm _ ?_
  cases fault with
  | unexpected | expectedIdentifier | expectedPropertyName | expected =>
    cases hq
    simp [repeated]
  | _ => cases hq

/-- Beside words of the grammar, a message over a token repeats at most the token. -/
theorem Blames.repeated {fault : Fault} {kind : TokenKind} {s : String} (h : fault.Blames kind)
    (hs : s ∈ fault.repeated) : OneLine s ∨ fault.quoted? = some kind ∧ s = kind.text := by
  cases fault with
  | unexpected found | expectedIdentifier found | expectedPropertyName found =>
    obtain rfl : found = kind := h
    exact .inr ⟨rfl,List.mem_singleton.mp hs⟩
  | expected text found =>
    obtain ⟨rfl,htext⟩ := h
    cases List.mem_pair.mp hs with
    | inl hs =>
      left
      rcases htext with ⟨p,rfl⟩ | ⟨w,rfl⟩ <;> simp [hs]
    | inr hs => exact .inr ⟨rfl,hs⟩
  | unsupportedDeclaration w | unsupportedExpression w =>
    rw [List.mem_singleton.mp hs]
    exact .inl w.oneLine_text
  | unexpectedCharacter => exact h.elim
  | _ => cases hs

/-- A message over a token is on one line, unless it names the token and the token is not. -/
theorem Blames.quoted {fault : Fault} {kind : TokenKind} (h : fault.Blames kind)
    (hm : ¬ OneLine fault.message) : fault.quoted? = some kind ∧ ¬ OneLine kind.text := by
  by_contra hkind
  refine hm (oneLine_message.mpr ?_)
  intro s hs
  cases h.repeated hs with
  | inl hline => exact hline
  | inr htoken =>
    obtain ⟨hquoted,rfl⟩ := htoken
    exact not_not.mp fun hline => hkind ⟨hquoted,hline⟩

end Fault

namespace Token
open Text

theorem notMem_take_numberLength {hex dotted : Bool} {last : Char} {cs : List Char} :
    '\n' ∉ cs.take (numberLength hex dotted last cs) := by
  fun_induction numberLength hex dotted last cs with
  | case1 | case2 | case5 => simp
  | case3 _ _ c cs hdot _ ih =>
    rw [List.take_succ_cons,List.mem_cons,not_or]
    exact ⟨by rintro rfl; contradiction,ih⟩
  | case4 _ _ c cs _ hpart ih =>
    rw [List.take_succ_cons,List.mem_cons,not_or]
    exact ⟨by rintro rfl; simp at hpart,ih⟩

/-- Only strings and templates run over several lines. -/
theorem lexeme_oneLine {c : Char} {cs : List Char} {kind : TokenKind} {n : Nat}
    (h : lexeme c cs = .ok (kind,n)) (hk : ¬ OneLine kind.text) :
    ∃ raw, (kind = .string raw ∨ kind = .template raw) ∧ ¬ OneLine raw := by
  have htext := (lexeme_spec h).1
  have hspelled (hc : c ≠ '\n') : '\n' ∈ cs.take n := by
    rw [OneLine,not_not,htext] at hk
    exact (List.mem_cons.mp hk).resolve_left hc.symm
  unfold lexeme at h
  split at h
  · cases h
  split at h
  next hword =>
    cases h
    have hmem := hspelled (by rintro rfl; contradiction)
    have htake : cs.take (cs.takeWhile isWordPart).length = cs.takeWhile isWordPart :=
      (List.prefix_iff_eq_take.mp (List.takeWhile_prefix _)).symm
    rw [htake] at hmem
    have hpart : isWordPart '\n' := List.mem_takeWhile_imp hmem
    contradiction
  split at h
  next hnumber =>
    cases h
    exact absurd (hspelled (by rintro rfl; contradiction)) notMem_take_numberLength
  split at h
  · split at h <;> cases h
    exact ⟨_,.inl rfl,hk⟩
  split at h
  · split at h <;> cases h
    exact ⟨_,.inr rfl,hk⟩
  split at h
  next p hp =>
    cases h
    exact absurd p.oneLine_text hk
  next => cases h

/-- Nor do others among the tokens of a text. -/
theorem scanFrom_lines {n : Nat} {cs : List Char} {tokens : List Token} {t : Token}
    (h : scanFrom n cs = .ok tokens) (ht : t ∈ tokens) (hk : ¬ OneLine t.kind.text) :
    ∃ raw, (t.kind = .string raw ∨ t.kind = .template raw) ∧ ¬ OneLine raw := by
  cases scanFrom_lexical h t ht with
  | inl hend =>
    rw [hend] at hk
    exact absurd (by decide) hk
  | inr hlexical =>
    obtain ⟨c,cs,-,-,hlexeme⟩ := isLexical_iff.mp hlexical
    exact lexeme_oneLine hlexeme hk

/-- What cannot be read is refused on one line. -/
theorem lexeme_error_oneLine {c : Char} {cs : List Char} {fault : Fault} (hc : c ≠ '\n')
    (h : lexeme c cs = .error fault) : OneLine fault.message := by
  have hfixed {fault : Fault} (hf : fault.repeated = []) : OneLine fault.message :=
    Fault.oneLine_message.mpr (by simp [hf])
  unfold lexeme at h
  split at h
  · cases h
    exact hfixed rfl
  split at h
  · cases h
  split at h
  · cases h
  split at h
  · split at h <;> cases h
    exact hfixed rfl
  split at h
  · split at h <;> cases h
    exact hfixed rfl
  split at h <;> cases h
  rw [Fault.oneLine_message]
  simpa [Fault.repeated,OneLine] using hc.symm

theorem scanFrom_error_oneLine {n : Nat} {cs : List Char} {e : SyntaxError}
    (h : scanFrom n cs = .error e) : OneLine e.fault.message := by
  fun_induction scanFrom n cs generalizing e with
  | case1 =>
    cases h
    exact Fault.oneLine_message.mpr (by simp [Fault.repeated])
  | case2 | case5 => cases h
  | case3 n cs g hg start c rest hd fault =>
    rename_i hl
    cases h
    refine lexeme_error_oneLine ?_ hl
    rintro rfl
    have hsolid := isSolid_drop_gap hg
    rw [hd] at hsolid
    contradiction
  | case4 =>
    rename_i hs ih
    cases h
    exact ih hs

end Token

/-- The refusal of a text names one of its strings or templates, and that runs over several lines. -/
def SyntaxError.Spills (content : ByteArray) (e : SyntaxError) : Prop :=
  ∃ cs tokens token raw, Text.decode content = .ok cs ∧ Token.scan cs = .ok tokens ∧
    token ∈ tokens ∧ e.fault.quoted? = some token.kind ∧
    (token.kind = .string raw ∨ token.kind = .template raw) ∧ ¬ OneLine raw

/-- Nothing else takes a refusal over the end of a line. -/
theorem parseSource_oneLine {content : ByteArray} {e : SyntaxError}
    (h : parseSource content = .error e) : OneLine e.fault.message ↔ ¬ e.Spills content := by
  constructor
  · rintro hm ⟨cs,tokens,token,raw,-,-,-,hq,hraw,hlines⟩
    refine hlines ?_
    have htext := Fault.oneLine_of_quoted hq hm
    cases hraw with
    | inl hraw | inr hraw => rwa [hraw] at htext
  intro hspills
  by_contra hm
  refine hspills ?_
  rcases parseSource_eq_error h with ⟨he,-⟩ | ⟨cs,hcs,hs | ⟨first,others,hs,hp⟩⟩
  · exact absurd (Fault.oneLine_message.mpr (by simp [he,Fault.repeated])) hm
  · exact absurd (Token.scanFrom_error_oneLine hs) hm
  · obtain ⟨halt,-,rfl,hr⟩ := Grammar.parseTokens_refusal (Token.scanFrom_spec hs).1 hp
    obtain ⟨hquoted,htext⟩ := hr.blames.quoted hm
    obtain ⟨raw,hraw,hlines⟩ := Token.scanFrom_lines hs hr.within.current_mem htext
    exact ⟨cs,_,halt.place.current,raw,hcs,hs,hr.within.current_mem,hquoted,hraw,hlines⟩

end ScriptLint
