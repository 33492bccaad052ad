import Mathlib
import ScriptLint.Proofs.Parsed
import ScriptLint.Proofs.Rereading.Program
import ScriptLint.Proofs.Spelling

/-! Printing the tree of a file and parsing what is printed leads back to the tree. The only way in
which this can fail is that the parentheses which are added nest too deeply. -/
namespace ScriptLint

namespace Grammar
variable {c d : Cursor} {tokens : List Token} {trees : List Tree}

/-- A leaf is printed as the token that it was read from. -/
theorem Leaf.leafWord_eq {kind k : TokenKind} {shape : Shape Tree} (h : Leaf kind shape)
    (hn : ∀ s, kind = .name s → (Keyword.ofText? s).isNone) (hk : shape.leafWord? = some k) :
    k = kind := by
  have hreserved (w : Keyword) : TokenKind.ofWord w.text = .reserved w := by
    rw [TokenKind.ofWord,w.ofText_text]
  cases h with
  | name s =>
    cases hk
    rw [TokenKind.ofWord,Option.isNone_iff_eq_none.mp (hn s rfl)]
  | word w =>
    cases hk
    exact hreserved w
  | constant w kind _ hword =>
    cases hk
    rcases hword with rfl | rfl <;> exact hreserved w
  | this => cases hk
  | _ =>
    cases hk
    rfl

/-- All that is printed for the leaves of what is read are tokens that were read. -/
theorem Reads.leafWord_mem (h : Reads c tokens trees d) (hc : c.WellFormed)
    (hn : ∀ token ∈ tokens, ∀ s, token.kind = .name s → (Keyword.ofText? s).isNone) :
    ∀ t ∈ trees, ∀ u ∈ t.preorder, ∀ k ∈ u.shape.leafWord?, ∃ token ∈ tokens, token.kind = k := by
  intro t ht u hu
  refine h.forall_nodes (P := fun tokens u =>
    (∀ token ∈ tokens, ∀ s, token.kind = .name s → (Keyword.ofText? s).isNone) →
      ∀ k ∈ u.shape.leafWord?, ∃ token ∈ tokens, token.kind = k) ?_ ?_ ?_ hc t ht u hu hn
  · intro tokens more u ih hsub hn k hk
    obtain ⟨token,htoken,hkind⟩ := ih (fun token htoken => hn token (hsub.subset htoken)) k hk
    exact ⟨token,hsub.subset htoken,hkind⟩
  · intro token i shape hl hn k hk
    exact ⟨token,.head _,(hl.leafWord_eq (hn token (.head _)) hk).symm⟩
  · intro tokens i span shape hs _ _ k hk
    cases shape with
    | identifier | literal => exact hs.elim
    | _ => cases hk

theorem Tokens.ofText_eq_none {n : Nat} (h : Tokens n tokens) :
    ∀ token ∈ tokens, ∀ s, token.kind = .name s → (Keyword.ofText? s).isNone := by
  induction h with
  | last hk =>
    intro token ht s hs
    obtain rfl := List.mem_singleton.mp ht
    cases hk.symm.trans hs
  | cons _ hn _ _ _ ih =>
    intro token ht
    rcases List.mem_cons.mp ht with rfl | ht
    · exact hn
    · exact ih token ht

end Grammar

theorem Shape.leafWord_ne_endOfInput {α : Type} {s : Shape α} (h : s.leafWord? = some .endOfInput) :
    False := by
  cases s with
  | identifier x => exact Token.ofWord_ne_endOfInput x (Option.some.inj h)
  | literal kind raw =>
    cases kind with
    | null | boolean => exact Token.ofWord_ne_endOfInput raw (Option.some.inj h)
    | _ => cases h
  | _ => cases h

/-- The words of a tree that was read are all read as themselves. -/
theorem parseText_words {cs : List Char} {t : SyntaxTree} (h : parseText cs = .ok t) :
    ∀ k ∈ t.root?.elim [] Tree.words, Token.isLexical k := by
  obtain ⟨tokens,body,c,d,hs,_,_,hb,_,rfl⟩ := parseText_built h
  have htokens := (Token.scanFrom_spec hs).1
  have hsub : tokens ⊆ tokens ++ [d.current] := List.subset_append_left ..
  refine Token.composable_isLexical.words fun u hu k hk => ?_
  rcases Tree.mem_preorder.mp hu with rfl | ⟨v,hv,hu⟩
  · cases hk
  · obtain ⟨token,htoken,rfl⟩ := hb.reads.leafWord_mem hb.start
      (fun token htoken => htokens.ofText_eq_none token (hsub htoken)) v hv u hu k hk
    rintro _ hk'
    obtain rfl := List.mem_singleton.mp hk'
    refine (Token.scanFrom_lexical hs token (hsub htoken)).resolve_left fun hend => ?_
    exact Shape.leafWord_ne_endOfInput (hend ▸ hk)

/-- How the parsing of spelled words ends. -/
theorem parseText_of_ends {ws : Words} {E : Grammar.Halt → Prop} {Q : Tree → Prop}
    (hws : ∀ k ∈ ws, Token.isLexical k)
    (h : ∀ {c : Grammar.Cursor}, c.Faces (ws.length + 1) ws → Grammar.Ends E
      (Grammar.program (Grammar.productions (ws.length + 1))) ⟨0,false⟩ c fun u _ => Q u) :
    (∃ u, parseText (spell ws) = .ok ⟨some u⟩ ∧ Q u) ∨
      ∃ halt, parseText (spell ws) = .error halt.error ∧ E halt := by
  obtain ⟨tokens,hscan,hkinds,hline⟩ := Token.scanFrom_spell hws (.inl rfl) 0
  have hscan : Token.scan (spell ws) = .ok tokens := hscan
  cases tokens with
  | nil => simp at hkinds
  | cons first others =>
    have hlength : others.length = ws.length := by simpa using congrArg List.length hkinds
    have hends := h (c := ⟨first,others,0,0⟩) ⟨hkinds,hline,Nat.lt_succ_self _⟩
    rw [← hlength] at hends
    unfold Grammar.Ends at hends
    split at hends
    next u _ hu => exact .inl ⟨u,by simp only [parseText,hscan,Grammar.parseTokens,hu],hends⟩
    next halt he =>
      exact .inr ⟨halt,by simp only [parseText,hscan,Grammar.parseTokens,he],hends⟩

theorem parseSource_toUTF8 (cs : List Char) :
    parseSource (String.ofList cs).toUTF8 = parseText cs := by
  have hdecode : Text.decode (String.ofList cs).toUTF8 = .ok cs := by
    apply Text.decode_of_eq_encode
    rw [← Text.encode_toList,String.toList_ofList]
  rw [parseSource,hdecode]

/-- The tree of a file is parsed again from the text that it is printed as, up to the numbers and
the places of its nodes, unless that text is nested too deeply. -/
theorem parseSource_render {content : ByteArray} {t : SyntaxTree} (h : parseSource content = .ok t) :
    (∃ u, parseSource t.render = .ok u ∧ u.root?.map Tree.outline = t.root?.map Tree.outline) ∨
      ∃ e, parseSource t.render = .error e ∧ e.fault.message = "nesting too deep" := by
  obtain ⟨root,rfl,hparsed⟩ := parseSource_parsed h
  have hwords : ∀ k ∈ root.words, Token.isLexical k := by
    obtain ⟨cs,_,htext⟩ := parseSource_eq_ok h
    exact parseText_words htext
  rw [SyntaxTree.render,parseSource_toUTF8]
  have hends := parseText_of_ends hwords fun hc =>
    Grammar.program_rereads hparsed.grammatical hparsed.program hparsed.closed hc
  rcases hends with ⟨u,hu,houtline⟩ | ⟨halt,he,hdeep⟩
  · exact .inl ⟨⟨some u⟩,hu,congrArg some houtline⟩
  · exact .inr ⟨halt.error,he,by rw [hdeep]; rfl⟩

theorem parseSource_render_sample :
    parseSource Sample.source = .ok ⟨some Sample.program⟩ ∧
      SyntaxTree.render ⟨some Sample.program⟩ =
        "function f ( a ) \x7b let x = ( a ) ; \x7b return ( x ) ; \x7d \x7d".toUTF8 ∧
      ((∃ u, parseSource (SyntaxTree.render ⟨some Sample.program⟩) = .ok u ∧
        u.root?.map Tree.outline = some Sample.program.outline) ∨
        ∃ e, parseSource (SyntaxTree.render ⟨some Sample.program⟩) = .error e ∧
          e.fault.message = "nesting too deep") :=
  ⟨Sample.parseSource_eq,by cbv,parseSource_render Sample.parseSource_eq⟩

end ScriptLint
