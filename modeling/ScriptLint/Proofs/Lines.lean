import Mathlib
import ScriptLint.Proofs.Messages
import ScriptLint.Proofs.Selection
import ScriptLint.Report

/-! Reports with an offense on each line. Paths, cops and places cannot break a line, and messages
only by the strings and templates they name. -/
namespace ScriptLint

/-- The lines of a text. The last one is what follows the last line feed. -/
def Text.lines (s : String) : List String := (s.toList.splitOn '\n').map .ofList

namespace Text

theorem lines_of_oneLine {s : String} (h : OneLine s) : lines s = [s] := by
  rw [lines,List.splitOn_eq_singleton h,List.map_singleton,String.ofList_toList]

theorem lines_append_lines (s t : String) : lines (s ++ "\n" ++ t) = lines s ++ lines t := by
  have hbreak : (s ++ "\n" ++ t).toList = s.toList ++ '\n' :: t.toList := by simp
  rw [lines,hbreak,List.splitOn_append_cons_self,List.map_append]
  rfl

theorem length_lines_pos (s : String) : 0 < (lines s).length := by
  rw [lines,List.length_map]
  exact List.length_pos_of_ne_nil (List.splitOn_ne_nil _ _)

theorem one_lt_length_lines {s : String} (h : ¬ OneLine s) : 1 < (lines s).length := by
  obtain ⟨before,after,hs⟩ := List.append_of_mem (not_not.mp h)
  have hparts : s = .ofList before ++ "\n" ++ .ofList after :=
    String.toList_injective (by simpa using hs)
  rw [hparts,lines_append_lines,List.length_append]
  have := length_lines_pos (.ofList before)
  have := length_lines_pos (.ofList after)
  omega

section Written
variable {α : Type} (f : α → String)

/-- What is written line after line. -/
theorem lines_join (xs : List α) (rest : String) :
    lines (String.join (xs.map fun x => f x ++ "\n") ++ rest) =
      xs.flatMap (fun x => lines (f x)) ++ lines rest := by
  induction xs with
  | nil => simp
  | cons x xs ih =>
    rw [List.map_cons,String.join_cons,String.append_assoc,lines_append_lines,ih,
      List.flatMap_cons,List.append_assoc]

theorem length_le_length_lines (xs : List α) :
    xs.length ≤ (xs.flatMap fun x => lines (f x)).length := by
  induction xs with
  | nil => simp
  | cons x xs ih =>
    have := length_lines_pos (f x)
    rw [List.flatMap_cons,List.length_append,List.length_cons]
    omega

/-- Each of some texts has a line to itself just when none holds a line feed. -/
theorem flatMap_lines_eq_map {xs : List α} :
    xs.flatMap (fun x => lines (f x)) = xs.map f ↔ ∀ x ∈ xs, OneLine (f x) := by
  induction xs with
  | nil => simp
  | cons x xs ih =>
    rw [List.flatMap_cons,List.map_cons,List.forall_mem_cons,← ih]
    by_cases hx : OneLine (f x)
    · simp [hx,lines_of_oneLine hx]
    · have hone := one_lt_length_lines hx
      have hmore := length_le_length_lines f xs
      refine iff_of_false ?_ fun h => hx h.1
      intro h
      have hlength := congrArg List.length h
      rw [List.length_append,List.length_cons,List.length_map] at hlength
      omega

end Written
end Text

namespace Report
open Text

theorem oneLine_summary (files offenses : Nat) : OneLine (summary files offenses) := by
  have hplural (n : Nat) : '\n' ∉ (if n = 1 then "" else "s").toList := by split <;> simp
  simp [OneLine,summary,counted,hplural]

theorem lines_text (ds : List Diagnostic) (files : Nat) :
    lines (text ds files) =
      ds.flatMap (fun d => lines d.display) ++ ["",summary files ds.length,""] := by
  have htail : "\n" ++ (summary files ds.length ++ "\n") =
      "" ++ "\n" ++ (summary files ds.length ++ "\n" ++ "") := by simp
  have hempty : lines "" = [""] := lines_of_oneLine (by simp [OneLine])
  rw [text,String.append_assoc,String.append_assoc,lines_join,htail,lines_append_lines,
    lines_append_lines,hempty,lines_of_oneLine (oneLine_summary files ds.length)]
  rfl

theorem lines_annotations (ds : List Diagnostic) :
    lines (annotations ds) = ds.flatMap (fun d => lines (annotate d)) ++ [""] := by
  have hlines := lines_join annotate ds ""
  rwa [String.append_empty] at hlines

theorem oneLine_annotate_iff {d : Diagnostic} :
    OneLine (annotate d) ↔ OneLine d.path ∧ OneLine d.copName ∧ OneLine d.message := by
  have hlevel : '\n' ∉ (annotationLevel d.severity).toList := by cases d.severity <;> decide
  unfold annotate
  simp [OneLine,hlevel]

theorem annotate_marked (d : Diagnostic) : ∃ rest, annotate d = "::warning file=" ++ rest ∨
    annotate d = "::error file=" ++ rest := by
  have hmark : "::" ++ annotationLevel d.severity ++ " file=" = "::warning file=" ∨
      "::" ++ annotationLevel d.severity ++ " file=" = "::error file=" := by
    cases d.severity <;> decide
  refine ⟨d.path ++ ",line=" ++ toString d.location.line ++ ",col=" ++
    toString d.location.column ++ "::" ++ d.copName ++ ": " ++ d.message,?_⟩
  unfold annotate
  cases hmark with
  | inl hmark | inr hmark => simp only [← hmark,String.append_assoc,true_or,or_true]

end Report

theorem Diagnostic.oneLine_display {d : Diagnostic} :
    OneLine d.display ↔ OneLine d.path ∧ OneLine d.copName ∧ OneLine d.message := by
  have hletter : d.severity.letter ≠ '\n' := by cases d.severity <;> decide
  simp [OneLine,display,hletter.symm]

/-- A result that is reported on one line for each offense. -/
structure LintResult.Lined (r : LintResult) : Prop where
  text : Text.lines (ReportFormat.text.report r.diagnostics r.fileCount) =
    r.diagnostics.map (·.display) ++ ["",Report.summary r.fileCount r.diagnostics.length,""]
  annotations : Text.lines (ReportFormat.github.report r.diagnostics r.fileCount) =
    r.diagnostics.map Report.annotate ++ [""]
  marked : ∀ d ∈ r.diagnostics, ∃ rest, Report.annotate d = "::warning file=" ++ rest ∨
    Report.annotate d = "::error file=" ++ rest

/-- It takes texts without line feeds, and no more than that. -/
theorem LintResult.lined_iff {r : LintResult} :
    r.Lined ↔ ∀ d ∈ r.diagnostics, OneLine d.path ∧ OneLine d.copName ∧ OneLine d.message := by
  constructor
  · intro h
    have htext := h.text
    rw [ReportFormat.report,Report.lines_text,List.append_cancel_right_eq,
      Text.flatMap_lines_eq_map] at htext
    exact fun d hd => Diagnostic.oneLine_display.mp (htext d hd)
  · intro h
    refine ⟨?_,?_,fun d _ => Report.annotate_marked d⟩
    · rw [ReportFormat.report,Report.lines_text,List.append_cancel_right_eq,
        Text.flatMap_lines_eq_map]
      exact fun d hd => Diagnostic.oneLine_display.mpr (h d hd)
    · rw [ReportFormat.report,Report.lines_annotations,List.append_cancel_right_eq,
        Text.flatMap_lines_eq_map]
      exact fun d hd => Report.oneLine_annotate_iff.mpr (h d hd)

/-- The cops that come with the linter say nothing of what they found but what it is. -/
theorem Registry.check_default {cop : Cop} {ctx : FileContext} {p : Position} {config : CopConfig}
    {d : Diagnostic} (hcop : cop ∈ default.cops) (hd : d ∈ cop.check ctx p config) :
    d.path = ctx.file.path ∧ OneLine d.copName ∧ OneLine d.message := by
  rw [cops_default,List.mem_pair] at hcop
  cases hcop with
  | inl hcop =>
    subst hcop
    cases hd
  | inr hcop =>
    subst hcop
    obtain ⟨found,rfl⟩ := mem_redundancyCheck hd
    have hname : OneLine redundancyName := by decide
    refine ⟨rfl,hname,?_⟩
    change OneLine found.redundancy.message
    cases found.redundancy <;> decide

/-- The offenses that the cops of the linter find in a file are reported on one line each, unless the
file cannot be parsed, that is reported, and the refusal names a string or a template that runs over
several lines. -/
theorem lintSource_lines {config : Config} {registry : Registry} {options : Options}
    {file : SourceFile} {result : LintResult}
    (hcops : ∀ cop ∈ registry.cops, cop ∈ Registry.default.cops) (hpath : OneLine file.path)
    (h : lintSource config registry options file = .ok result) :
    result.Lined ↔ ∀ e, parseSource file.content = .error e → e.Spills file.content →
      result.diagnostics = [] := by
  obtain ⟨plan,hplan,rfl⟩ := lintSource_eq_ok h
  simp only [LintResult.lined_iff,Diagnostic.sort,List.mem_mergeSort]
  cases hparse : parseSource file.content with
  | error e =>
    have hname : OneLine syntaxCop.name := by decide
    cases plan.inspect_error hparse with
    | inl hnone => simp [hnone]
    | inr hone =>
      obtain ⟨severity?,hone⟩ := hone
      have hmessage := parseSource_oneLine hparse
      rw [hone,List.mergeSort_singleton]
      constructor
      · intro hlined e' he hspills
        cases he
        exact absurd hspills (hmessage.mp (hlined _ (.head _)).2.2)
      · intro hnone d hd
        rw [List.mem_singleton.mp hd]
        refine ⟨hpath,hname,hmessage.mpr fun hspills => ?_⟩
        exact List.cons_ne_nil _ _ (hnone e rfl hspills)
  | ok tree =>
    refine iff_of_true ?_ (by simp)
    intro d hd
    obtain ⟨c,hc,p,found,hfound,rfl⟩ := Plan.mem_inspect hparse hd
    have hcop := hcops c.cop (Plan.cop_mem (Config.plan_cops hplan) hc)
    obtain ⟨hfile,hname,hmessage⟩ := Registry.check_default hcop hfound
    refine ⟨?_,hname,hmessage⟩
    change OneLine found.path
    rw [hfile]
    exact hpath

theorem lintSource_lines_astray :
    syntaxCop ∈ Registry.default.cops ∧ OneLine Astray.file.path ∧
      lintSource {} .default { only := Registry.default.names } Astray.file =
        .ok ⟨[Astray.offense],1⟩ ∧
      LintResult.Lined ⟨[Astray.offense],1⟩ := by
  have hpath : OneLine Astray.file.path := by decide
  refine ⟨by simp [Registry.cops_default],hpath,Astray.lintSource_eq,?_⟩
  rw [lintSource_lines (fun _ h => h) hpath Astray.lintSource_eq,Astray.parseSource_eq]
  rintro e he ⟨_,_,_,_,_,_,_,hquoted,_⟩
  cases he
  cases hquoted

/-! A template that is not expected, and whose second line reads like an annotation. -/
namespace Forged

def file : SourceFile := ⟨"test.js","a `\n::error file=b::c`".toUTF8⟩

def offense : Diagnostic :=
  ⟨"test.js",⟨1,3⟩,.fatal,"Lint/Syntax","unexpected ``\n::error file=b::c``"⟩

theorem parseSource_eq : parseSource file.content =
    .error ⟨.unexpected (.template "`\n::error file=b::c`"),2⟩ := by cbv

theorem location_eq : file.location 2 = ⟨1,3⟩ := by cbv

theorem lintSource_eq : lintSource {} .default {} file = .ok ⟨[offense],1⟩ := by
  rw [lintSource_refused (by rfl) parseSource_eq]
  change Except.ok (LintResult.mk
    [⟨"test.js",file.location 2,.fatal,"Lint/Syntax","unexpected ``\n::error file=b::c``"⟩] 1) = _
  rw [location_eq]
  rfl

end Forged

/-- One offense, but two lines: the text of a file begins one of them. -/
theorem lintSource_lines_forged :
    OneLine Forged.file.path ∧ lintSource {} .default {} Forged.file = .ok ⟨[Forged.offense],1⟩ ∧
      Text.lines (ReportFormat.github.report [Forged.offense] 1) =
        ["::error file=test.js,line=1,col=3::Lint/Syntax: unexpected ``","::error file=b::c``",""] ∧
      ¬ LintResult.Lined ⟨[Forged.offense],1⟩ := by
  refine ⟨by decide,Forged.lintSource_eq,by decide +kernel,?_⟩
  rw [LintResult.lined_iff]
  decide

end ScriptLint
