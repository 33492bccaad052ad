import Mathlib
import ScriptLint.Proofs.JsonText

/-! The JSON report loses nothing. What is printed is a text of JSON for the value that is printed,
so a reader that looks up the parts of the report by their keys finds all that was reported. -/
namespace ScriptLint.Report.Json

/-- The digits of a control character are those of its number. -/
lemma hexNumber_digits : ∀ n < 32,
    hexNumber? ['0','0',hexDigit (n / 16),hexDigit (n % 16)] = some n := by decide

/-- A character is escaped where it must be, and otherwise stands for itself. -/
theorem spells_escapeChar (c : Char) : Spells c (escapeChar c) := by
  have hshort {x letter : Char} (hx : (c == x) = true) (known : (x,letter) ∈ escapes) :
      Spells c ['\\',letter] := by
    rw [beq_iff_eq.mp hx]
    exact .short known
  unfold escapeChar
  split_ifs with hquote hescape hb hf hn hr ht hcontrol
  · exact hshort hquote (by decide)
  · exact hshort hescape (by decide)
  · exact hshort hb (by decide)
  · exact hshort hf (by decide)
  · exact hshort hn (by decide)
  · exact hshort hr (by decide)
  · exact hshort ht (by decide)
  · exact .unit ⟨rfl,hexNumber_digits c.toNat hcontrol⟩
  · exact .plain (Nat.not_lt.mp hcontrol) (by simpa using hquote) (by simpa using hescape)

lemma spelled_flatMap (cs : List Char) : Spelled cs (cs.flatMap escapeChar) := by
  induction cs with
  | nil => exact .nil
  | cons c cs ih => exact .cons (spells_escapeChar c) ih

theorem quoted_quoted (s : String) : Quoted s (quoted s).toList :=
  ⟨_,spelled_flatMap s.toList,by simp [quoted]⟩

/-- A number is not printed with zeros before it. -/
lemma toDigits_lead (n : Nat) :
    (Nat.toDigits 10 n).head? = some '0' → Nat.toDigits 10 n = ['0'] := by
  induction n using Nat.strong_induction_on with
  | _ n ih =>
    by_cases hn : n < 10
    · rw [Nat.toDigits_of_lt_base hn]
      intro h
      simpa using h
    · have hle : 10 ≤ n := Nat.not_lt.mp hn
      rw [Nat.toDigits_of_base_le (by decide) hle]
      intro hhead
      have hzero : (Nat.toDigits 10 (n / 10)).head? = some '0' := by
        obtain ⟨c,cs,hcs⟩ := List.exists_cons_of_ne_nil (Nat.toDigits_ne_nil (b := 10) (n := n / 10))
        rw [hcs] at hhead ⊢
        exact hhead
      have hdigits := ih (n / 10) (by omega) hzero
      have hquotient : n / 10 = 0 := by
        rw [← Nat.ofDigitChars_ten_toDigits (n := n / 10),hdigits]
        rfl
      omega

theorem denotes_number (n : Nat) : Denotes (.number n) (toString n).toList := by
  have hdigits : (toString n).toList = Nat.toDigits 10 n := by
    rw [Nat.toString_eq_ofList_toDigits,String.toList_ofList]
  rw [hdigits]
  conv => lhs; rw [← Nat.ofDigitChars_ten_toDigits (n := n)]
  exact .number (fun c hc => Nat.isDigit_of_mem_toDigits (by decide) (by decide) hc)
    Nat.toDigits_ne_nil (toDigits_lead n)

section Lists
variable {α : Type} {R : α → List Char → Prop}

lemma blank_nil : Blank [] := by simp [Blank]

lemma blank_indentation (depth : Nat) : Blank (indentation depth).toList := by
  have hblank (n : Nat) : Blank ("".pushn ' ' n).toList := by
    rw [String.pushn_eq_repeat_push]
    induction n with
    | zero => simp [Nat.repeat,Blank]
    | succ n ih =>
      rw [Nat.repeat,String.toList_push]
      intro c hc
      rcases List.mem_append.mp hc with hc | hc
      · exact ih c hc
      · obtain rfl := List.mem_singleton.mp hc
        rfl
  exact hblank _

/-- Parts that are printed one below the other are a list of them. -/
theorem listed_intercalate {f : α → List Char} {before after : List Char} {as : List α}
    (hne : as ≠ []) (hf : ∀ a ∈ as, R a (f a)) (hbefore : Blank before) (hafter : Blank after) :
    Listed R as ('\n' :: ([',','\n'].intercalate (as.map fun a => before ++ f a) ++ after)) := by
  have hline : Blank ('\n' :: before) := List.forall_mem_cons.mpr ⟨rfl,hbefore⟩
  induction as with
  | nil => contradiction
  | cons a as ih =>
    have ha := hf a (.head _)
    cases as with
    | nil => simpa using Listed.last hline ha hafter
    | cons b as =>
      have hmore := ih (List.cons_ne_nil _ _) fun c hc => hf c (.tail _ hc)
      have hlisted := Listed.cons hline ha blank_nil hmore
      simpa [List.intercalate_cons_cons] using hlisted

/-- Parts between printed brackets. -/
theorem enclosed_bracketed {f : α → String} {opening closing : Char} (depth : Nat) {as : List α}
    (hf : ∀ a ∈ as, R a (f a).toList) :
    Enclosed R opening closing as
      (bracketed (String.singleton opening) (String.singleton closing) depth (as.map f)).toList := by
  unfold bracketed
  by_cases hne : as = []
  · subst hne
    have hempty : Enclosed R opening closing [] (opening :: ([] ++ [closing])) := .empty blank_nil
    simpa using hempty
  · rw [if_neg (by simpa using hne)]
    have hafter : Blank ('\n' :: (indentation depth).toList) :=
      List.forall_mem_cons.mpr ⟨rfl,blank_indentation depth⟩
    have hlisted := listed_intercalate hne hf (blank_indentation (depth + 1)) hafter
    have henclosed : Enclosed R opening closing as _ := .items hlisted
    simpa [String.toList_intercalate,Function.comp_def] using henclosed

end Lists

lemma renderItems_eq (depth : Nat) (items : List Json) :
    renderItems depth items = items.map (render depth) := by
  induction items with
  | nil => rfl
  | cons v items ih => rw [renderItems,ih,List.map_cons]

lemma renderMembers_eq (depth : Nat) (members : List (String × Json)) :
    renderMembers depth members =
      members.map fun member => quoted member.1 ++ ": " ++ member.2.render depth := by
  induction members with
  | nil => rfl
  | cons member members ih => rw [renderMembers,ih,List.map_cons]

/-- What is printed for a value stands for it. -/
theorem denotes_render (v : Json) (depth : Nat) : Denotes v (v.render depth).toList := by
  induction v using value_induction generalizing depth with
  | number n => exact denotes_number n
  | string s => exact .string (quoted_quoted s)
  | array items ih =>
    rw [render,renderItems_eq]
    exact .array (enclosed_bracketed depth fun v hv => ih v hv (depth + 1))
  | object members ih =>
    rw [render,renderMembers_eq]
    refine .object (enclosed_bracketed depth fun member hmember => ?_)
    have hvalue := ih member hmember (depth + 1)
    have hspace : Blank [' '] := by simp [Blank,isSpace]
    have hmember := Member.mk (quoted_quoted member.1) blank_nil hspace hvalue
    simpa using hmember

/-- The value of a key of an object. -/
def get? (key : String) : Json → Option Json
  | .object members => members.lookup key
  | _ => none

def asNumber? : Json → Option Nat
  | .number n => some n
  | _ => none

def asString? : Json → Option String
  | .string s => some s
  | _ => none

def asArray? : Json → Option (List Json)
  | .array items => some items
  | _ => none

end Json

/-- What a report says of one offense. -/
structure Entry where
  path : String
  line : Nat
  column : Nat
  severity : String
  copName : String
  message : String

/-- What a report says. -/
structure Contents where
  filesInspected : Nat
  offenseCount : Nat
  offenses : List Entry

def Entry.ofDiagnostic (d : Diagnostic) : Entry :=
  ⟨d.path,d.location.line,d.location.column,d.severity.name,d.copName,d.message⟩

/-- An offense, found by its keys. -/
def Entry.ofJson? (v : Json) : Option Entry := do
  let path ← (v.get? "path").bind Json.asString?
  let line ← (v.get? "line").bind Json.asNumber?
  let column ← (v.get? "column").bind Json.asNumber?
  let severity ← (v.get? "severity").bind Json.asString?
  let copName ← (v.get? "cop_name").bind Json.asString?
  let message ← (v.get? "message").bind Json.asString?
  return ⟨path,line,column,severity,copName,message⟩

/-- A report, found by its keys. -/
def Contents.ofJson? (v : Json) : Option Contents := do
  let counts ← v.get? "metadata"
  let files ← (counts.get? "files_inspected").bind Json.asNumber?
  let count ← (counts.get? "offense_count").bind Json.asNumber?
  let items ← (v.get? "offenses").bind Json.asArray?
  let offenses ← items.mapM Entry.ofJson?
  return ⟨files,count,offenses⟩

/-- What a text says that is a report. -/
def decode? (cs : List Char) : Option Contents := (Json.parse? cs).bind Contents.ofJson?

section
variable (ds : List Diagnostic) (files : Nat)

lemma Entry.ofJson_ofDiagnostic (d : Diagnostic) :
    Entry.ofJson? (.ofDiagnostic d) = some (.ofDiagnostic d) := rfl

lemma mapM_ofJson : (ds.map Json.ofDiagnostic).mapM Entry.ofJson? = some (ds.map .ofDiagnostic) := by
  induction ds with
  | nil => rfl
  | cons d ds ih => simp [Entry.ofJson_ofDiagnostic,ih]

theorem Contents.ofJson_ofDiagnostics :
    Contents.ofJson? (.ofDiagnostics ds files) =
      some ⟨files,ds.length,ds.map .ofDiagnostic⟩ := by
  have hfields : Contents.ofJson? (.ofDiagnostics ds files) =
      ((ds.map Json.ofDiagnostic).mapM Entry.ofJson?).bind fun offenses =>
        some ⟨files,ds.length,offenses⟩ := rfl
  rw [hfields,mapM_ofJson]
  rfl

lemma document_json : Json.Document (.ofDiagnostics ds files) (json ds files).toList := by
  refine ⟨[],_,['\n'],Json.blank_nil,Json.denotes_render _ 0,by simp [Json.Blank,Json.isSpace],?_⟩
  simp [json]

theorem decode_json :
    decode? (json ds files).toList = some ⟨files,ds.length,ds.map .ofDiagnostic⟩ := by
  rw [decode?,(document_json ds files).parse_eq]
  exact Contents.ofJson_ofDiagnostics ds files

end

lemma severityName_injective : Function.Injective Severity.name := by
  intro a b h
  cases a <;> cases b <;> first | rfl | simp [Severity.name] at h

/-- An entry says all there is of an offense. -/
theorem Entry.ofDiagnostic_injective : Function.Injective Entry.ofDiagnostic := by
  rintro ⟨path,⟨line,column⟩,severity,copName,message⟩
    ⟨path',⟨line',column'⟩,severity',copName',message'⟩ h
  obtain ⟨rfl,rfl,rfl,hseverity,rfl,rfl⟩ := Entry.mk.inj h
  obtain rfl : severity = severity' := severityName_injective hseverity
  rfl

/-- The JSON report is a document of JSON and a newline after it. It stands for one value, and whoever
reads it finds the number of files and of offenses and, in their order, the place, the severity, the
cop and the message of every offense. So two reports are equal only if they report the same. -/
theorem json_lossless (ds : List Diagnostic) (files : Nat) :
    (∃ text : String, json ds files = text ++ "\n" ∧
      Json.Denotes (.ofDiagnostics ds files) text.toList) ∧
    (∀ v : Json, Json.Document v (json ds files).toList ↔ v = .ofDiagnostics ds files) ∧
    decode? (json ds files).toList = some
      { filesInspected := files
        offenseCount := ds.length
        offenses := ds.map fun d =>
          ⟨d.path,d.location.line,d.location.column,d.severity.name,d.copName,d.message⟩ } ∧
    ∀ (ds' : List Diagnostic) (files' : Nat),
      json ds' files' = json ds files ↔ ds' = ds ∧ files' = files := by
  refine ⟨⟨_,rfl,Json.denotes_render _ 0⟩,fun v => ⟨fun hv => ?_,?_⟩,decode_json ds files,
    fun ds' files' => ⟨fun heq => ?_,?_⟩⟩
  · exact hv.unique (document_json ds files)
  · rintro rfl
    exact document_json ds files
  · have hdecode := decode_json ds' files'
    rw [heq,decode_json ds files,Option.some.injEq] at hdecode
    obtain ⟨hfiles,_,hds⟩ := Contents.mk.inj hdecode
    exact ⟨List.map_injective_iff.mpr Entry.ofDiagnostic_injective hds.symm,hfiles.symm⟩
  · rintro ⟨rfl,rfl⟩
    rfl

end ScriptLint.Report
