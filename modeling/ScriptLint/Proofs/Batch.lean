import Mathlib
import ScriptLint.Proofs.Independence

/-! Runs over several files. What is reported of each file is what is reported when it is inspected
alone, whatever else is inspected with it and in whatever order. -/
namespace ScriptLint

/-- Cops that report in the file they look at. -/
def Registry.OnSite (registry : Registry) : Prop :=
  ∀ cop ∈ registry.cops, ∀ ctx p config, ∀ d ∈ cop.check ctx p config, d.path = ctx.file.path

/-- Whether a path is among those that were named. -/
def Targets.Names (targets : Targets) (path : String) : Prop :=
  ∃ named ∈ targets.explicit, Path.same path named = true

namespace Plan
variable {config : Config} {registry : Registry} {plan : Plan} {options : Options}
  {targets : Targets} {read? : String → Option ByteArray} {path : String} {content : ByteArray}

theorem path_of_mem_inspect (hsite : registry.OnSite)
    (hcops : plan.cops.map (·.cop) = registry.cops) {file : SourceFile} {d : Diagnostic}
    (hd : d ∈ plan.inspect file) : d.path = file.path := by
  obtain ⟨c,hc,found,rfl,hfound⟩ := exists_origin hd
  rcases hfound with ⟨tree,p,hfound⟩ | ⟨-,e,rfl⟩
  · exact hsite c.cop (cop_mem hcops hc) _ p c.config found hfound
  · rfl

/-- A file is left out if it is excluded, unless it was named and exclusion is not forced. -/
theorem omits_iff : plan.omits options targets path = true ↔
    plan.excludes path = true ∧ (options.forceExclusion = true ∨ ¬ targets.Names path) := by
  simp [omits,Targets.Names]

theorem inspectTarget_of_read (homits : ¬ plan.omits options targets path = true)
    (hread : read? path = some content) :
    plan.inspectTarget options targets read? path = plan.inspect ⟨path,content⟩ := by
  rw [inspectTarget,if_neg homits,hread]

theorem inspectTarget_eq_nil (h : read? path = none ∨ plan.omits options targets path = true) :
    plan.inspectTarget options targets read? path = [] := by
  rw [inspectTarget]
  cases h with
  | inl hread =>
    rw [hread]
    split <;> rfl
  | inr homits => rw [if_pos homits]

theorem path_of_mem_inspectTarget (hsite : registry.OnSite)
    (hcops : plan.cops.map (·.cop) = registry.cops) {d : Diagnostic}
    (hd : d ∈ plan.inspectTarget options targets read? path) : d.path = path := by
  unfold inspectTarget at hd
  split at hd
  · cases hd
  · split at hd
    · cases hd
    · exact path_of_mem_inspect hsite hcops hd

end Plan

/-- What is found under a path is what is found in that file. -/
lemma filter_flatMap_eq {f : String → List Diagnostic} (hf : ∀ path, ∀ d ∈ f path, d.path = path)
    {paths : List String} (hnodup : paths.Nodup) (path : String) :
    (paths.flatMap f).filter (·.path == path) = if path ∈ paths then f path else [] := by
  induction paths with
  | nil => rfl
  | cons q paths ih =>
    obtain ⟨hq,hnodup⟩ := List.nodup_cons.mp hnodup
    rw [List.flatMap_cons,List.filter_append,ih hnodup]
    by_cases hpath : q = path
    · subst hpath
      have hall : ∀ d ∈ f q, (d.path == q) = true := fun d hd => by simpa using hf q d hd
      rw [List.filter_eq_self.mpr hall,if_neg hq,if_pos (.head _),List.append_nil]
    · have hnone : ∀ d ∈ f q, ¬ (d.path == path) = true := fun d hd => by
        simpa [hf q d hd] using hpath
      rw [List.filter_eq_nil_iff.mpr hnone,List.nil_append]
      simp [Ne.symm hpath]

theorem lintFiles_of_plan {config : Config} {registry : Registry} {plan : Plan} {options : Options}
    (hplan : config.plan registry options.only options.except = .ok plan) (targets : Targets)
    (read? : String → Option ByteArray) :
    lintFiles config registry options targets read? =
      .ok ⟨Diagnostic.sort (targets.files.flatMap (plan.inspectTarget options targets read?)),
        targets.files.length⟩ := by
  rw [lintFiles,hplan]
  rfl

/-- A run over several files is the sum of runs over each of them. Reports are in order. If cops
report in the file they look at, then what is reported of a file that can be read and is not left out
is what is reported of it alone, nothing is reported of other files, and it makes no difference in
which order the files were given. -/
theorem lintFiles_sum {config : Config} {registry : Registry} {plan : Plan} {targets : Targets}
    (options : Options) (hplan : config.plan registry options.only options.except = .ok plan)
    (hfiles : targets.files.Nodup) (read? : String → Option ByteArray) :
    ∃ ds, lintFiles config registry options targets read? = .ok ⟨ds,targets.files.length⟩ ∧
      ds.Pairwise (fun a b => (Diagnostic.order a b).isLE = true) ∧
      (registry.OnSite →
        (∀ path ∈ targets.files, ∀ content, read? path = some content →
          ¬ (plan.excludes path = true ∧ (options.forceExclusion = true ∨ ¬ targets.Names path)) →
            lintSource config registry options ⟨path,content⟩ =
              .ok ⟨ds.filter (·.path == path),1⟩) ∧
        (∀ path, read? path = none ∨
          plan.excludes path = true ∧ (options.forceExclusion = true ∨ ¬ targets.Names path) →
            ds.filter (·.path == path) = []) ∧
        (∀ d ∈ ds, d.path ∈ targets.files) ∧
        ∀ files, files.Perm targets.files →
          lintFiles config registry options { targets with files := files } read? =
            .ok ⟨ds,targets.files.length⟩) := by
  refine ⟨_,lintFiles_of_plan hplan targets read?,Diagnostic.pairwise_sort _,fun hsite => ?_⟩
  have hpath (path : String) (d : Diagnostic)
      (hd : d ∈ plan.inspectTarget options targets read? path) : d.path = path :=
    Plan.path_of_mem_inspectTarget hsite (Config.plan_cops hplan) hd
  have hfilter {files : List String} (hnodup : files.Nodup) (path : String) :=
    filter_flatMap_eq hpath hnodup path
  refine ⟨?_,?_,?_,?_⟩
  · intro path hmem content hread homits
    rw [← Plan.omits_iff] at homits
    rw [lintSource_of_plan options hplan,← Diagnostic.sort_filter,hfilter hfiles,if_pos hmem,
      Plan.inspectTarget_of_read homits hread]
  · intro path hnone
    rw [← Plan.omits_iff] at hnone
    rw [← Diagnostic.sort_filter,hfilter hfiles,Plan.inspectTarget_eq_nil hnone,ite_self]
    exact List.mergeSort_nil
  · intro d hd
    rw [Diagnostic.sort,List.mem_mergeSort,List.mem_flatMap] at hd
    obtain ⟨path,hmem,hd⟩ := hd
    exact hpath path d hd ▸ hmem
  · intro files hperm
    rw [lintFiles_of_plan hplan,hperm.length_eq]
    have hsame : Diagnostic.sort (files.flatMap (plan.inspectTarget options targets read?)) =
        Diagnostic.sort (targets.files.flatMap (plan.inspectTarget options targets read?)) := by
      apply Diagnostic.sort_eq_of_filter_eq (·.path) fun h => (Diagnostic.order_eq_iff.mp h).1
      intro path
      rw [hfilter (hperm.nodup_iff.mpr hfiles),hfilter hfiles]
      simp only [hperm.mem_iff]
    exact congrArg (fun ds => Except.ok (LintResult.mk ds targets.files.length)) hsame

/-! A cop that reports in a file of its own which files it looks at, and a path that is written in
two ways. -/
namespace Roving

def report (path : String) : Diagnostic := ⟨"c.js",⟨1,1⟩,.convention,"Style/A",path⟩

def cop : Cop :=
  ⟨"Style/A",.convention,true,fun ctx p _ =>
    if p.ancestors.isEmpty then [report ctx.file.path] else []⟩

def config : Config := { excluded := ["lib//b.js"] }

def plan : Plan :=
  ⟨[⟨syntaxCop,{},true,[],[]⟩,⟨redundancyCop,{},true,[],[]⟩],
    [⟨.path,"lib//b.js".toList.map .literal⟩],none⟩

theorem plan_eq : config.plan .default [] [] = .ok plan := by
  have hread : readPatterns none .excluded ["lib//b.js"] = .ok plan.excluded := by cbv
  rw [Config.plan,Registry.cops_default]
  change (Except.ok _ >>= fun _ => readPatterns none .excluded ["lib//b.js"] >>= fun _ => _) = _
  rw [hread]
  rfl

theorem excludes_eq : plan.excludes "lib//b.js" = true := by cbv

def targets : Targets := ⟨["lib//b.js"],["lib/b.js"]⟩

def file : SourceFile := ⟨"lib//b.js",Astray.file.content⟩

def offense : Diagnostic := { Astray.offense with path := "lib//b.js" }

theorem inspect_eq : plan.inspect file = [offense] := by
  have herror : parseSource file.content = .error ⟨.returnOutsideFunction,0⟩ := Astray.parseSource_eq
  rw [Plan.inspect_refused herror (List.find?_cons_of_pos (by rfl)) (by rfl)]
  change [Diagnostic.mk "lib//b.js" (Astray.file.location 0) .fatal _ _] = _
  rw [Astray.location_eq]
  rfl

theorem lintFiles_eq :
    lintFiles config .default {} targets (fun _ => some file.content) = .ok ⟨[offense],1⟩ := by
  have homits : ¬ plan.omits {} targets file.path = true := by
    rw [Plan.omits_iff,not_and,not_or,not_not]
    exact fun _ => ⟨by decide,"lib/b.js",.head _,by cbv⟩
  have hfound : targets.files.flatMap
      (plan.inspectTarget {} targets fun _ => some file.content) = [offense] := by
    change [file.path].flatMap _ = _
    rw [List.flatMap_singleton,Plan.inspectTarget_of_read homits rfl,inspect_eq]
  rw [lintFiles_of_plan plan_eq,hfound]
  exact congrArg (fun ds => Except.ok (LintResult.mk ds 1)) (List.mergeSort_singleton _)

end Roving

/-- A cop can report in another file than the one it looks at, and then the order in which files were
given decides in which order it speaks of them. A file that is excluded counts as named if its path
has the components of a path that was named, also if it is not written in the same way. -/
theorem lintFiles_roving :
    lintFiles {} (.ofCalls [Roving.cop]) {} ⟨["a.js","b.js"],[]⟩ (fun _ => some .empty) =
        .ok ⟨[Roving.report "a.js",Roving.report "b.js"],2⟩ ∧
      lintFiles {} (.ofCalls [Roving.cop]) {} ⟨["b.js","a.js"],[]⟩ (fun _ => some .empty) =
        .ok ⟨[Roving.report "b.js",Roving.report "a.js"],2⟩ ∧
      lintSource {} (.ofCalls [Roving.cop]) {} ⟨"a.js",.empty⟩ = .ok ⟨[Roving.report "a.js"],1⟩ ∧
      (∀ path ∈ ["a.js","b.js"], (Roving.report path).path ∉ ["a.js","b.js"]) ∧
      Roving.config.plan .default [] [] = .ok Roving.plan ∧
      Roving.plan.excludes "lib//b.js" = true ∧ "lib//b.js" ∉ Roving.targets.explicit ∧
      lintFiles Roving.config .default {} Roving.targets (fun _ => some Roving.file.content) =
        .ok ⟨[Roving.offense],1⟩ :=
  ⟨by cbv,by cbv,by cbv,by decide,Roving.plan_eq,Roving.excludes_eq,by decide,
    Roving.lintFiles_eq⟩

theorem Registry.onSite_default : default.OnSite := by
  intro cop hcop ctx p config d hd
  rw [cops_default,List.mem_pair] at hcop
  cases hcop with
  | inl hcop =>
    subst hcop
    cases hd
  | inr hcop =>
    subst hcop
    obtain ⟨found,rfl⟩ := mem_redundancyCheck hd
    rfl

/-! A configuration that excludes a file. -/
namespace Shunning

def config : Config := { excluded := ["b.js"], dir? := some "." }

def plan : Plan :=
  ⟨[⟨syntaxCop,{},true,[],[]⟩,⟨redundancyCop,{},true,[],[]⟩],
    [⟨.path,[.literal 'b',.literal '.',.literal 'j',.literal 's']⟩],some "."⟩

theorem plan_eq : config.plan .default [] [] = .ok plan := by
  have hread : readPatterns none .excluded ["b.js"] = .ok plan.excluded := by cbv
  rw [Config.plan,Registry.cops_default]
  change (Except.ok _ >>= fun _ => readPatterns none .excluded ["b.js"] >>= fun _ => _) = _
  rw [hread]
  rfl

theorem excludes_eq : plan.excludes "b.js" = true := by cbv

theorem not_excludes : plan.excludes "a.js" = false := by cbv

/-- One file that cannot be parsed, one that is excluded, and one that cannot be read. -/
def targets : Targets := ⟨["c.js","b.js","a.js"],[]⟩

def read? (path : String) : Option ByteArray :=
  if path = "c.js" then none else some Astray.file.content

theorem lintSource_eq : lintSource config .default {} Astray.file = .ok ⟨[Astray.offense],1⟩ := by
  rw [lintSource_of_plan {} plan_eq,
    Plan.inspect_refused Astray.parseSource_eq (List.find?_cons_of_pos (by rfl)) (by cbv),
    Astray.syntaxOffense_eq]
  exact congrArg (fun ds => Except.ok (LintResult.mk ds 1)) (List.mergeSort_singleton _)

end Shunning

theorem lintFiles_sum_shunning : Shunning.targets.files.Nodup ∧ Registry.default.OnSite ∧
    ∃ ds, lintFiles Shunning.config .default {} Shunning.targets Shunning.read? = .ok ⟨ds,3⟩ ∧
      ds.filter (·.path == "a.js") = [Astray.offense] ∧ ds.filter (·.path == "b.js") = [] ∧
      ds.filter (·.path == "c.js") = [] ∧
      lintFiles Shunning.config .default {} ⟨["a.js","b.js","c.js"],[]⟩ Shunning.read? =
        .ok ⟨ds,3⟩ := by
  have hnodup : Shunning.targets.files.Nodup := by decide
  obtain ⟨ds,hds,-,hsum⟩ := lintFiles_sum {} Shunning.plan_eq hnodup Shunning.read?
  obtain ⟨hone,hnone,-,hperm⟩ := hsum Registry.onSite_default
  refine ⟨hnodup,Registry.onSite_default,ds,hds,?_,?_,?_,?_⟩
  · have hlint := hone "a.js" (by decide) Astray.file.content rfl (by simp [Shunning.not_excludes])
    have heq : LintResult.mk (ds.filter (·.path == "a.js")) 1 = ⟨[Astray.offense],1⟩ :=
      Except.ok.inj (hlint.symm.trans Shunning.lintSource_eq)
    exact congrArg LintResult.diagnostics heq
  · exact hnone "b.js" (.inr ⟨Shunning.excludes_eq,.inr (by simp [Targets.Names,Shunning.targets])⟩)
  · exact hnone "c.js" (.inl rfl)
  · exact hperm ["a.js","b.js","c.js"] (by decide)

end ScriptLint
