import Mathlib
import ScriptLint.Proofs.Selection

/-! Cops do not get in each other's way. What one of them reports depends neither on what is
configured for another nor on the order in which they are registered. -/
namespace ScriptLint

/-- A plan for cops that only report under their own names. -/
def Plan.Candid (plan : Plan) : Prop :=
  ∀ c ∈ plan.cops, ∀ ctx p config, ∀ d ∈ c.cop.check ctx p config, d.copName = c.cop.name

theorem Registry.Candid.plan {config : Config} {registry : Registry} {plan : Plan}
    {only except : List String} (h : registry.Candid)
    (hplan : config.plan registry only except = .ok plan) : plan.Candid :=
  fun _ hc => h _ (Plan.cop_mem (Config.plan_cops hplan) hc)

namespace Plan
variable {plan : Plan}

/-- What is settled about the cops with some names. -/
def restrict (keep : String → Bool) (plan : Plan) : Plan :=
  { plan with cops := plan.cops.filter fun c => keep c.cop.name }

theorem active_restrict (keep : String → Bool) (path : String) :
    (plan.restrict keep).active path = (plan.active path).filter fun a => keep a.cop.name := by
  rw [active,active,List.filter_map]
  change List.map _ (List.filter _ (plan.cops.filter _)) = _
  rw [List.filter_filter,List.filter_filter]
  congr 1
  apply List.filter_congr
  intro c _
  exact Bool.and_comm ..

/-- The cop for what cannot be parsed is left only if its name is. -/
theorem find_restrict (keep : String → Bool) :
    (plan.restrict keep).cops.find? (·.cop.name == syntaxCop.name) =
      if keep syntaxCop.name then plan.cops.find? (·.cop.name == syntaxCop.name) else none := by
  change List.find? _ (plan.cops.filter _) = _
  rw [List.find?_filter]
  by_cases hkeep : keep syntaxCop.name
  · rw [if_pos hkeep]
    congr 1
    funext c
    by_cases hname : c.cop.name = syntaxCop.name
    · simp [hname,hkeep]
    · simp [hname]
  · rw [if_neg hkeep,List.find?_eq_none]
    intro c _ hc
    obtain ⟨hc,hname⟩ : keep c.cop.name ∧ c.cop.name = syntaxCop.name := by simpa using hc
    exact hkeep (hname ▸ hc)

theorem copName_of_mem_syntaxOffenses {file : SourceFile} {e : SyntaxError} {d : Diagnostic}
    (hd : d ∈ plan.syntaxOffenses file e) : d.copName = syntaxCop.name := by
  unfold syntaxOffenses at hd
  split at hd
  · cases hd
  · split at hd
    · rw [List.mem_singleton.mp hd]
      rfl
    · cases hd

theorem syntaxOffenses_restrict (keep : String → Bool) (file : SourceFile) (e : SyntaxError) :
    (plan.restrict keep).syntaxOffenses file e =
      (plan.syntaxOffenses file e).filter fun d => keep d.copName := by
  rw [syntaxOffenses,find_restrict]
  by_cases hkeep : keep syntaxCop.name
  · have hall : ∀ d ∈ plan.syntaxOffenses file e, keep d.copName = true :=
      fun d hd => copName_of_mem_syntaxOffenses hd ▸ hkeep
    rw [if_pos hkeep,List.filter_eq_self.mpr hall]
    rfl
  · have hnone : ∀ d ∈ plan.syntaxOffenses file e, ¬ keep d.copName = true :=
      fun d hd => copName_of_mem_syntaxOffenses hd ▸ hkeep
    rw [if_neg hkeep,List.filter_eq_nil_iff.mpr hnone]

/-- The offenses under some names are those that the cops with these names find on their own. -/
theorem inspect_restrict (hcandid : plan.Candid) (keep : String → Bool) (file : SourceFile) :
    (plan.restrict keep).inspect file = (plan.inspect file).filter fun d => keep d.copName := by
  rw [inspect,inspect]
  split
  · exact syntaxOffenses_restrict keep file _
  · rw [active_restrict,FileContext.walk_filter]
    intro a ha p
    obtain ⟨c,hc,rfl⟩ := List.mem_map.mp ha
    exact hcandid c (List.mem_of_mem_filter hc) _ p c.config

end Plan

/-- What is configured for a cop, with another severity. -/
def CopConfig.rated (s : Severity) (c : CopConfig) : CopConfig := { c with severity? := some s }

/-- What is configured for a cop, apart from how serious its offenses are. -/
def CopConfig.unrated (c : CopConfig) : CopConfig := { c with severity? := none }

lemma CopConfig.rated_unrated (s : Severity) (c : CopConfig) : c.unrated.rated s = c.rated s := rfl

namespace Cop

/-- A cop that does not look at the severity that is configured for it. -/
def Unswayed (cop : Cop) : Prop :=
  ∀ ctx p config, cop.check ctx p config = cop.check ctx p config.unrated

/-- A cop that reports with its own severity. -/
def Uniform (cop : Cop) : Prop :=
  ∀ ctx p config, ∀ d ∈ cop.check ctx p config, d.severity = cop.severity

end Cop

/-- An offense, with another severity if it is of the cop with a given name. -/
def Diagnostic.rated (name : String) (s : Severity) (d : Diagnostic) : Diagnostic :=
  if d.copName = name then { d with severity := s } else d

/-- What is settled about a cop, with another severity if it has a given name. -/
def CopPlan.rated (name : String) (s : Severity) (c : CopPlan) : CopPlan :=
  if c.cop.name = name then { c with config := c.config.rated s } else c

def Plan.rated (name : String) (s : Severity) (plan : Plan) : Plan :=
  { plan with cops := plan.cops.map (·.rated name s) }

/-- Severities do not count in the order of offenses. -/
theorem Diagnostic.order_rated (name : String) (s : Severity) (a b : Diagnostic) :
    order (a.rated name s) (b.rated name s) = order a b := by
  unfold rated
  split <;> split <;> rfl

namespace CopPlan

@[simp] theorem cop_rated (name : String) (s : Severity) (c : CopPlan) :
    (c.rated name s).cop = c.cop := by
  unfold rated
  split <;> rfl

theorem withSeverity_rated {name : String} {s : Severity} {c : CopPlan} {d : Diagnostic}
    (hd : d.copName = c.cop.name) :
    d.withSeverity (c.rated name s).config.severity? =
      (d.withSeverity c.config.severity?).rated name s := by
  by_cases hname : c.cop.name = name
  · simp [rated,CopConfig.rated,Diagnostic.rated,Diagnostic.withSeverity,hd,hname]
  · simp [rated,Diagnostic.rated,Diagnostic.withSeverity,hd,hname]

theorem check_rated {name : String} {s : Severity} {c : CopPlan}
    (h : c.cop.name = name → c.cop.Unswayed) (ctx : FileContext) (p : Position) :
    c.cop.check ctx p (c.rated name s).config = c.cop.check ctx p c.config := by
  unfold rated
  split
  next hname =>
    rw [h hname ctx p c.config]
    exact h hname ctx p (c.config.rated s)
  · rfl

end CopPlan

namespace Plan
variable {plan : Plan}

theorem runs_rated (name : String) (s : Severity) (c : CopPlan) (path : String) :
    (plan.rated name s).runs (c.rated name s) path = plan.runs c path := by
  unfold CopPlan.rated
  split <;> rfl

theorem active_rated (name : String) (s : Severity) (path : String) :
    (plan.rated name s).active path =
      (plan.cops.filter fun c => plan.runs c path).map fun c =>
        ⟨c.cop,(c.rated name s).config⟩ := by
  rw [active]
  change List.map _ (List.filter _ (plan.cops.map _)) = _
  rw [List.filter_map,List.map_map]
  simp only [Function.comp_def,runs_rated,CopPlan.cop_rated]

theorem syntaxOffenses_rated (name : String) (s : Severity) (file : SourceFile) (e : SyntaxError) :
    (plan.rated name s).syntaxOffenses file e =
      (plan.syntaxOffenses file e).map (.rated name s) := by
  have hfind : (plan.rated name s).cops.find? (·.cop.name == syntaxCop.name) =
      (plan.cops.find? (·.cop.name == syntaxCop.name)).map (·.rated name s) := by
    change List.find? _ (plan.cops.map _) = _
    rw [List.find?_map]
    simp only [Function.comp_def,CopPlan.cop_rated]
  rw [syntaxOffenses,syntaxOffenses,hfind]
  cases hc : plan.cops.find? (·.cop.name == syntaxCop.name) with
  | none => rfl
  | some c =>
    have hname : c.cop.name = syntaxCop.name := by simpa using List.find?_some hc
    rw [Option.map_some]
    dsimp only
    rw [runs_rated]
    split
    · rw [CopPlan.withSeverity_rated (d := syntaxOffense file e) hname.symm,List.map_singleton]
    · rfl

/-- To give a cop a severity is to give it to what the cop reports, if the cop does not look at it. -/
theorem inspect_rated (hcandid : plan.Candid) {name : String}
    (hunswayed : ∀ c ∈ plan.cops, c.cop.name = name → c.cop.Unswayed) (s : Severity)
    (file : SourceFile) :
    (plan.rated name s).inspect file = (plan.inspect file).map (.rated name s) := by
  rw [inspect,inspect]
  split
  · exact syntaxOffenses_rated name s file _
  · rw [active_rated,active,FileContext.walk,FileContext.walk,List.map_flatMap]
    congr 1
    funext p
    rw [List.flatMap_map,List.flatMap_map,List.map_flatMap]
    apply List.flatMap_congr
    intro c hc
    have hmem := List.mem_of_mem_filter hc
    rw [ActiveCop.offenses,ActiveCop.offenses,List.map_map]
    dsimp only
    rw [CopPlan.check_rated (hunswayed c hmem)]
    apply List.map_congr_left
    intro d hd
    exact CopPlan.withSeverity_rated (hcandid c hmem _ p c.config d hd)

end Plan

section Paired
variable {α β γ : Type}

lemma exists_of_forall₂ {r : α → β → Prop} {xs : List α} {ys : List β} (h : List.Forall₂ r xs ys)
    {y : β} (hy : y ∈ ys) : ∃ x ∈ xs, r x y := by
  induction h with
  | nil => cases hy
  | cons hr _ ih =>
    cases hy with
    | head => exact ⟨_,.head _,hr⟩
    | tail _ hy =>
      obtain ⟨x,hx,hxy⟩ := ih hy
      exact ⟨x,.tail _ hx,hxy⟩

lemma forall₂_paired {r : α → β → Prop} {s : α → γ → Prop} {xs : List α} {ys : List β} {zs : List γ}
    (h : List.Forall₂ r xs ys) (h' : List.Forall₂ s xs zs) :
    List.Forall₂ (fun y z => ∃ x ∈ xs, r x y ∧ s x z) ys zs := by
  induction h generalizing zs with
  | nil =>
    cases h'
    exact .nil
  | cons hxy _ ih =>
    cases h' with
    | cons hxz h' =>
      refine .cons ⟨_,.head _,hxy,hxz⟩ ((ih h').imp ?_)
      rintro y z ⟨x,hx,hyz⟩
      exact ⟨x,.tail _ hx,hyz⟩

lemma filter_eq_of_forall₂ {p : α → Bool} {xs ys : List α}
    (h : List.Forall₂ (fun x y => p x = p y ∧ (p x → x = y)) xs ys) : xs.filter p = ys.filter p := by
  induction h with
  | nil => rfl
  | @cons x y _ _ hxy _ ih =>
    rw [List.filter_cons,List.filter_cons,← hxy.1,ih]
    by_cases hx : p x
    · rw [if_pos hx,if_pos hx,hxy.2 hx]
    · rw [if_neg hx,if_neg hx]

end Paired

namespace Config
variable {config config' : Config} {registry : Registry} {plan plan' : Plan} {cop : Cop}
  {c c' : CopPlan} {name : String} {only except : List String}

/-- Configurations that differ in nothing but what they say of the cop with a given name. -/
structure AgreesBut (name : String) (config config' : Config) : Prop where
  cops : ∀ other, other ≠ name → config.cop? other = config'.cop? other
  excluded : config.excluded = config'.excluded
  dir : config.dir? = config'.dir?

theorem cop_of_planCop (h : config.planCop only except cop = .ok c) : c.cop = cop := by
  obtain ⟨_,_,-,-,rfl⟩ := planCop_eq_ok.mp h
  rfl

/-- What is settled about a cop depends on what is configured for that cop only. -/
theorem planCop_congr (h : config.cop? cop.name = config'.cop? cop.name) :
    config.planCop only except cop = config'.planCop only except cop := by
  simp only [planCop,selects,enables,Config.cop,h]

/-- If two configurations of a cop differ in the severity only, so does what is settled about it. -/
theorem rated_eq_of_planCop (hc : config.planCop only except cop = .ok c)
    (hc' : config'.planCop only except cop = .ok c') (s : Severity)
    (hcop : (config.cop cop.name).unrated = (config'.cop cop.name).unrated)
    (henables : config.enables cop.name cop.enabledByDefault =
      config'.enables cop.name cop.enabledByDefault) :
    c.rated cop.name s = c'.rated cop.name s := by
  have hrated : (config.cop cop.name).rated s = (config'.cop cop.name).rated s := by
    rw [← CopConfig.rated_unrated,hcop,CopConfig.rated_unrated]
  have hselects : config.selects only except cop = config'.selects only except cop := by
    rw [selects,selects,henables]
  have hincluded : (config.cop cop.name).included = (config'.cop cop.name).included :=
    congrArg (·.included) hcop
  have hexcluded : (config.cop cop.name).excluded = (config'.cop cop.name).excluded :=
    congrArg (·.excluded) hcop
  obtain ⟨included,excluded,hi,he,rfl⟩ := planCop_eq_ok.mp hc
  obtain ⟨included',excluded',hi',he',rfl⟩ := planCop_eq_ok.mp hc'
  rw [hincluded,hi'] at hi
  rw [hexcluded,he'] at he
  cases hi
  cases he
  simp [CopPlan.rated,hselects,hrated]

/-- Two plans for the same cops settle something about each of them. -/
theorem plans_paired (hplan : config.plan registry only except = .ok plan)
    (hplan' : config'.plan registry only except = .ok plan') :
    List.Forall₂ (fun c c' => ∃ cop ∈ registry.cops, config.planCop only except cop = .ok c ∧
      config'.planCop only except cop = .ok c') plan.cops plan'.cops := by
  obtain ⟨cops,_,hcops,-,rfl⟩ := plan_eq_ok.mp hplan
  obtain ⟨cops',_,hcops',-,rfl⟩ := plan_eq_ok.mp hplan'
  exact forall₂_paired hcops hcops'

/-- Plans for configurations that agree on the files that no cop looks at differ in their cops. -/
theorem plan_ext (hplan : config.plan registry only except = .ok plan)
    (hplan' : config'.plan registry only except = .ok plan') (h : config.AgreesBut name config') :
    plan.excluded = plan'.excluded ∧ plan.dir? = plan'.dir? := by
  obtain ⟨_,excluded,-,hexcluded,rfl⟩ := plan_eq_ok.mp hplan
  obtain ⟨_,excluded',-,hexcluded',rfl⟩ := plan_eq_ok.mp hplan'
  rw [h.excluded,hexcluded'] at hexcluded
  exact ⟨(Except.ok.inj hexcluded).symm,h.dir⟩

theorem restrict_eq (hplan : config.plan registry only except = .ok plan)
    (hplan' : config'.plan registry only except = .ok plan') (h : config.AgreesBut name config') :
    plan.restrict (· != name) = plan'.restrict (· != name) := by
  obtain ⟨hexcluded,hdir⟩ := plan_ext hplan hplan' h
  have hcops : plan.cops.filter (·.cop.name != name) = plan'.cops.filter (·.cop.name != name) := by
    apply filter_eq_of_forall₂
    refine (plans_paired hplan hplan').imp ?_
    rintro c c' ⟨cop,-,hc,hc'⟩
    have hcop := cop_of_planCop hc
    have hcop' := cop_of_planCop hc'
    refine ⟨by rw [hcop,hcop'],fun hne => ?_⟩
    rw [hcop,bne_iff_ne] at hne
    rw [planCop_congr (h.cops _ hne),hc'] at hc
    exact (Except.ok.inj hc).symm
  rw [Plan.restrict,Plan.restrict,hcops,hexcluded,hdir]

theorem rated_eq (hplan : config.plan registry only except = .ok plan)
    (hplan' : config'.plan registry only except = .ok plan') (h : config.AgreesBut name config')
    (hname : (config.cop name).unrated = (config'.cop name).unrated)
    (henables : ∀ cop ∈ registry.cops, cop.name = name →
      config.enables name cop.enabledByDefault = config'.enables name cop.enabledByDefault)
    (s : Severity) : plan.rated name s = plan'.rated name s := by
  obtain ⟨hexcluded,hdir⟩ := plan_ext hplan hplan' h
  have hcops : plan.cops.map (·.rated name s) = plan'.cops.map (·.rated name s) := by
    rw [← List.forall₂_eq_eq_eq,List.forall₂_map_left_iff,List.forall₂_map_right_iff]
    refine (plans_paired hplan hplan').imp ?_
    rintro c c' ⟨cop,hmem,hc,hc'⟩
    by_cases hcop : cop.name = name
    · subst hcop
      exact rated_eq_of_planCop hc hc' s hname (henables cop hmem rfl)
    · rw [planCop_congr (h.cops _ hcop),hc'] at hc
      cases hc
      rfl
  rw [Plan.rated,Plan.rated,hcops,hexcluded,hdir]

/-- A plan has what is configured for each cop. -/
theorem config_of_mem_plan (hplan : config.plan registry only except = .ok plan)
    (hc : c ∈ plan.cops) : c.config = config.cop c.cop.name := by
  obtain ⟨cops,_,hcops,-,rfl⟩ := plan_eq_ok.mp hplan
  obtain ⟨cop,-,hcop⟩ := exists_of_forall₂ hcops hc
  obtain ⟨_,_,-,-,rfl⟩ := planCop_eq_ok.mp hcop
  rfl

end Config

/-- Every offense was found by a cop or, in a file that cannot be parsed, says so. -/
theorem Plan.exists_origin {plan : Plan} {file : SourceFile} {d : Diagnostic}
    (hd : d ∈ plan.inspect file) :
    ∃ c ∈ plan.cops, ∃ found : Diagnostic, d = found.withSeverity c.config.severity? ∧
      ((∃ tree p, found ∈ c.cop.check (.ofTree file tree) p c.config) ∨
        c.cop.name = syntaxCop.name ∧ ∃ e, found = syntaxOffense file e) := by
  cases hparse : parseSource file.content with
  | ok tree =>
    obtain ⟨c,hc,p,found,hfound,rfl⟩ := mem_inspect hparse hd
    exact ⟨c,hc,found,rfl,.inl ⟨tree,p,hfound⟩⟩
  | error e =>
    rw [inspect,hparse] at hd
    dsimp only at hd
    unfold syntaxOffenses at hd
    split at hd
    · cases hd
    · next c hc =>
      split at hd
      · have hname : c.cop.name = syntaxCop.name := by simpa using List.find?_some hc
        exact ⟨c,List.mem_of_find?_eq_some hc,_,List.mem_singleton.mp hd,.inr ⟨hname,e,rfl⟩⟩
      · cases hd

/-- The offenses of a cop among some others have the severity that is configured for it or, without
one, the cop's own. -/
def Cop.Rates (cop : Cop) (severity? : Option Severity) (ds : List Diagnostic) : Prop :=
  ∀ d ∈ ds, d.copName = cop.name → d.severity = severity?.getD cop.severity

/-- A registry in which only the built-in cop has the name of the cop for what cannot be parsed. -/
def Registry.Standard (registry : Registry) : Prop :=
  ∀ cop ∈ registry.cops, cop.name = syntaxCop.name → cop = syntaxCop

section Configured
variable {config config' : Config} {registry : Registry} {plan plan' : Plan}
  {only except : List String} (hcandid : registry.Candid)
include hcandid

theorem Plan.rates (hstandard : registry.Standard)
    (hplan : config.plan registry only except = .ok plan) {cop : Cop} (hcop : cop ∈ registry.cops)
    (huniform : (config.cop cop.name).severity? = none → cop.Uniform) (file : SourceFile) :
    cop.Rates (config.cop cop.name).severity? (plan.inspect file) := by
  intro d hd hname
  obtain ⟨c,hc,found,rfl,hfound⟩ := exists_origin hd
  have hmem : c.cop ∈ registry.cops := cop_mem (Config.plan_cops hplan) hc
  have hown : found.copName = c.cop.name := by
    rcases hfound with ⟨tree,p,hfound⟩ | ⟨hs,e,rfl⟩
    · exact hcandid c.cop hmem _ p c.config found hfound
    · exact hs.symm
  have hsame : c.cop = cop := by
    have hget := Registry.get_name hmem
    rw [show c.cop.name = cop.name from hown.symm.trans hname,Registry.get_name hcop] at hget
    exact (Option.some.inj hget).symm
  rw [Config.config_of_mem_plan hplan hc,hsame]
  cases hseverity : (config.cop cop.name).severity? with
  | some s => rfl
  | none =>
    change found.severity = cop.severity
    rcases hfound with ⟨tree,p,hfound⟩ | ⟨hs,e,rfl⟩
    · rw [hsame] at hfound
      exact huniform hseverity _ p c.config found hfound
    · rw [hstandard cop hcop (hsame ▸ hs)]
      rfl

end Configured

/-- Offenses that do not differ or, if they are of the cop with a given name, only in severity. -/
def Diagnostic.SameBut (name : String) (d d' : Diagnostic) : Prop :=
  if d.copName = name then d' = { d with severity := d'.severity } else d' = d

theorem Diagnostic.sameBut_of_rated_eq {name : String} {s : Severity} {d d' : Diagnostic}
    (h : d.rated name s = d'.rated name s) : d.SameBut name d' := by
  have hname : d.copName = d'.copName := by
    have hkeep (d : Diagnostic) : (d.rated name s).copName = d.copName := by
      unfold rated
      split <;> rfl
    rw [← hkeep d,h,hkeep]
  unfold rated at h
  unfold SameBut
  rw [← hname] at h
  by_cases hd : d.copName = name
  · rw [if_pos hd,if_pos hd] at h
    rw [if_pos hd]
    cases d
    cases d'
    simp_all
  · rw [if_neg hd,if_neg hd] at h
    rw [if_neg hd,h]

/-- What is configured for one cop makes no difference to the others. If cops report under their
names, which are all different, then two configurations that differ in what they say of one cop lead
to the same offenses of the others, in the same order. If the two differ in its severity only, and
neither in whether it is enabled, they lead to the same offenses but for the severity of that cop's,
provided that the cop does not look at it. This severity is the configured one or, without one, that
which the cop reports with. -/
theorem lintSource_independent {config config' : Config} {registry : Registry} {plan plan' : Plan}
    {name : String} (options : Options) (hcandid : registry.Candid) (hstandard : registry.Standard)
    (hagree : config.AgreesBut name config')
    (hplan : config.plan registry options.only options.except = .ok plan)
    (hplan' : config'.plan registry options.only options.except = .ok plan') (file : SourceFile) :
    ∃ ds ds' : List Diagnostic, lintSource config registry options file = .ok ⟨ds,1⟩ ∧
      lintSource config' registry options file = .ok ⟨ds',1⟩ ∧
      ds.filter (·.copName != name) = ds'.filter (·.copName != name) ∧
      ((config.cop name).unrated = (config'.cop name).unrated →
        (∀ cop ∈ registry.cops, cop.name = name → cop.Unswayed ∧
          config.enables name cop.enabledByDefault = config'.enables name cop.enabledByDefault) →
        List.Forall₂ (Diagnostic.SameBut name) ds ds') ∧
      ∀ cop ∈ registry.cops, cop.name = name →
        (((config.cop name).severity? = none → cop.Uniform) →
          cop.Rates (config.cop name).severity? ds) ∧
        (((config'.cop name).severity? = none → cop.Uniform) →
          cop.Rates (config'.cop name).severity? ds') := by
  have hc := hcandid.plan hplan
  have hc' := hcandid.plan hplan'
  refine ⟨_,_,lintSource_of_plan options hplan file,lintSource_of_plan options hplan' file,?_,?_,?_⟩
  · rw [← Diagnostic.sort_filter,← Diagnostic.sort_filter,← Plan.inspect_restrict hc (· != name),
      ← Plan.inspect_restrict hc' (· != name),Config.restrict_eq hplan hplan' hagree]
  · intro hname hcop
    have hunswayed {plan : Plan} (hcops : plan.cops.map (·.cop) = registry.cops) (c : CopPlan)
        (hmem : c ∈ plan.cops) (hc : c.cop.name = name) : c.cop.Unswayed :=
      (hcop c.cop (Plan.cop_mem hcops hmem) hc).1
    -- Once that cop's offenses have one severity, nothing tells the two lists apart.
    have hpaired : (Diagnostic.sort (plan.inspect file)).map (·.rated name .fatal) =
        (Diagnostic.sort (plan'.inspect file)).map (·.rated name .fatal) := by
      rw [← Diagnostic.sort_map (Diagnostic.order_rated name .fatal),
        ← Diagnostic.sort_map (Diagnostic.order_rated name .fatal),
        ← Plan.inspect_rated hc (hunswayed (Config.plan_cops hplan)),
        ← Plan.inspect_rated hc' (hunswayed (Config.plan_cops hplan')),
        Config.rated_eq hplan hplan' hagree hname fun cop hmem hc => (hcop cop hmem hc).2]
    rw [← List.forall₂_eq_eq_eq,List.forall₂_map_left_iff,List.forall₂_map_right_iff] at hpaired
    exact hpaired.imp fun _ _ => Diagnostic.sameBut_of_rated_eq
  · rintro cop hcop rfl
    simp only [Cop.Rates,Diagnostic.sort,List.mem_mergeSort]
    exact ⟨fun huniform => Plan.rates hcandid hstandard hplan hcop huniform file,
      fun huniform => Plan.rates hcandid hstandard hplan' hcop huniform file⟩

/-! Cops that report identifiers, and a file that has one. -/
namespace Crowd

def report (name : String) (severity : Severity) (ctx : FileContext) (p : Position) :
    List Diagnostic :=
  (p.node.name?.map (.ofOffset ctx.file p.node.span.start severity name)).toList

def cop (name : String) : Cop := ⟨name,.convention,true,fun ctx p _ => report name .convention ctx p⟩

/-- It does not run unless something is configured for it. -/
def dormant : Cop := { cop "Style/A" with enabledByDefault := false }

/-- It finds nothing once a severity is configured for it. -/
def touchy : Cop :=
  { cop "Style/A" with
    check := fun ctx p config =>
      if config.severity?.isSome then [] else report "Style/A" .convention ctx p }

/-- It reports with another severity than its own. -/
def harsh : Cop := { cop "Style/A" with check := fun ctx p _ => report "Style/A" .error ctx p }

def file : SourceFile := ⟨"test.js","x".toUTF8⟩

def offense (name : String) (severity : Severity) : Diagnostic :=
  ⟨"test.js",⟨1,1⟩,severity,name,"x"⟩

/-- A configuration that says how serious the offenses of one cop are. -/
def config (severity? : Option Severity) : Config :=
  { cops := [("Style/A",{ severity? := severity? })] }

theorem of_mem_report {name : String} {severity : Severity} {ctx : FileContext} {p : Position}
    {d : Diagnostic} (hd : d ∈ report name severity ctx p) :
    d.copName = name ∧ d.severity = severity := by
  obtain ⟨x,-,rfl⟩ := Option.map_eq_some_iff.mp (Option.mem_toList.mp hd)
  exact ⟨rfl,rfl⟩

theorem candid_ofCalls {calls : List Cop}
    (h : ∀ cop ∈ calls, ∀ ctx p config, ∃ severity,
      cop.check ctx p config ⊆ report cop.name severity ctx p) : (Registry.ofCalls calls).Candid := by
  intro cop hcop ctx p config d hd
  obtain ⟨severity,hreport⟩ := h cop (Registry.mem_of_mem_ofCalls hcop) ctx p config
  exact (of_mem_report (hreport hd)).1

theorem standard_ofCalls {calls : List Cop} (h : ∀ cop ∈ calls, cop.name ≠ syntaxCop.name) :
    (Registry.ofCalls calls).Standard :=
  fun cop hcop hname => absurd hname (h cop (Registry.mem_of_mem_ofCalls hcop))

theorem agreesBut_config (severity? : Option Severity) :
    Config.AgreesBut "Style/A" {} (config severity?) := by
  refine ⟨fun other hother => ?_,rfl,rfl⟩
  have hne : (other == "Style/A") = false := by simpa using hother
  rw [Config.cop?,Config.cop?,config,List.lookup_cons,hne]

/-- What is settled about two cops, for the first of which a severity may be configured. -/
def plan (severity? : Option Severity) : Plan :=
  ⟨[⟨cop "Style/A",{ severity? := severity? },true,[],[]⟩,⟨cop "Style/B",{},true,[],[]⟩],[],none⟩

theorem cops_ofCalls : (Registry.ofCalls [cop "Style/A",cop "Style/B"]).cops =
    [cop "Style/A",cop "Style/B"] := by
  have hnames : ([cop "Style/A",cop "Style/B"].map (·.name)).Nodup := by decide
  exact Registry.cops_ofCalls hnames

theorem plan_default :
    Config.plan {} (.ofCalls [cop "Style/A",cop "Style/B"]) [] [] = .ok (plan none) := by
  rw [Config.plan,cops_ofCalls]
  rfl

theorem plan_config (severity? : Option Severity) :
    (config severity?).plan (.ofCalls [cop "Style/A",cop "Style/B"]) [] [] =
      .ok (plan severity?) := by
  rw [Config.plan,cops_ofCalls]
  rfl

theorem candid : (Registry.ofCalls [cop "Style/A",cop "Style/B"]).Candid := by
  refine candid_ofCalls fun other hother ctx p config => ⟨.convention,?_⟩
  rcases List.mem_pair.mp hother with rfl | rfl <;> exact List.Subset.refl _

theorem lintSource_eq :
    lintSource {} (.ofCalls [cop "Style/A",cop "Style/B"]) {} file =
      .ok ⟨[offense "Style/A" .convention,offense "Style/B" .convention],1⟩ := by
  cbv

end Crowd

/-- To configure a severity can make more of a difference. It turns on a cop that would not run if
nothing were configured for it, and a cop that looks at it can find something else. Nor does a cop
report with its own severity if it chooses another one. -/
theorem lintSource_swayed :
    (∀ cop ∈ [Crowd.dormant,Crowd.touchy,Crowd.harsh],
      (Registry.ofCalls [cop]).Candid ∧ (Registry.ofCalls [cop]).Standard) ∧
    Config.AgreesBut "Style/A" {} (Crowd.config (some .error)) ∧
    (Config.cop {} "Style/A").unrated = ((Crowd.config (some .error)).cop "Style/A").unrated ∧
    lintSource {} (.ofCalls [Crowd.dormant]) {} Crowd.file = .ok ⟨[],1⟩ ∧
    lintSource (Crowd.config (some .error)) (.ofCalls [Crowd.dormant]) {} Crowd.file =
      .ok ⟨[Crowd.offense "Style/A" .error],1⟩ ∧
    lintSource {} (.ofCalls [Crowd.touchy]) {} Crowd.file =
      .ok ⟨[Crowd.offense "Style/A" .convention],1⟩ ∧
    lintSource (Crowd.config (some .error)) (.ofCalls [Crowd.touchy]) {} Crowd.file = .ok ⟨[],1⟩ ∧
    lintSource {} (.ofCalls [Crowd.harsh]) {} Crowd.file =
      .ok ⟨[Crowd.offense "Style/A" .error],1⟩ ∧ Crowd.harsh.severity = .convention := by
  refine ⟨?_,Crowd.agreesBut_config _,rfl,by cbv,by cbv,by cbv,by cbv,by cbv,rfl⟩
  intro cop hcop
  have hreport : cop.name = "Style/A" ∧ ∀ ctx p config, ∃ severity,
      cop.check ctx p config ⊆ Crowd.report cop.name severity ctx p := by
    simp only [List.mem_cons,List.not_mem_nil,or_false] at hcop
    rcases hcop with rfl | rfl | rfl
    · exact ⟨rfl,fun ctx p config => ⟨.convention,List.Subset.refl _⟩⟩
    · refine ⟨rfl,fun ctx p config => ⟨.convention,?_⟩⟩
      simp only [Crowd.touchy]
      split
      · exact List.nil_subset _
      · exact List.Subset.refl _
    · exact ⟨rfl,fun ctx p config => ⟨.error,List.Subset.refl _⟩⟩
  refine ⟨Crowd.candid_ofCalls fun other hother => ?_,Crowd.standard_ofCalls fun other hother => ?_⟩
  · rw [List.mem_singleton.mp hother]
    exact hreport.2
  · rw [List.mem_singleton.mp hother,hreport.1]
    decide

theorem lintSource_independent_crowd :
    (Registry.ofCalls [Crowd.cop "Style/A",Crowd.cop "Style/B"]).Candid ∧
      Config.AgreesBut "Style/A" {} (Crowd.config (some .error)) ∧
      lintSource {} (.ofCalls [Crowd.cop "Style/A",Crowd.cop "Style/B"]) {} Crowd.file =
        .ok ⟨[Crowd.offense "Style/A" .convention,Crowd.offense "Style/B" .convention],1⟩ ∧
      lintSource (Crowd.config (some .error)) (.ofCalls [Crowd.cop "Style/A",Crowd.cop "Style/B"]) {}
        Crowd.file =
          .ok ⟨[Crowd.offense "Style/A" .error,Crowd.offense "Style/B" .convention],1⟩ := by
  have hstandard : (Registry.ofCalls [Crowd.cop "Style/A",Crowd.cop "Style/B"]).Standard :=
    Crowd.standard_ofCalls (by decide)
  refine ⟨Crowd.candid,Crowd.agreesBut_config _,Crowd.lintSource_eq,?_⟩
  obtain ⟨ds,ds',hds,hds',-,hsame,hrates⟩ := lintSource_independent {} Crowd.candid
    hstandard (Crowd.agreesBut_config (some .error)) Crowd.plan_default
    (Crowd.plan_config (some .error)) Crowd.file
  have heq := Except.ok.inj (hds.symm.trans Crowd.lintSource_eq)
  obtain rfl := congrArg LintResult.diagnostics heq
  have hcop : ∀ cop ∈ (Registry.ofCalls [Crowd.cop "Style/A",Crowd.cop "Style/B"]).cops,
      cop.name = "Style/A" → cop.Unswayed ∧ Config.enables {} "Style/A" cop.enabledByDefault =
        (Crowd.config (some .error)).enables "Style/A" cop.enabledByDefault := by
    intro cop hcop _
    rw [Crowd.cops_ofCalls,List.mem_pair] at hcop
    rcases hcop with rfl | rfl <;> exact ⟨fun _ _ _ => rfl,rfl⟩
  obtain ⟨a,more,ha,hmore,rfl⟩ := List.forall₂_cons_left_iff.mp (hsame rfl hcop)
  obtain ⟨b,rest,hb,hrest,rfl⟩ := List.forall₂_cons_left_iff.mp hmore
  obtain rfl := List.forall₂_nil_left_iff.mp hrest
  obtain ⟨-,hrates⟩ := hrates (Crowd.cop "Style/A") (by simp [Crowd.cops_ofCalls]) rfl
  rw [Diagnostic.SameBut,if_pos (by rfl)] at ha
  rw [Diagnostic.SameBut,if_neg (by decide)] at hb
  have hseverity : a.severity = .error :=
    hrates (fun hnone => absurd hnone (by decide)) a (.head _) (congrArg Diagnostic.copName ha)
  rw [hds',ha,hb,hseverity]
  rfl

end ScriptLint
