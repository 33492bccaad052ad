import Mathlib
import ScriptLint.Linter
import ScriptLint.Proofs.Ordering
import ScriptLint.Proofs.Registry

/-! Cops that are asked for by name, and cops that are left out. Whatever is asked for, the same is
settled about every cop but whether it runs, so that what is reported is a part of what all cops
report, in the same order. -/
namespace ScriptLint

lemma mapM_eq_ok {α β ε : Type} {f : α → Except ε β} {l : List α} {l' : List β} :
    l.mapM f = .ok l' ↔ List.Forall₂ (fun a b => f a = .ok b) l l' := by
  induction l generalizing l' with
  | nil =>
    rw [List.mapM_nil,List.forall₂_nil_left_iff]
    exact ⟨fun h => (Except.ok.inj h).symm,fun h => h ▸ rfl⟩
  | cons a l ih =>
    rw [List.mapM_cons,List.forall₂_cons_left_iff]
    cases ha : f a with
    | error e => simp [bind,Except.bind]
    | ok b =>
      cases hl : l.mapM f with
      | error e => simp [bind,Except.bind,← ih,hl]
      | ok bs => simp [bind,Except.bind,pure,Except.pure,← ih,hl,eq_comm]

/-- What is settled about a cop when other cops are asked for. -/
def CopPlan.reselect (config : Config) (only except : List String) (c : CopPlan) : CopPlan :=
  { c with enabled := config.selects only except c.cop }

def Plan.reselect (config : Config) (only except : List String) (plan : Plan) : Plan :=
  { plan with cops := plan.cops.map (·.reselect config only except) }

namespace Config
variable {config : Config} {registry : Registry} {plan : Plan} {cop : Cop} {c : CopPlan}
  {only except : List String}

theorem planCop_eq_ok :
    config.planCop only except cop = .ok c ↔ ∃ included excluded,
      readPatterns (some cop.name) .included (config.cop cop.name).included = .ok included ∧
      readPatterns (some cop.name) .excluded (config.cop cop.name).excluded = .ok excluded ∧
      c = ⟨cop,config.cop cop.name,config.selects only except cop,included,excluded⟩ := by
  rw [planCop]
  cases readPatterns (some cop.name) .included (config.cop cop.name).included with
  | error e => simp [bind,Except.bind]
  | ok included =>
    cases readPatterns (some cop.name) .excluded (config.cop cop.name).excluded with
    | error e => simp [bind,Except.bind]
    | ok excluded => simp [bind,Except.bind,pure,Except.pure,eq_comm]

theorem plan_eq_ok :
    config.plan registry only except = .ok plan ↔ ∃ cops excluded,
      List.Forall₂ (fun cop c => config.planCop only except cop = .ok c) registry.cops cops ∧
      readPatterns none .excluded config.excluded = .ok excluded ∧
      plan = ⟨cops,excluded,config.dir?⟩ := by
  simp only [← mapM_eq_ok]
  rw [Config.plan]
  cases registry.cops.mapM (config.planCop only except) with
  | error e => simp [bind,Except.bind]
  | ok cops =>
    cases readPatterns none .excluded config.excluded with
    | error e => simp [bind,Except.bind]
    | ok excluded => simp [bind,Except.bind,pure,Except.pure,eq_comm]

/-- A plan is about the cops of its registry, in their order. -/
theorem plan_cops (h : config.plan registry only except = .ok plan) :
    plan.cops.map (·.cop) = registry.cops := by
  obtain ⟨cops,excluded,hcops,_,rfl⟩ := plan_eq_ok.mp h
  rw [eq_comm,← List.forall₂_eq_eq_eq,List.forall₂_map_right_iff]
  refine hcops.imp ?_
  intro cop c hc
  obtain ⟨included,excluded,_,_,rfl⟩ := planCop_eq_ok.mp hc
  rfl

/-- Which cops are asked for does not decide whether there is a plan, but only which cops run. -/
theorem plan_reselect (h : config.plan registry only except = .ok plan)
    (only' except' : List String) :
    config.plan registry only' except' = .ok (plan.reselect config only' except') := by
  obtain ⟨cops,excluded,hcops,hexcluded,rfl⟩ := plan_eq_ok.mp h
  refine plan_eq_ok.mpr ⟨_,excluded,?_,hexcluded,rfl⟩
  rw [List.forall₂_map_right_iff]
  refine hcops.imp ?_
  intro cop c hc
  obtain ⟨included,excluded,hincluded,hexcluded,rfl⟩ := planCop_eq_ok.mp hc
  exact planCop_eq_ok.mpr ⟨included,excluded,hincluded,hexcluded,rfl⟩

/-- Whether offenses under a name are kept: it is not left out, and it is asked for or, if none is,
enabled for the cop that has it. -/
def keeps (config : Config) (registry : Registry) (only except : List String) (name : String) :
    Bool :=
  !except.contains name &&
    if only.isEmpty then
      (registry.get? name).any fun cop => config.enables name cop.enabledByDefault
    else only.contains name

/-- A cop runs if offenses under its name are kept. -/
theorem keeps_name (hcop : cop ∈ registry.cops) :
    config.keeps registry only except cop.name = config.selects only except cop := by
  rw [keeps,selects,Registry.get_name hcop,Option.any_some,Bool.and_comm]

/-- All cops run if all are asked for. -/
theorem selects_names (hcop : cop ∈ registry.cops) :
    config.selects registry.names [] cop = true := by
  have hmem : cop.name ∈ registry.names := List.mem_map_of_mem hcop
  simp [selects,hmem,List.ne_nil_of_mem hmem]

end Config

/-- Cops that only report under their own names. -/
def Registry.Candid (registry : Registry) : Prop :=
  ∀ cop ∈ registry.cops, ∀ ctx p config, ∀ d ∈ cop.check ctx p config, d.copName = cop.name

/-- Offenses are kept by name when the cops with those names are. -/
theorem FileContext.walk_filter {ctx : FileContext} {cops : List ActiveCop} (keep : String → Bool)
    (hown : ∀ a ∈ cops, ∀ p, ∀ d ∈ a.cop.check ctx p a.config, d.copName = a.cop.name) :
    (ctx.walk cops).filter (fun d => keep d.copName) =
      ctx.walk (cops.filter fun a => keep a.cop.name) := by
  rw [walk,walk,List.filter_flatMap]
  congr 1
  funext p
  induction cops with
  | nil => rfl
  | cons a cops ih =>
    obtain ⟨ha,hmore⟩ := List.forall_mem_cons.mp hown
    have hnames : ∀ d ∈ a.offenses ctx p, d.copName = a.cop.name := by
      intro d hd
      obtain ⟨e,he,rfl⟩ := List.mem_map.mp hd
      exact ha p e he
    rw [List.flatMap_cons,List.filter_append,ih hmore]
    by_cases hk : keep a.cop.name
    · rw [List.filter_cons,if_pos hk,List.flatMap_cons]
      congr 1
      exact List.filter_eq_self.mpr fun d hd => by rwa [hnames d hd]
    · rw [List.filter_cons,if_neg hk]
      have hnone : (a.offenses ctx p).filter (fun d => keep d.copName) = [] :=
        List.filter_eq_nil_iff.mpr fun d hd => by rwa [hnames d hd]
      rw [hnone,List.nil_append]

namespace Plan
variable {config : Config} {registry : Registry} {plan : Plan} {only except : List String}

/-- Whether a cop looks at a path, were it to run. -/
def regards (plan : Plan) (c : CopPlan) (path : String) : Bool :=
  plan.runs { c with enabled := true } path

theorem runs_reselect (c : CopPlan) (path : String) :
    (plan.reselect config only except).runs (c.reselect config only except) path =
      (config.selects only except c.cop && plan.regards c path) := by
  simp [regards,runs,CopPlan.reselect,reselect,excludesFrom,candidates,Bool.and_assoc]

theorem active_eq (path : String) :
    (plan.reselect config only except).active path =
      (plan.cops.filter fun c => config.selects only except c.cop && plan.regards c path).map
        fun c => ⟨c.cop,c.config⟩ := by
  have hruns : (fun c => (plan.reselect config only except).runs c path) ∘
      CopPlan.reselect config only except =
        fun c => config.selects only except c.cop && plan.regards c path :=
    funext fun c => runs_reselect c path
  rw [active,← hruns]
  change List.map _ (List.filter _ (plan.cops.map _)) = _
  rw [List.filter_map,List.map_map]
  rfl

theorem syntaxOffenses_eq (file : SourceFile) (e : SyntaxError) :
    (plan.reselect config only except).syntaxOffenses file e =
      (((plan.cops.find? (·.cop.name == syntaxCop.name)).filter fun c =>
        config.selects only except c.cop && plan.regards c file.path).map
          fun c => (syntaxOffense file e).withSeverity c.config.severity?).toList := by
  have hfind : (plan.reselect config only except).cops.find? (·.cop.name == syntaxCop.name) =
      (plan.cops.find? (·.cop.name == syntaxCop.name)).map (·.reselect config only except) :=
    List.find?_map ..
  rw [syntaxOffenses,hfind]
  cases plan.cops.find? (·.cop.name == syntaxCop.name) with
  | none => rfl
  | some c =>
    rw [Option.map_some,Option.filter_some]
    dsimp only
    rw [runs_reselect]
    split <;> rfl

section Registered
variable (hcops : plan.cops.map (·.cop) = registry.cops)
include hcops

lemma cop_mem {c : CopPlan} (hc : c ∈ plan.cops) : c.cop ∈ registry.cops := by
  rw [← hcops]
  exact List.mem_map_of_mem hc

theorem active_reselect (path : String) :
    (plan.reselect config only except).active path =
      ((plan.reselect config registry.names []).active path).filter fun a =>
        config.keeps registry only except a.cop.name := by
  rw [active_eq,active_eq,List.filter_map,List.filter_filter]
  congr 1
  refine List.filter_congr ?_
  intro c hc
  have hcop := cop_mem hcops hc
  rw [Function.comp,Config.keeps_name hcop,Config.selects_names hcop,Bool.true_and]

theorem syntaxOffenses_reselect (file : SourceFile) (e : SyntaxError) :
    (plan.reselect config only except).syntaxOffenses file e =
      ((plan.reselect config registry.names []).syntaxOffenses file e).filter fun d =>
        config.keeps registry only except d.copName := by
  rw [syntaxOffenses_eq,syntaxOffenses_eq]
  cases hfind : plan.cops.find? (·.cop.name == syntaxCop.name) with
  | none => rfl
  | some c =>
    have hcop := cop_mem hcops (List.mem_of_find?_eq_some hfind)
    have hname : c.cop.name = syntaxCop.name := by simpa using List.find?_some hfind
    have hkeeps : config.keeps registry only except syntaxCop.name =
        config.selects only except c.cop := hname ▸ Config.keeps_name hcop
    rw [Option.filter_some,Option.filter_some,Config.selects_names hcop,Bool.true_and]
    by_cases hregards : plan.regards c file.path
    · rw [hregards,Bool.and_true,if_pos rfl,Option.map_some,Option.toList_some,
        List.filter_cons]
      change _ = if config.keeps registry only except syntaxCop.name then _ else _
      rw [hkeeps]
      split <;> rfl
    · simp [hregards]

/-- Offenses that are kept by name are those that are found when their cops are asked for. -/
theorem inspect_reselect (hcandid : registry.Candid) (file : SourceFile) :
    (plan.reselect config only except).inspect file =
      ((plan.reselect config registry.names []).inspect file).filter fun d =>
        config.keeps registry only except d.copName := by
  rw [inspect,inspect]
  split
  · next e _ => exact syntaxOffenses_reselect hcops file e
  · next tree _ =>
    rw [active_reselect hcops,FileContext.walk_filter]
    intro a ha p
    rw [active_eq] at ha
    obtain ⟨c,hc,rfl⟩ := List.mem_map.mp ha
    exact hcandid c.cop (cop_mem hcops (List.mem_of_mem_filter hc)) _ p c.config

end Registered

/-- All that is found in a file that cannot be parsed is that. -/
theorem inspect_error (plan : Plan) {file : SourceFile} {e : SyntaxError}
    (he : parseSource file.content = .error e) :
    plan.inspect file = [] ∨
      ∃ severity?, plan.inspect file = [(syntaxOffense file e).withSeverity severity?] := by
  rw [inspect,he]
  dsimp only
  unfold syntaxOffenses
  split
  · exact .inl rfl
  · next c _ =>
    split
    · exact .inr ⟨c.config.severity?,rfl⟩
    · exact .inl rfl

theorem mem_inspect {plan : Plan} {file : SourceFile} {tree : SyntaxTree} {d : Diagnostic}
    (ht : parseSource file.content = .ok tree) (hd : d ∈ plan.inspect file) :
    ∃ c ∈ plan.cops, ∃ p, ∃ found ∈ c.cop.check (.ofTree file tree) p c.config,
      d = found.withSeverity c.config.severity? := by
  rw [inspect,ht] at hd
  obtain ⟨p,-,hd⟩ := List.mem_flatMap.mp hd
  obtain ⟨a,ha,hd⟩ := List.mem_flatMap.mp hd
  obtain ⟨c,hc,rfl⟩ := List.mem_map.mp ha
  obtain ⟨found,hfound,rfl⟩ := List.mem_map.mp hd
  exact ⟨c,List.mem_of_mem_filter hc,p,found,hfound,rfl⟩

end Plan

theorem lintSource_of_plan {config : Config} {registry : Registry} {plan : Plan}
    (options : Options) (h : config.plan registry options.only options.except = .ok plan)
    (file : SourceFile) :
    lintSource config registry options file = .ok ⟨Diagnostic.sort (plan.inspect file),1⟩ := by
  rw [lintSource,h]
  rfl

theorem lintSource_eq_ok {config : Config} {registry : Registry} {options : Options}
    {file : SourceFile} {result : LintResult}
    (h : lintSource config registry options file = .ok result) :
    ∃ plan, config.plan registry options.only options.except = .ok plan ∧
      result = ⟨Diagnostic.sort (plan.inspect file),1⟩ := by
  cases hplan : config.plan registry options.only options.except with
  | error =>
    rw [lintSource,hplan] at h
    cases h
  | ok plan =>
    rw [lintSource_of_plan options hplan] at h
    exact ⟨plan,rfl,(Except.ok.inj h).symm⟩

/-- Asking for cops, and leaving some out, only filters. If the cops of a registry report under their
names, which are all different, then a run reports exactly those of the offenses that all cops report,
in the same order, whose cop is not left out and is asked for or, if none is, enabled. All that is
reported of a file that cannot be parsed is that. -/
theorem lintSource_filters {config : Config} {registry : Registry} {plan : Plan} (options : Options)
    (hplan : config.plan registry options.only options.except = .ok plan)
    (hcandid : registry.Candid) (file : SourceFile) :
    ∃ all : List Diagnostic,
      lintSource config registry { options with only := registry.names, except := [] } file =
        .ok ⟨all,1⟩ ∧
      (∀ only except, lintSource config registry { options with only := only, except := except } file =
        .ok ⟨all.filter fun d => config.keeps registry only except d.copName,1⟩) ∧
      ∀ e, parseSource file.content = .error e →
        all = [] ∨ ∃ d, all = [d] ∧ d.copName = syntaxCop.name := by
  have hlint (only except : List String) :=
    lintSource_of_plan { options with only := only, except := except }
      (Config.plan_reselect hplan only except) file
  refine ⟨_,hlint registry.names [],?_,?_⟩
  · intro only except
    rw [hlint,Plan.inspect_reselect (Config.plan_cops hplan) hcandid,Diagnostic.sort_filter]
  · intro e he
    cases Plan.inspect_error _ he with
    | inl hnone =>
      rw [hnone]
      exact .inl List.mergeSort_nil
    | inr hone =>
      obtain ⟨severity?,hone⟩ := hone
      rw [hone]
      exact .inr ⟨_,List.mergeSort_singleton _,rfl⟩

theorem mem_redundancyCheck {ctx : FileContext} {p : Position} {d : Diagnostic}
    (hd : d ∈ redundancyCheck ctx p) :
    ∃ found : Finding, d = .ofOffset ctx.file found.node.span.start .convention redundancyName
      found.redundancy.message := by
  unfold redundancyCheck at hd
  split at hd
  · cases hd
  · split at hd
    · next found _ => exact ⟨found,List.mem_singleton.mp hd⟩
    · cases hd
    · cases hd

namespace Registry

theorem cops_default : default.cops = [syntaxCop,redundancyCop] := by
  have hnames : ([syntaxCop,redundancyCop].map (·.name)).Nodup := by decide
  exact cops_ofCalls hnames

theorem candid_default : default.Candid := by
  intro cop hcop ctx p config d hd
  rw [cops_default,List.mem_pair] at hcop
  cases hcop with
  | inl hcop =>
    subst hcop
    cases hd
  | inr hcop =>
    subst hcop
    obtain ⟨found,rfl⟩ := mem_redundancyCheck hd
    rfl

end Registry

theorem Config.plan_default (only : List String) : Config.plan {} .default only [] =
    .ok ⟨[⟨syntaxCop,{},Config.selects {} only [] syntaxCop,[],[]⟩,
      ⟨redundancyCop,{},Config.selects {} only [] redundancyCop,[],[]⟩],[],none⟩ := by
  rw [Config.plan,Registry.cops_default]
  rfl

/-- What is said of a file that cannot be parsed is that it cannot, if the cop for that looks at it. -/
theorem Plan.inspect_refused {plan : Plan} {c : CopPlan} {file : SourceFile} {e : SyntaxError}
    (he : parseSource file.content = .error e)
    (hc : plan.cops.find? (·.cop.name == syntaxCop.name) = some c)
    (hruns : plan.runs c file.path = true) :
    plan.inspect file = [(syntaxOffense file e).withSeverity c.config.severity?] := by
  rw [inspect,he]
  dsimp only
  rw [syntaxOffenses,hc]
  exact if_pos hruns

theorem lintSource_refused {only : List String} {file : SourceFile} {e : SyntaxError}
    (hs : Config.selects {} only [] syntaxCop) (he : parseSource file.content = .error e) :
    lintSource {} .default { only := only } file = .ok ⟨[syntaxOffense file e],1⟩ := by
  rw [lintSource_of_plan _ (Config.plan_default only),
    Plan.inspect_refused he (List.find?_cons_of_pos (by rfl))
      (by simp [Plan.runs,Plan.excludesFrom,matchesAny,hs])]
  exact congrArg (fun ds => Except.ok (LintResult.mk ds 1)) (List.mergeSort_singleton _)

/-! A return outside of every function, which is a matter of syntax. -/
namespace Astray

def file : SourceFile := ⟨"a.js","return".toUTF8⟩

def offense : Diagnostic := ⟨"a.js",⟨1,1⟩,.fatal,"Lint/Syntax","`return` outside of function"⟩

theorem parseSource_eq : parseSource file.content = .error ⟨.returnOutsideFunction,0⟩ := by cbv

theorem location_eq : file.location 0 = ⟨1,1⟩ := by cbv

theorem syntaxOffense_eq : syntaxOffense file ⟨.returnOutsideFunction,0⟩ = offense := by
  change Diagnostic.mk "a.js" (file.location 0) .fatal "Lint/Syntax" "`return` outside of function" = _
  rw [location_eq]
  rfl

theorem lintSource_eq :
    lintSource {} .default { only := Registry.default.names } file = .ok ⟨[offense],1⟩ := by
  have hselects : Config.selects {} Registry.default.names [] syntaxCop :=
    Config.selects_names (by simp [Registry.cops_default])
  rw [lintSource_refused hselects parseSource_eq,syntaxOffense_eq]

end Astray

theorem lintSource_filters_sample :
    Registry.default.Candid ∧
      lintSource {} .default { only := Registry.default.names } Astray.file =
        .ok ⟨[Astray.offense],1⟩ ∧
      lintSource {} .default { except := ["Lint/Syntax"] } Astray.file = .ok ⟨[],1⟩ := by
  obtain ⟨all,hall,hfilter,_⟩ := lintSource_filters {} (Config.plan_default [])
    Registry.candid_default Astray.file
  have heq : LintResult.mk all 1 = ⟨[Astray.offense],1⟩ :=
    Except.ok.inj (hall.symm.trans Astray.lintSource_eq)
  obtain rfl : all = [Astray.offense] := congrArg LintResult.diagnostics heq
  exact ⟨Registry.candid_default,hall,hfilter [] ["Lint/Syntax"]⟩

end ScriptLint
