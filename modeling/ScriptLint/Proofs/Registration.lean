import Mathlib
import ScriptLint.Proofs.Independence
import ScriptLint.Proofs.Position

/-! The order in which cops are registered. Cops come upon a node in that order, but reports put
their offenses in an order of their own, in which each cop's stay as they were found. -/
namespace ScriptLint

/-- Of things with different names, those with one name are the same in every order. -/
lemma filter_eq_of_perm {α : Type} {key : α → String} {xs ys : List α} (hperm : xs.Perm ys)
    (hnodup : (xs.map key).Nodup) (k : String) :
    xs.filter (key · == k) = ys.filter (key · == k) := by
  have hfilter := hperm.filter (key · == k)
  have hkey : ∀ x ∈ xs.filter (key · == k), key x = k := by simp
  have hdistinct : ((xs.filter (key · == k)).map key).Nodup :=
    hnodup.sublist (List.filter_sublist.map key)
  cases hxs : xs.filter (key · == k) with
  | nil =>
    rw [hxs] at hfilter
    exact hfilter.nil_eq
  | cons x rest =>
    rw [hxs] at hfilter hkey hdistinct
    have hrest : rest = [] := by
      cases rest with
      | nil => rfl
      | cons y rest =>
        have hx := hkey x (.head _)
        have hy := hkey y (.tail _ (.head _))
        simp [hx,hy] at hdistinct
    subst hrest
    exact List.singleton_perm.mp hfilter

section Permuted
variable {config : Config} {registry registry' : Registry} {plan : Plan} {only except : List String}
  (hperm : registry.cops.Perm registry'.cops)
include hperm

/-- Cops in another order have a plan if these have one, and the same is settled about them. -/
theorem Config.plan_perm (hplan : config.plan registry only except = .ok plan) :
    ∃ cops, config.plan registry' only except = .ok { plan with cops := cops } ∧
      cops.Perm plan.cops := by
  obtain ⟨cops,excluded,hcops,hexcluded,rfl⟩ := plan_eq_ok.mp hplan
  obtain ⟨cops',hcops',hperm'⟩ := List.perm_comp_forall₂ hperm.symm hcops
  exact ⟨cops',plan_eq_ok.mpr ⟨cops',excluded,hcops',hexcluded,rfl⟩,hperm'⟩

end Permuted

/-- The cops with one name are the same in every order, so that they report the same. -/
theorem Plan.sort_inspect_perm {plan : Plan} {cops : List CopPlan} (hperm : cops.Perm plan.cops)
    (hnames : (plan.cops.map (·.cop.name)).Nodup) (hcandid : plan.Candid) (file : SourceFile) :
    Diagnostic.sort (inspect { plan with cops := cops } file) =
      Diagnostic.sort (plan.inspect file) := by
  have hcandid' : Plan.Candid { plan with cops := cops } := fun c hc => hcandid c (hperm.subset hc)
  apply Diagnostic.sort_eq_of_filter_eq (·.copName) fun h => (Diagnostic.order_eq_iff.mp h).2.2
  intro k
  have hfilter := filter_eq_of_perm hperm.symm hnames k
  rw [← inspect_restrict hcandid (· == k),← inspect_restrict hcandid' (· == k),restrict,restrict,
    hfilter]

/-- The order of registration makes no difference. If the cops of two registries are the same and
report under their names, which are all different, there is a plan for both or for neither, and if
there is one, the same is reported in the same order. -/
theorem lintSource_registration {registry registry' : Registry}
    (hperm : registry.cops.Perm registry'.cops) (hcandid : registry.Candid) (config : Config)
    (options : Options) (file : SourceFile) :
    ((∃ plan, config.plan registry options.only options.except = .ok plan) ↔
      ∃ plan, config.plan registry' options.only options.except = .ok plan) ∧
    ∀ plan, config.plan registry options.only options.except = .ok plan →
      ∃ result, lintSource config registry options file = .ok result ∧
        lintSource config registry' options file = .ok result := by
  refine ⟨⟨?_,?_⟩,?_⟩
  · rintro ⟨plan,hplan⟩
    obtain ⟨cops,hplan',-⟩ := Config.plan_perm hperm hplan
    exact ⟨_,hplan'⟩
  · rintro ⟨plan,hplan⟩
    obtain ⟨cops,hplan',-⟩ := Config.plan_perm hperm.symm hplan
    exact ⟨_,hplan'⟩
  · intro plan hplan
    obtain ⟨cops,hplan',hcops⟩ := Config.plan_perm hperm hplan
    have hdistinct : (plan.cops.map (·.cop.name)).Nodup := by
      have hnames := registry.nodup_names
      rwa [Registry.names,← Config.plan_cops hplan,List.map_map] at hnames
    have hsame := Plan.sort_inspect_perm hcops hdistinct (hcandid.plan hplan) file
    refine ⟨_,lintSource_of_plan options hplan file,?_⟩
    rw [lintSource_of_plan options hplan' file,hsame]

theorem lintSource_registration_crowd :
    lintSource {} (.ofCalls [Crowd.cop "Style/A",Crowd.cop "Style/B"]) {} Crowd.file =
        .ok ⟨[Crowd.offense "Style/A" .convention,Crowd.offense "Style/B" .convention],1⟩ ∧
      lintSource {} (.ofCalls [Crowd.cop "Style/B",Crowd.cop "Style/A"]) {} Crowd.file =
        .ok ⟨[Crowd.offense "Style/A" .convention,Crowd.offense "Style/B" .convention],1⟩ := by
  have hcops : (Registry.ofCalls [Crowd.cop "Style/B",Crowd.cop "Style/A"]).cops =
      [Crowd.cop "Style/B",Crowd.cop "Style/A"] := by
    have hnames : ([Crowd.cop "Style/B",Crowd.cop "Style/A"].map (·.name)).Nodup := by decide
    exact Registry.cops_ofCalls hnames
  have hperm : (Registry.ofCalls [Crowd.cop "Style/A",Crowd.cop "Style/B"]).cops.Perm
      (Registry.ofCalls [Crowd.cop "Style/B",Crowd.cop "Style/A"]).cops := by
    rw [Crowd.cops_ofCalls,hcops]
    exact .swap ..
  obtain ⟨-,hsame⟩ := lintSource_registration hperm Crowd.candid {} {} Crowd.file
  obtain ⟨result,hresult,hresult'⟩ := hsame _ Crowd.plan_default
  refine ⟨Crowd.lintSource_eq,?_⟩
  rw [hresult',← hresult,Crowd.lintSource_eq]

end ScriptLint
