import Mathlib
import ScriptLint.Proofs.Discovery
import ScriptLint.Run

/-! The files that are listed and the files that are inspected. All files that are listed can be read,
but exclusion is decided once more when they are inspected, and a file that is left out then was
listed and is counted all the same. -/
namespace ScriptLint

namespace FileTree
variable {tree : FileTree} {config : Config} {targets : Targets} {paths : List String}

theorem mem_fileRoutes {route : Route} :
    route ∈ tree.fileRoutes ↔ ∃ content, (route,.file content) ∈ tree.entries := by
  rw [fileRoutes,List.mem_filterMap]
  constructor
  · rintro ⟨⟨other,e⟩,hmem,he⟩
    cases e with
    | file content =>
      cases he
      exact ⟨content,hmem⟩
    | folder => cases he
  · rintro ⟨content,hmem⟩
    exact ⟨_,hmem,rfl⟩

/-- The walk of the folder that a path leads to comes to a script. -/
def Reaches (tree : FileTree) (config : Config) (path file : String) : Prop :=
  ∃ top rules route, tree.find path = .ok (top,.folder) ∧
    Discovery.exclusions config.excluded = .ok rules ∧ route ∈ tree.fileRoutes ∧
    Discovery.reaches tree rules top route = true ∧
    file = Path.join path (.ofList (Path.unite (route.drop top.length))) ∧
    Path.isScript file = true

/-- What a walk comes to is a file under the name it is given. -/
theorem WellFormed.isFile_join {path : String} {rules : List IgnoreRule} {top route : Route}
    (htree : tree.WellFormed) (hfind : tree.find path = .ok (top,.folder))
    (hroute : route ∈ tree.fileRoutes) (hreaches : Discovery.reaches tree rules top route = true) :
    tree.isFile (Path.join path (.ofList (Path.unite (route.drop top.length)))) = true := by
  obtain ⟨content,hmem⟩ := mem_fileRoutes.mp hroute
  have hkey : route ∈ tree.entries.map (·.1) := List.mem_map_of_mem hmem
  obtain ⟨⟨names,rfl⟩,hlength⟩ : top <+: route ∧ top.length < route.length := by
    simp only [Discovery.reaches,Bool.and_eq_true,decide_eq_true_eq,
      List.isPrefixOf_iff_prefix] at hreaches
    exact hreaches.1.1
  rw [List.length_append] at hlength
  rw [List.drop_left,isFile_iff]
  refine ⟨top ++ names,content,?_⟩
  rw [find_join hfind]
  refine findFrom_names ?_ ?_ ?_ (htree.entry_of_mem hmem)
  · exact List.ne_nil_of_length_pos (by omega)
  · exact fun name hname => htree.proper _ hkey name (List.mem_append_right _ hname)
  · intro n hn
    have hway := htree.folder _ hkey (top.length + n) (by rw [List.length_append]; omega)
    rwa [List.take_length_add_append] at hway

/-- In a tree in which every way leads through folders, walks find all scripts that they come to. -/
theorem WellFormed.produces_iff {path file : String} (htree : tree.WellFormed) :
    tree.fileSystem.Produces config path file ↔ tree.Reaches config path file := by
  constructor
  · rintro ⟨hfolder,found,hfound,hfile⟩
    obtain ⟨top,hfind⟩ := isFolder_iff.mp hfolder
    obtain ⟨walked,hwalk,rfl⟩ := FileSystem.scripts_eq_ok.mp hfound
    obtain ⟨rules,top',e,hrules,hfind',rfl⟩ := walk_eq_ok.mp hwalk
    cases hfind.symm.trans hfind'
    obtain ⟨hmem,hscript⟩ := List.mem_filter.mp hfile
    obtain ⟨route,hroute,rfl⟩ := List.mem_map.mp hmem
    obtain ⟨hroute,hreaches⟩ := List.mem_filter.mp hroute
    exact ⟨top,rules,route,hfind,hrules,hroute,hreaches,rfl,(Bool.and_eq_true_iff.mp hscript).2⟩
  · rintro ⟨top,rules,route,hfind,hrules,hroute,hreaches,rfl,hscript⟩
    have hwalk := walk_eq_ok.mpr ⟨rules,top,.folder,hrules,hfind,rfl⟩
    refine ⟨isFolder_iff.mpr ⟨top,hfind⟩,_,FileSystem.scripts_eq_ok.mpr ⟨_,hwalk,rfl⟩,?_⟩
    refine List.mem_filter.mpr ⟨List.mem_map_of_mem (List.mem_filter.mpr ⟨hroute,hreaches⟩),?_⟩
    exact Bool.and_eq_true_iff.mpr ⟨htree.isFile_join hfind hroute hreaches,hscript⟩

/-- If all paths are those of files, what is found was named. -/
theorem names_of_discover (htargets : tree.discover config paths = .ok targets)
    (hpaths : ∀ path ∈ paths, tree.isFile path = true) {file : String}
    (hfile : file ∈ targets.files) : targets.Names file := by
  obtain ⟨path,hpath,hreached⟩ := FileSystem.exists_of_mem_files htargets hfile
  rcases hreached with ⟨hisFile,rfl⟩ | ⟨hfolder,-⟩
  · exact (FileSystem.names_iff htargets).mpr ⟨file,hpath,hisFile,Path.same_iff.mpr rfl⟩
  · rw [tree.fileSystem.disjoint path (hpaths path hpath)] at hfolder
    cases hfolder

end FileTree

namespace Plan
variable {plan : Plan} {options : Options} {targets : Targets} {read? : String → Option ByteArray}

/-- The files that are inspected: those that can be read and are not left out. -/
def inspected (plan : Plan) (options : Options) (targets : Targets)
    (read? : String → Option ByteArray) : List SourceFile :=
  targets.files.filterMap fun path =>
    if plan.omits options targets path then none
    else (read? path).map fun content => ⟨path,content⟩

/-- What is found in several files is what is found in those that are inspected. -/
theorem flatMap_inspectTarget :
    targets.files.flatMap (plan.inspectTarget options targets read?) =
      (plan.inspected options targets read?).flatMap plan.inspect := by
  rw [inspected]
  induction targets.files with
  | nil => rfl
  | cons path paths ih =>
    rw [List.flatMap_cons,ih,List.filterMap_cons,inspectTarget]
    by_cases homits : plan.omits options targets path = true
    · rw [if_pos homits,if_pos homits,List.nil_append]
    · rw [if_neg homits,if_neg homits]
      cases read? path with
      | none => rfl
      | some content => rfl

theorem mem_inspected {file : SourceFile} : file ∈ plan.inspected options targets read? ↔
    file.path ∈ targets.files ∧ read? file.path = some file.content ∧
      ¬ plan.omits options targets file.path = true := by
  rw [inspected,List.mem_filterMap]
  constructor
  · rintro ⟨path,hpath,hfile⟩
    by_cases homits : plan.omits options targets path = true
    · rw [if_pos homits] at hfile
      cases hfile
    · rw [if_neg homits] at hfile
      obtain ⟨content,hread,rfl⟩ := Option.map_eq_some_iff.mp hfile
      exact ⟨hpath,hread,homits⟩
  · rintro ⟨hpath,hread,homits⟩
    refine ⟨file.path,hpath,?_⟩
    rw [if_neg homits,hread]
    rfl

section Readable
variable (hread : ∀ path ∈ targets.files, ∃ content, read? path = some content)
include hread

/-- If all files can be read, those that are inspected are the ones that are not left out. -/
theorem map_path_inspected : (plan.inspected options targets read?).map (·.path) =
    targets.files.filter fun path => !plan.omits options targets path := by
  rw [inspected,List.map_filterMap,← List.filterMap_eq_filter]
  apply List.filterMap_congr
  intro path hpath
  obtain ⟨content,hcontent⟩ := hread path hpath
  by_cases homits : plan.omits options targets path = true
  · simp [homits,Option.guard]
  · simp [homits,hcontent,Option.guard]

/-- All files are inspected if and only if as many are as there are, and if and only if none of them
is left out. -/
theorem inspected_tfae (plan : Plan) (options : Options) : List.TFAE [
    ∀ path, path ∈ targets.files ↔ ∃ file ∈ plan.inspected options targets read?, file.path = path,
    (plan.inspected options targets read?).length = targets.files.length,
    ∀ path ∈ targets.files, plan.excludes path = true →
      options.forceExclusion = false ∧ targets.Names path] := by
  have hpaths : (plan.inspected options targets read?).map (·.path) = _ := map_path_inspected hread
  have hkept (path : String) : (!plan.omits options targets path) = true ↔
      (plan.excludes path = true → options.forceExclusion = false ∧ targets.Names path) := by
    rw [Bool.not_eq_true',← Bool.not_eq_true,omits_iff]
    simp
  simp only [← hkept]
  tfae_have 1 ↔ 3 := by
    simp only [← List.mem_map,hpaths,List.mem_filter]
    exact ⟨fun h path hpath => ((h path).mp hpath).2,
      fun h path => ⟨fun hpath => ⟨hpath,h path hpath⟩,And.left⟩⟩
  tfae_have 2 ↔ 3 := by
    rw [← List.length_map (·.path),hpaths,List.length_filter_eq_length_iff]
  tfae_finish

end Readable

theorem not_excludes_of_nil {config : Config} {registry : Registry} {only except : List String}
    (hplan : config.plan registry only except = .ok plan) (hnil : config.excluded = [])
    (path : String) : ¬ plan.excludes path = true := by
  obtain ⟨_,excluded,-,hexcluded,rfl⟩ := Config.plan_eq_ok.mp hplan
  rw [hnil] at hexcluded
  cases hexcluded
  simp [excludes,matchesAny]

end Plan

namespace Run
variable {tree : FileTree} {config : Config} {registry : Registry} {options : Options}
  {level : Severity} {targets : Targets}

theorem inspectFiles_listed (htargets : tree.discover config options.paths = .ok targets) :
    inspectFiles tree config registry { options with listFiles := true } level =
      .ok ⟨printed targets.files,0⟩ := by
  unfold inspectFiles
  rw [htargets]
  rfl

theorem inspectFiles_of_plan {plan : Plan}
    (htargets : tree.discover config options.paths = .ok targets)
    (hplan : config.plan registry options.only options.except = .ok plan) :
    inspectFiles tree config registry { options with listFiles := false } level =
      .ok (report options level
        ⟨Diagnostic.sort ((plan.inspected options targets tree.read?).flatMap plan.inspect),
          targets.files.length⟩) := by
  have hlint : lintFiles config registry { options with listFiles := false } targets tree.read? =
      .ok ⟨Diagnostic.sort ((plan.inspected options targets tree.read?).flatMap plan.inspect),
        targets.files.length⟩ := by
    rw [← Plan.flatMap_inspectTarget]
    exact lintFiles_of_plan hplan targets tree.read?
  unfold inspectFiles
  rw [htargets]
  dsimp only
  rw [hlint]
  rfl

theorem inspectFiles_of_fault {fault : PatternFault}
    (htargets : tree.discover config options.paths = .ok targets)
    (hplan : config.plan registry options.only options.except = .error fault) :
    inspectFiles tree config registry { options with listFiles := false } level =
      .error (.pattern fault) := by
  have hlint : lintFiles config registry { options with listFiles := false } targets tree.read? =
      .error fault := by
    rw [lintFiles,hplan]
    rfl
  unfold inspectFiles
  rw [htargets]
  dsimp only
  rw [hlint]
  rfl

end Run

/-- What is listed and what is inspected. Listing prints the files that are found, each once, and all
of them can be read. If every way leads through folders, they are the files that are named and all
scripts that the walks of the folders come to. A run without it inspects those of them that are not
left out and counts all of them. The two agree if and only if every file that is found and excluded
was named and exclusion is not forced. They do if nothing is excluded, and if exclusion is not forced
and all paths are those of files. Listing does not see faults in patterns. -/
theorem inspectFiles_listing {tree : FileTree} {config : Config} {options : Options}
    {targets : Targets} (registry : Registry) (level : Severity)
    (htargets : tree.discover config options.paths = .ok targets) :
    Run.inspectFiles tree config registry { options with listFiles := true } level =
      .ok ⟨Run.printed targets.files,0⟩ ∧
    targets.files.Nodup ∧
    (∀ path ∈ targets.files, ∃ content, tree.read? path = some content) ∧
    (tree.WellFormed → ∀ file, Path.Among file targets.files ↔
      tree.fileSystem.Named options.paths file ∨ ∃ path ∈ options.paths, ∃ walked,
        tree.Reaches config path walked ∧ Path.same file walked = true) ∧
    (∀ fault, config.plan registry options.only options.except = .error fault →
      Run.inspectFiles tree config registry { options with listFiles := false } level =
        .error (.pattern fault)) ∧
    ∀ plan, config.plan registry options.only options.except = .ok plan →
      ∃ inspected : List SourceFile,
        Run.inspectFiles tree config registry { options with listFiles := false } level =
          .ok (Run.report options level
            ⟨Diagnostic.sort (inspected.flatMap plan.inspect),targets.files.length⟩) ∧
        (inspected.map (·.path)).Sublist targets.files ∧
        (∀ file, file ∈ inspected ↔
          file.path ∈ targets.files ∧ tree.read? file.path = some file.content ∧
          ¬ (plan.excludes file.path = true ∧
            (options.forceExclusion = true ∨ ¬ targets.Names file.path))) ∧
        List.TFAE [
          ∀ path, path ∈ targets.files ↔ ∃ file ∈ inspected, file.path = path,
          inspected.length = targets.files.length,
          ∀ path ∈ targets.files, plan.excludes path = true →
            options.forceExclusion = false ∧ targets.Names path] ∧
        (config.excluded = [] ∨ options.forceExclusion = false ∧
            (∀ path ∈ options.paths, tree.isFile path = true) →
          ∀ path, path ∈ targets.files ↔ ∃ file ∈ inspected, file.path = path) := by
  have hread : ∀ path ∈ targets.files, ∃ content, tree.read? path = some content :=
    fun path hpath => FileTree.read_of_isFile (FileSystem.isFile_of_mem_files htargets hpath)
  refine ⟨Run.inspectFiles_listed htargets,FileSystem.nodup_files htargets,hread,
    fun htree file => ?_,fun fault hplan => Run.inspectFiles_of_fault htargets hplan,
    fun plan hplan => ?_⟩
  · rw [FileSystem.among_files_iff htargets,FileSystem.Walked]
    simp only [htree.produces_iff]
  have htfae := Plan.inspected_tfae hread plan options
  refine ⟨plan.inspected options targets tree.read?,Run.inspectFiles_of_plan htargets hplan,?_,
    fun file => ?_,htfae,fun hagree => ?_⟩
  · rw [Plan.map_path_inspected hread]
    exact List.filter_sublist
  · rw [Plan.mem_inspected,Plan.omits_iff]
  · apply (htfae.out 0 2).mpr
    intro path hpath hexcludes
    rcases hagree with hnil | ⟨hforce,hfiles⟩
    · exact absurd hexcludes (Plan.not_excludes_of_nil hplan hnil path)
    · exact ⟨hforce,FileTree.names_of_discover htargets hfiles hpath⟩

namespace Shunning

theorem wellFormed_tree : tree.WellFormed := by
  have hfirst : FileTree.empty.write? ["b.js".toList] "return".toUTF8 =
      some ⟨[(["b.js".toList],.file "return".toUTF8)],[]⟩ := by cbv
  have hsecond : FileTree.write? ⟨[(["b.js".toList],.file "return".toUTF8)],[]⟩
      ["lib".toList,"a.js".toList] "".toUTF8 = some tree := by cbv
  have hb : Path.IsName "b.js".toList := by constructor <;> decide
  have hlib : Path.IsName "lib".toList := by constructor <;> decide
  have ha : Path.IsName "a.js".toList := by constructor <;> decide
  refine (FileTree.wellFormed_empty.write ?_ hfirst).write ?_ hsecond
  · exact List.forall_mem_singleton.mpr hb
  · exact List.forall_mem_cons.mpr ⟨hlib,List.forall_mem_singleton.mpr ha⟩

theorem not_excludes_lib : plan.excludes "lib/a.js" = false := by cbv

def named : Options := { paths := ["b.js","lib"] }

def forced : Options := { named with forceExclusion := true }

theorem inspected_forced :
    plan.inspected forced found tree.read? = [⟨"lib/a.js","".toUTF8⟩] := by
  have hb : plan.omits forced found "b.js" = true := Plan.omits_iff.mpr ⟨excludes_eq,.inl rfl⟩
  have ha : plan.omits forced found "lib/a.js" = false := by
    rw [Plan.omits,not_excludes_lib,Bool.false_and]
  have hread : tree.read? "lib/a.js" = some "".toUTF8 := by cbv
  have hfiles : found.files = ["b.js","lib/a.js"] := rfl
  simp [Plan.inspected,hfiles,hb,ha,hread]

theorem inspect_eq : plan.inspect ⟨"lib/a.js","".toUTF8⟩ = [] := by cbv

end Shunning

theorem inspectFiles_listing_named : Shunning.tree.WellFormed ∧
    Shunning.tree.discover Shunning.config Shunning.named.paths = .ok Shunning.found ∧
    Run.inspectFiles Shunning.tree Shunning.config .default
      { Shunning.named with listFiles := true } .convention = .ok ⟨"b.js\nlib/a.js\n",0⟩ ∧
    ∃ inspected : List SourceFile, inspected.length = 2 ∧
      (∃ file ∈ inspected, file.path = "b.js") ∧
      Run.inspectFiles Shunning.tree Shunning.config .default Shunning.named .convention =
        .ok (Run.report Shunning.named .convention
          ⟨Diagnostic.sort (inspected.flatMap Shunning.plan.inspect),2⟩) := by
  have htargets : Shunning.tree.discover Shunning.config Shunning.named.paths = .ok Shunning.found :=
    Shunning.discover_eq
  obtain ⟨hlisted,-,-,-,-,hplan⟩ := inspectFiles_listing .default .convention htargets
  obtain ⟨inspected,hrun,-,-,htfae,-⟩ := hplan Shunning.plan Shunning.plan_eq
  have hkept : ∀ path ∈ Shunning.found.files, Shunning.plan.excludes path = true →
      Shunning.named.forceExclusion = false ∧ Shunning.found.Names path := by
    intro path hpath hexcludes
    rcases List.mem_pair.mp hpath with rfl | rfl
    · exact ⟨rfl,"b.js",.head _,beq_self_eq_true _⟩
    · rw [Shunning.not_excludes_lib] at hexcludes
      cases hexcludes
  have hall := (htfae.out 0 2).mpr hkept
  exact ⟨Shunning.wellFormed_tree,htargets,hlisted,inspected,(htfae.out 1 2).mpr hkept,
    (hall "b.js").mp (.head _),hrun⟩

/-- A file that is listed and counted need not be inspected. -/
theorem inspectFiles_listing_forced :
    Run.inspectFiles Shunning.tree Shunning.config .default
      { Shunning.forced with listFiles := true } .convention = .ok ⟨"b.js\nlib/a.js\n",0⟩ ∧
    Run.inspectFiles Shunning.tree Shunning.config .default Shunning.forced .convention =
      .ok ⟨"\n2 files inspected, 0 offenses detected\n",0⟩ ∧
    Shunning.plan.inspected Shunning.forced Shunning.found Shunning.tree.read? =
      [⟨"lib/a.js","".toUTF8⟩] := by
  have htargets : Shunning.tree.discover Shunning.config Shunning.forced.paths =
      .ok Shunning.found := Shunning.discover_eq
  have hplan : Shunning.config.plan .default Shunning.forced.only Shunning.forced.except =
      .ok Shunning.plan := Shunning.plan_eq
  have hsort : Diagnostic.sort [] = [] := List.mergeSort_nil
  refine ⟨Run.inspectFiles_listed htargets,?_,Shunning.inspected_forced⟩
  refine (Run.inspectFiles_of_plan htargets hplan).trans ?_
  rw [Shunning.inspected_forced,List.flatMap_singleton,Shunning.inspect_eq,hsort]
  cbv

end ScriptLint
