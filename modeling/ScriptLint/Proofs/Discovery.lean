import Mathlib
import ScriptLint.Discovery
import ScriptLint.Proofs.Batch
import ScriptLint.Proofs.Routes

/-! The files that some paths stand for, as sets. A file is found if it is named or if the walk of a
folder that is named comes to it, whatever files and folders there are and whatever a walk may be. In
what order the paths are given and how often makes no difference to the files, which are put in the
order of their paths, each once. Nor does it matter how paths are written, if files, folders and walks
are those of a tree. -/
namespace ScriptLint

namespace Path
variable {path dir name : String} {ps qs : List String}

/-- A path is the same as one of some paths. -/
def Among (path : String) (paths : List String) : Prop := ∃ p ∈ paths, same path p = true

theorem same_iff {a b : String} : same a b = true ↔ components a = components b := by
  rw [same,beq_iff_eq]

theorem same_trans {a b c : String} (hab : same a b = true) (hbc : same b c = true) :
    same a c = true :=
  same_iff.mpr ((same_iff.mp hab).trans (same_iff.mp hbc))

theorem same_symm {a b : String} (h : same a b = true) : same b a = true :=
  same_iff.mpr (same_iff.mp h).symm

theorem among_iff : Among path ps ↔ components path ∈ ps.map components := by
  simp only [Among,same_iff,List.mem_map,@eq_comm _ (components path)]

/-- Neither sorting nor leaving out repeats loses a path. -/
theorem among_sortUnique : Among path (sortUnique ps) ↔ Among path ps := by
  constructor
  · intro hamong
    obtain ⟨p,hp,hsame⟩ := hamong
    exact ⟨p,mem_of_mem_sortUnique hp,hsame⟩
  · intro hamong
    obtain ⟨p,hp,hsame⟩ := hamong
    obtain ⟨q,hq,hpq⟩ := exists_mem_sortUnique hp
    exact ⟨q,hq,same_trans hsame hpq⟩

/-- Paths in order, each once, are known by what is among them. -/
theorem map_components_eq (hps : ps.Pairwise fun a b => order a b = .lt)
    (hqs : qs.Pairwise fun a b => order a b = .lt) (h : ∀ path, Among path ps ↔ Among path qs) :
    ps.map components = qs.map components := by
  have hirrefl : Std.Irrefl fun as bs => orderComponents as bs = .lt :=
    ⟨fun as hlt => by simp [Std.ReflCmp.compare_self] at hlt⟩
  have hantisymm : Std.Antisymm fun as bs => orderComponents as bs = .lt := by
    refine ⟨fun as bs hlt hgt => ?_⟩
    have hswap : orderComponents as bs = (orderComponents bs as).swap := Std.OrientedCmp.eq_swap
    rw [hlt,hgt] at hswap
    cases hswap
  refine List.Pairwise.eq_of_mem_iff (r := fun as bs => orderComponents as bs = .lt)
    (List.pairwise_map.mpr hps) (List.pairwise_map.mpr hqs) fun cs => ?_
  constructor
  · intro hmem
    obtain ⟨p,hp,rfl⟩ := List.mem_map.mp hmem
    exact among_iff.mp ((h p).mp ⟨p,hp,same_iff.mpr rfl⟩)
  · intro hmem
    obtain ⟨q,hq,rfl⟩ := List.mem_map.mp hmem
    exact among_iff.mp ((h q).mpr ⟨q,hq,same_iff.mpr rfl⟩)

theorem components_of_split {part : List Char} {parts : List (List Char)}
    (h : split path.toList = part :: parts) :
    components path = (first? part !parts.isEmpty).toList ++ parts.filterMap inner? := by
  rw [components,labelled,h]
  dsimp only
  rw [List.filterMap_cons,List.filterMap_map]
  cases first? part !parts.isEmpty with
  | none => rfl
  | some c => rfl

/-- What follows a part matters only if the part is empty. -/
lemma first_eq {part : List Char} (h : part ≠ []) (more more' : Bool) :
    first? part more = first? part more' := by
  rw [first?,first?,if_neg h,if_neg h]

/-- Only the empty text is one empty part. -/
lemma eq_nil_of_split {cs : List Char} (h : split cs = [[]]) : cs = [] := by
  cases cs with
  | nil => rfl
  | cons c cs =>
    rw [split] at h
    split at h
    · exact absurd (List.cons.inj h).2 (split_ne_nil cs)
    · split at h <;> cases h

/-- The components of something in a folder are those of the folder and its own. -/
theorem components_join (hdir : dir ≠ "") (name : String) :
    components (join dir name) = components dir ++ (split name.toList).filterMap inner? := by
  obtain ⟨front,hne,hjoin,hfront⟩ := split_join hdir name
  obtain ⟨part,parts,rfl⟩ := List.exists_cons_of_ne_nil hne
  have hmore : (parts ++ split name.toList).isEmpty = false := by
    rw [List.isEmpty_eq_false_iff]
    exact List.append_ne_nil_of_right_ne_nil _ (split_ne_nil _)
  rw [List.cons_append] at hjoin
  rw [components_of_split hjoin,hmore,List.filterMap_append,← List.append_assoc]
  congr 1
  cases hfront with
  | inl hfront =>
    rw [components_of_split hfront]
    cases parts with
    | nil =>
      have hpart : part ≠ [] := by
        rintro rfl
        exact hdir (String.toList_eq_nil_iff.mp (eq_nil_of_split hfront))
      rw [first_eq hpart]
    | cons next parts => rfl
  | inr hfront =>
    rw [List.cons_append] at hfront
    have hmore' : (parts ++ [[]]).isEmpty = false := by simp
    rw [components_of_split hfront,hmore',List.filterMap_append]
    simp [inner?,isIdle]

theorem isScript_congr {a b : String} (h : components a = components b) :
    isScript a = isScript b := by
  rw [isScript,isScript,extension?,extension?,fileName?,fileName?,h]

theorem extension_of_isScript (h : isScript path = true) :
    ∃ ending, extension? path = some ending ∧ String.ofList ending ∈ ["js","mjs","cjs"] := by
  unfold isScript at h
  split at h
  · next ending hending => exact ⟨ending,hending,List.contains_iff_mem.mp h⟩
  · cases h

end Path

namespace FileSystem
variable {files : FileSystem} {config : Config} {targets : Targets} {paths : List String}
  {path file : String}

/-- A file is that of one of some paths. -/
def Named (files : FileSystem) (paths : List String) (file : String) : Prop :=
  ∃ path ∈ paths, files.isFile path = true ∧ Path.same file path = true

/-- The walk of the folder of a path comes to a script. -/
def Produces (files : FileSystem) (config : Config) (path file : String) : Prop :=
  files.isFolder path = true ∧ ∃ found, files.scripts config path = .ok found ∧ file ∈ found

/-- The walk of the folder of one of some paths comes to a script. -/
def Walked (files : FileSystem) (config : Config) (paths : List String) (file : String) : Prop :=
  ∃ path ∈ paths, ∃ walked, files.Produces config path walked ∧ Path.same file walked = true

theorem scripts_eq_ok {found : List String} : files.scripts config path = .ok found ↔
    ∃ walked, files.walk path config.excluded = .ok walked ∧
      found = walked.filter fun file => files.isFile file && Path.isScript file := by
  rw [scripts]
  cases files.walk path config.excluded with
  | error fault => simp [bind,Except.bind]
  | ok walked => simp [bind,Except.bind,pure,Except.pure,eq_comm]

/-- What is found in a folder is a file, and a script. -/
theorem of_mem_scripts {found : List String} (h : files.scripts config path = .ok found)
    (hfile : file ∈ found) : files.isFile file = true ∧ Path.isScript file = true := by
  obtain ⟨walked,-,rfl⟩ := scripts_eq_ok.mp h
  simpa using (List.mem_filter.mp hfile).2

/-- What a path stands for: itself, if it is that of a file, and otherwise what the walk of the
folder comes to. -/
theorem ofPath_eq_ok {x : List String × Bool} : files.ofPath config path = .ok x ↔
    files.isFile path = true ∧ x = ([path],true) ∨
    files.isFolder path = true ∧ ∃ found, files.scripts config path = .ok found ∧
      x = (found,false) := by
  rw [ofPath]
  by_cases hfile : files.isFile path = true
  · simp [hfile,files.disjoint path hfile,eq_comm]
  · rw [if_neg hfile]
    by_cases hfolder : files.isFolder path = true
    · rw [if_pos hfolder]
      cases files.scripts config path with
      | error fault => simp [hfile,Except.map]
      | ok found => simp [hfile,hfolder,Except.map,eq_comm]
    · simp [hfile,hfolder]

theorem discover_eq_ok : files.discover config paths = .ok targets ↔ ∃ found,
    List.Forall₂ (fun path x => files.ofPath config path = .ok x) paths found ∧
      targets = ⟨Path.sortUnique (found.flatMap (·.1)),
        Path.sortUnique ((found.filter (·.2)).flatMap (·.1))⟩ := by
  simp only [← mapM_eq_ok]
  rw [discover]
  cases paths.mapM (files.ofPath config) with
  | error e => simp [bind,Except.bind]
  | ok found => simp [bind,Except.bind,pure,Except.pure,eq_comm]

lemma mem_found {found : List (List String × Bool)} {x : List String × Bool}
    (h : List.Forall₂ (fun path x => files.ofPath config path = .ok x) paths found) :
    x ∈ found ↔ ∃ path ∈ paths, files.ofPath config path = .ok x := by
  constructor
  · exact exists_of_forall₂ h
  · intro hfrom
    obtain ⟨path,hpath,hx⟩ := hfrom
    obtain ⟨y,hy,hpath⟩ := exists_of_forall₂ h.flip hpath
    cases hx.symm.trans hpath
    exact hy

/-- Files are found if and only if each path alone stands for some. -/
theorem discover_isOk : (∃ targets, files.discover config paths = .ok targets) ↔
    ∀ path ∈ paths, ∃ x, files.ofPath config path = .ok x := by
  constructor
  · intro hok path hpath
    obtain ⟨targets,htargets⟩ := hok
    obtain ⟨found,hfound,-⟩ := discover_eq_ok.mp htargets
    obtain ⟨x,-,hx⟩ := exists_of_forall₂ hfound.flip hpath
    exact ⟨x,hx⟩
  · intro h
    have hfound : ∃ found, List.Forall₂ (fun path x => files.ofPath config path = .ok x) paths
        found := by
      induction paths with
      | nil => exact ⟨[],.nil⟩
      | cons path paths ih =>
        obtain ⟨hpath,hpaths⟩ := List.forall_mem_cons.mp h
        obtain ⟨x,hx⟩ := hpath
        obtain ⟨found,hfound⟩ := ih hpaths
        exact ⟨x :: found,.cons hx hfound⟩
    obtain ⟨found,hfound⟩ := hfound
    exact ⟨_,discover_eq_ok.mpr ⟨found,hfound,rfl⟩⟩

section Found
variable (h : files.discover config paths = .ok targets)
include h

theorem names_iff : targets.Names file ↔ files.Named paths file := by
  obtain ⟨found,hfound,rfl⟩ := discover_eq_ok.mp h
  refine Path.among_sortUnique.trans ⟨?_,?_⟩
  · intro hnames
    obtain ⟨named,hnamed,hsame⟩ := hnames
    obtain ⟨x,hx,hnamed⟩ := List.mem_flatMap.mp hnamed
    obtain ⟨hx,hexplicit⟩ := List.mem_filter.mp hx
    obtain ⟨path,hpath,hofPath⟩ := (mem_found hfound).mp hx
    rcases ofPath_eq_ok.mp hofPath with ⟨hfile,rfl⟩ | ⟨-,_,-,rfl⟩
    · exact ⟨path,hpath,hfile,List.mem_singleton.mp hnamed ▸ hsame⟩
    · cases hexplicit
  · intro hnamed
    obtain ⟨path,hpath,hfile,hsame⟩ := hnamed
    have hmem : ([path],true) ∈ found :=
      (mem_found hfound).mpr ⟨path,hpath,ofPath_eq_ok.mpr (.inl ⟨hfile,rfl⟩)⟩
    exact ⟨path,List.mem_flatMap.mpr ⟨_,List.mem_filter.mpr ⟨hmem,rfl⟩,.head _⟩,hsame⟩

/-- A file that is found is named or produced under just this path. -/
lemma exists_of_mem_files (hfile : file ∈ targets.files) :
    ∃ path ∈ paths, files.isFile path = true ∧ file = path ∨ files.Produces config path file := by
  obtain ⟨found,hfound,rfl⟩ := discover_eq_ok.mp h
  obtain ⟨x,hx,hfile⟩ := List.mem_flatMap.mp (Path.mem_of_mem_sortUnique hfile)
  obtain ⟨path,hpath,hofPath⟩ := (mem_found hfound).mp hx
  refine ⟨path,hpath,?_⟩
  rcases ofPath_eq_ok.mp hofPath with ⟨hisFile,rfl⟩ | ⟨hfolder,walked,hwalked,rfl⟩
  · exact .inl ⟨hisFile,List.mem_singleton.mp hfile⟩
  · exact .inr ⟨hfolder,walked,hwalked,hfile⟩

/-- A file is found if and only if it is named or walked to. -/
theorem among_files_iff :
    Path.Among file targets.files ↔ files.Named paths file ∨ files.Walked config paths file := by
  constructor
  · intro hamong
    obtain ⟨listed,hlisted,hsame⟩ := hamong
    obtain ⟨path,hpath,hreached⟩ := exists_of_mem_files h hlisted
    cases hreached with
    | inl hnamed => exact .inl ⟨path,hpath,hnamed.1,hnamed.2 ▸ hsame⟩
    | inr hproduced => exact .inr ⟨path,hpath,listed,hproduced,hsame⟩
  · obtain ⟨found,hfound,rfl⟩ := discover_eq_ok.mp h
    intro hreached
    rw [Path.among_sortUnique]
    cases hreached with
    | inl hnamed =>
      obtain ⟨path,hpath,hfile,hsame⟩ := hnamed
      have hmem : ([path],true) ∈ found :=
        (mem_found hfound).mpr ⟨path,hpath,ofPath_eq_ok.mpr (.inl ⟨hfile,rfl⟩)⟩
      exact ⟨path,List.mem_flatMap.mpr ⟨_,hmem,.head _⟩,hsame⟩
    | inr hwalked =>
      obtain ⟨path,hpath,walked,⟨hfolder,produced,hproduced,hwalked⟩,hsame⟩ := hwalked
      have hmem : (produced,false) ∈ found :=
        (mem_found hfound).mpr
          ⟨path,hpath,ofPath_eq_ok.mpr (.inr ⟨hfolder,produced,hproduced,rfl⟩)⟩
      exact ⟨walked,List.mem_flatMap.mpr ⟨_,hmem,hwalked⟩,hsame⟩

theorem pairwise_files : targets.files.Pairwise fun a b => Path.order a b = .lt := by
  obtain ⟨found,-,rfl⟩ := discover_eq_ok.mp h
  exact Path.pairwise_sortUnique _

theorem pairwise_explicit : targets.explicit.Pairwise fun a b => Path.order a b = .lt := by
  obtain ⟨found,-,rfl⟩ := discover_eq_ok.mp h
  exact Path.pairwise_sortUnique _

theorem nodup_files : targets.files.Nodup := by
  obtain ⟨found,-,rfl⟩ := discover_eq_ok.mp h
  exact Path.nodup_sortUnique _

theorem isFile_of_mem_files (hfile : file ∈ targets.files) : files.isFile file = true := by
  obtain ⟨path,-,hreached⟩ := exists_of_mem_files h hfile
  rcases hreached with ⟨hisFile,rfl⟩ | ⟨-,found,hfound,hmem⟩
  · exact hisFile
  · exact (of_mem_scripts hfound hmem).1

/-- Whatever is found without being named is a script. -/
theorem isScript_of_not_names (hfile : file ∈ targets.files) (hnames : ¬ targets.Names file) :
    Path.isScript file = true := by
  obtain ⟨path,hpath,hreached⟩ := exists_of_mem_files h hfile
  rcases hreached with ⟨hisFile,rfl⟩ | ⟨-,found,hfound,hmem⟩
  · exact absurd ((names_iff h).mpr ⟨file,hpath,hisFile,Path.same_iff.mpr rfl⟩) hnames
  · exact (of_mem_scripts hfound hmem).2

/-- Paths that name the same files and lead to the same scripts stand for the same files. -/
theorem discover_congr {paths' : List String} {targets' : Targets}
    (h' : files.discover config paths' = .ok targets')
    (hnamed : ∀ file, files.Named paths' file ↔ files.Named paths file)
    (hwalked : ∀ file, files.Walked config paths' file ↔ files.Walked config paths file) :
    targets'.files.map Path.components = targets.files.map Path.components ∧
    targets'.explicit.map Path.components = targets.explicit.map Path.components := by
  constructor
  · refine Path.map_components_eq (pairwise_files h') (pairwise_files h) fun file => ?_
    rw [among_files_iff h',among_files_iff h,hnamed,hwalked]
  · refine Path.map_components_eq (pairwise_explicit h') (pairwise_explicit h) fun file => ?_
    exact (names_iff h').trans ((hnamed file).trans (names_iff h).symm)

end Found

/-- Files and folders for which it makes no difference how a path is written, if it leads anywhere: a
path of a file is not that of a folder when it is written in another way, and the walk of a folder
comes to the same scripts. -/
structure Canonical (files : FileSystem) : Prop where
  kind : ∀ a b, Path.same a b = true → files.isFile a = true → files.isFolder b = false
  scripts : ∀ config a b found found', Path.same a b = true → files.scripts config a = .ok found →
    files.scripts config b = .ok found' → ∀ file ∈ found, Path.Among file found'

namespace Canonical
variable {paths' : List String} (hcanonical : files.Canonical)
  (h : files.discover config paths = .ok targets)
  (hpaths : ∀ path ∈ paths', Path.Among path paths)
include hcanonical h hpaths

/-- Some of the paths, in whatever way they are written, name no more files than all of them. -/
theorem named (hnamed : files.Named paths' file) : files.Named paths file := by
  obtain ⟨path',hpath',hfile',hsame'⟩ := hnamed
  obtain ⟨path,hpath,hsame⟩ := hpaths path' hpath'
  obtain ⟨x,hx⟩ := discover_isOk.mp ⟨_,h⟩ path hpath
  rcases ofPath_eq_ok.mp hx with ⟨hfile,-⟩ | ⟨hfolder,-⟩
  · exact ⟨path,hpath,hfile,Path.same_trans hsame' hsame⟩
  · rw [hcanonical.kind path' path hsame hfile'] at hfolder
    cases hfolder

/-- Some of the paths, in whatever way they are written, lead to no more scripts than all of them. -/
theorem walked (hwalked : files.Walked config paths' file) : files.Walked config paths file := by
  obtain ⟨path',hpath',walked',⟨hfolder',found',hfound',hwalked'⟩,hsame'⟩ := hwalked
  obtain ⟨path,hpath,hsame⟩ := hpaths path' hpath'
  obtain ⟨x,hx⟩ := discover_isOk.mp ⟨_,h⟩ path hpath
  rcases ofPath_eq_ok.mp hx with ⟨hfile,-⟩ | ⟨hfolder,found,hfound,-⟩
  · rw [hcanonical.kind path path' (Path.same_symm hsame) hfile] at hfolder'
    cases hfolder'
  · obtain ⟨walked,hwalked,hsame⟩ :=
      hcanonical.scripts config path' path found' found hsame hfound' hfound walked' hwalked'
    exact ⟨path,hpath,walked,⟨hfolder,found,hfound,hwalked⟩,Path.same_trans hsame' hsame⟩

end Canonical

end FileSystem

/-- Where a component leads to from a route, be there anything or not. -/
def Route.go (route : Route) : Path.Component → Route
  | .root => []
  | .here => route
  | .up => route.dropLast
  | .name s => route ++ [s]

namespace FileTree
variable {tree : FileTree} {config : Config} {path path' : String} {route route' : Route}

lemma step_go {part : List Char} (h : tree.step route part = .ok route') :
    route' = (Path.inner? part).toList.foldl Route.go route := by
  unfold step at h
  split at h
  · cases h
  · cases h
  · rw [Path.inner?]
    split at h
    next hidle =>
      rw [if_pos hidle]
      exact (Except.ok.inj h).symm
    next hidle =>
      rw [if_neg hidle]
      split at h
      next hup =>
        rw [if_pos hup]
        exact (Except.ok.inj h).symm
      next hup =>
        rw [if_neg hup]
        exact (Except.ok.inj h).symm

lemma steps_go {parts : List (List Char)} (h : parts.foldlM tree.step route = .ok route') :
    route' = (parts.filterMap Path.inner?).foldl Route.go route := by
  induction parts generalizing route with
  | nil => exact (Except.ok.inj h).symm
  | cons part parts ih =>
    rw [List.foldlM_cons] at h
    cases hstep : tree.step route part with
    | error fault =>
      rw [hstep] at h
      cases h
    | ok next =>
      rw [hstep] at h
      rw [ih h,step_go hstep,← List.foldl_append]
      congr 1
      cases hinner : Path.inner? part with
      | none => rw [List.filterMap_cons_none hinner]; rfl
      | some c => rw [List.filterMap_cons_some hinner]; rfl

/-- The route that a path leads along is known by its components. -/
theorem find_go {e : Entry} (h : tree.find path = .ok (route,e)) :
    route = (Path.components path).foldl Route.go tree.start ∧ tree.entry? route = some e := by
  obtain ⟨part,parts,hsplit,hne⟩ := split_of_find h
  rw [find_eq hsplit hne] at h
  obtain ⟨hsteps,he⟩ := findFrom_eq_ok.mp h
  refine ⟨?_,he⟩
  rw [steps_go hsteps,Path.components_of_split hsplit,List.foldl_append]
  cases part with
  | nil =>
    cases parts with
    | nil => exact absurd rfl hne
    | cons part parts => rfl
  | cons c part =>
    rw [startOf,List.isEmpty_cons,if_neg Bool.false_ne_true]
    have hfirst : ((Path.first? (c :: part) !parts.isEmpty).toList).foldl Route.go tree.start =
        (Path.inner? (c :: part)).toList.foldl Route.go tree.start := by
      rw [Path.first?,if_neg (List.cons_ne_nil _ _)]
      split
      next hdot =>
        rw [hdot]
        rfl
      · rfl
    rw [hfirst]
    cases hinner : Path.inner? (c :: part) with
    | none => rw [List.filterMap_cons_none hinner]; rfl
    | some c => rw [List.filterMap_cons_some hinner]; rfl

/-- Paths that are the same lead to the same, if both lead anywhere. -/
theorem find_unique {x x' : Route × Entry} (hsame : Path.components path = Path.components path')
    (h : tree.find path = .ok x) (h' : tree.find path' = .ok x') : x = x' := by
  obtain ⟨route,e⟩ := x
  obtain ⟨route',e'⟩ := x'
  obtain ⟨hroute,he⟩ := find_go h
  obtain ⟨hroute',he'⟩ := find_go h'
  obtain rfl : route = route' := by rw [hroute,hroute',hsame]
  rw [Option.some.inj (he.symm.trans he')]

theorem ne_empty_of_find {x : Route × Entry} (h : tree.find path = .ok x) : path ≠ "" := by
  rintro rfl
  cases h

/-- A walk comes to the files that its folder leads to, by the rules of the excluded patterns. -/
theorem walk_eq_ok {excluded found : List String} :
    tree.fileSystem.walk path excluded = .ok found ↔ ∃ rules top e,
      Discovery.exclusions excluded = .ok rules ∧ tree.find path = .ok (top,e) ∧
        found = Discovery.walk tree rules path top := by
  change (Discovery.exclusions excluded >>= _) = _ ↔ _
  cases Discovery.exclusions excluded with
  | error fault => simp [bind,Except.bind]
  | ok rules =>
    simp only [bind,Except.bind,Except.ok.injEq]
    cases tree.find path with
    | error fault => simp
    | ok x =>
      obtain ⟨top,e⟩ := x
      simp [pure,Except.pure,eq_comm]

/-- In a tree it makes no difference how a path is written. -/
theorem canonical (tree : FileTree) : tree.fileSystem.Canonical where
  kind a b hsame hfile := by
    obtain ⟨route,content,hfind⟩ := isFile_iff.mp hfile
    rw [← Bool.not_eq_true]
    intro hfolder
    obtain ⟨route',hfind'⟩ := isFolder_iff.mp hfolder
    cases find_unique (Path.same_iff.mp hsame) hfind hfind'
  scripts config a b found found' hsame hfound hfound' file hfile := by
    have hcomponents := Path.same_iff.mp hsame
    obtain ⟨walked,hwalk,rfl⟩ := FileSystem.scripts_eq_ok.mp hfound
    obtain ⟨walked',hwalk',rfl⟩ := FileSystem.scripts_eq_ok.mp hfound'
    obtain ⟨rules,top,e,hrules,hfind,rfl⟩ := walk_eq_ok.mp hwalk
    obtain ⟨rules',top',e',hrules',hfind',rfl⟩ := walk_eq_ok.mp hwalk'
    obtain rfl := Except.ok.inj (hrules.symm.trans hrules')
    cases find_unique hcomponents hfind hfind'
    obtain ⟨hmem,hscript⟩ := List.mem_filter.mp hfile
    obtain ⟨route,hroute,rfl⟩ := List.mem_map.mp hmem
    have hjoin (name : String) : Path.components (Path.join a name) =
        Path.components (Path.join b name) := by
      rw [Path.components_join (ne_empty_of_find hfind),hcomponents,
        Path.components_join (ne_empty_of_find hfind')]
    have hisFile (name : String) : tree.isFile (Path.join a name) = tree.isFile (Path.join b name) := by
      rw [isFile,isFile,find_join hfind,find_join hfind']
    refine ⟨_,List.mem_filter.mpr ⟨List.mem_map_of_mem hroute,?_⟩,Path.same_iff.mpr (hjoin _)⟩
    rw [Path.isScript_congr (hjoin _)] at hscript
    change (tree.isFile _ && _) = true at hscript ⊢
    rwa [hisFile] at hscript

end FileTree

namespace FileSystem

/-- The files that are found depend on the set of the paths. Nothing is found if one of the paths
leads neither to a file nor to a folder. Otherwise the files are put in the order of their paths,
each once; they are those that are named and those that the walks of the folders come to; those that
are not named have the ending of a script. The same paths in another order or repeated stand for
files as well, and what is found is the same. So it is if paths are the same but written in another
way, where this makes no difference to what a path leads to. -/
theorem discover_set (files : FileSystem) (config : Config) :
    (∀ paths, (∃ path ∈ paths, files.isFile path = false ∧ files.isFolder path = false) →
      ∃ fault, files.discover config paths = .error fault) ∧
    ∀ paths targets, files.discover config paths = .ok targets →
      targets.files.Pairwise (fun a b => Path.order a b = .lt) ∧
      (∀ file ∈ targets.explicit, Path.Among file targets.files) ∧
      (∀ file, targets.Names file ↔ files.Named paths file) ∧
      (∀ file, Path.Among file targets.files ↔
        files.Named paths file ∨ files.Walked config paths file) ∧
      (∀ file ∈ targets.files, ¬ targets.Names file →
        ∃ ending, Path.extension? file = some ending ∧ String.ofList ending ∈ ["js","mjs","cjs"]) ∧
      (∀ paths', (∀ path, path ∈ paths' ↔ path ∈ paths) →
        ∃ targets', files.discover config paths' = .ok targets' ∧
          targets'.files.map Path.components = targets.files.map Path.components ∧
          targets'.explicit.map Path.components = targets.explicit.map Path.components) ∧
      (files.Canonical → ∀ paths' targets',
        (∀ path, Path.Among path paths' ↔ Path.Among path paths) →
        files.discover config paths' = .ok targets' →
        targets'.files.map Path.components = targets.files.map Path.components ∧
        targets'.explicit.map Path.components = targets.explicit.map Path.components) := by
  constructor
  · intro paths hastray
    obtain ⟨path,hpath,hfile,hfolder⟩ := hastray
    cases h : files.discover config paths with
    | error fault => exact ⟨fault,rfl⟩
    | ok targets =>
      obtain ⟨x,hx⟩ := discover_isOk.mp ⟨targets,h⟩ path hpath
      have hneither := ofPath_eq_ok.mp hx
      simp [hfile,hfolder] at hneither
  · intro paths targets h
    refine ⟨pairwise_files h,?_,fun file => names_iff h,fun file => among_files_iff h,?_,?_,?_⟩
    · intro file hfile
      have hnames : targets.Names file := ⟨file,hfile,Path.same_iff.mpr rfl⟩
      exact (among_files_iff h).mpr (.inl ((names_iff h).mp hnames))
    · intro file hfile hnames
      exact Path.extension_of_isScript (isScript_of_not_names h hfile hnames)
    · intro paths' hpaths
      obtain ⟨targets',h'⟩ : ∃ targets', files.discover config paths' = .ok targets' :=
        discover_isOk.mpr fun path hpath => discover_isOk.mp ⟨_,h⟩ path ((hpaths path).mp hpath)
      refine ⟨targets',h',discover_congr h h' (fun file => ?_) fun file => ?_⟩
      · simp only [Named,hpaths]
      · simp only [Walked,hpaths]
    · intro hcanonical paths' targets' hpaths h'
      have hsub (path : String) (hpath : path ∈ paths) : Path.Among path paths' :=
        (hpaths path).mpr ⟨path,hpath,Path.same_iff.mpr rfl⟩
      have hsub' (path : String) (hpath : path ∈ paths') : Path.Among path paths :=
        (hpaths path).mp ⟨path,hpath,Path.same_iff.mpr rfl⟩
      exact discover_congr h h'
        (fun file => ⟨hcanonical.named h hsub',hcanonical.named h' hsub⟩)
        fun file => ⟨hcanonical.walked h hsub',hcanonical.walked h' hsub⟩

end FileSystem

/-! A tree with the excluded file. -/
namespace Shunning

def tree : FileTree where
  entries := [(["b.js".toList],.file "return".toUTF8),(["lib".toList],.folder),
    (["lib".toList,"a.js".toList],.file "".toUTF8)]
  start := []

/-- What is found when the excluded file and the folder are named. -/
def found : Targets := ⟨["b.js","lib/a.js"],["b.js"]⟩

theorem discover_eq : tree.discover config ["b.js","lib"] = .ok found := by
  have hfile : tree.fileSystem.ofPath config "b.js" = .ok (["b.js"],true) :=
    FileSystem.ofPath_eq_ok.mpr (.inl ⟨by cbv,rfl⟩)
  have hfolder : tree.fileSystem.ofPath config "lib" = .ok (["lib/a.js"],false) := by cbv
  have horder : Path.order "b.js" "lib/a.js" = .lt := by cbv
  have hfiles : Path.sortUnique ["b.js","lib/a.js"] = ["b.js","lib/a.js"] :=
    Path.sortUnique_eq_self (by simp [horder])
  have hexplicit : Path.sortUnique ["b.js"] = ["b.js"] := Path.sortUnique_eq_self (by simp)
  refine FileSystem.discover_eq_ok.mpr ⟨_,.cons hfile (.cons hfolder .nil),?_⟩
  exact congrArg₂ Targets.mk hfiles.symm hexplicit.symm

end Shunning

/-- The folder before the file and after it, with a slash behind it, and a path that leads nowhere. -/
theorem discover_set_shuffled :
    Shunning.tree.discover Shunning.config ["b.js","lib"] = .ok Shunning.found ∧
    (∃ targets, Shunning.tree.discover Shunning.config ["lib","b.js","lib"] = .ok targets ∧
      targets.files.map Path.components = ["b.js","lib/a.js"].map Path.components ∧
      targets.explicit.map Path.components = ["b.js"].map Path.components) ∧
    (∀ targets, Shunning.tree.discover Shunning.config ["lib/","b.js"] = .ok targets →
      targets.files.map Path.components = ["b.js","lib/a.js"].map Path.components) ∧
    Path.extension? "lib/a.js" = some "js".toList ∧
    Shunning.tree.isFile "c.js" = false ∧ Shunning.tree.isFolder "c.js" = false ∧
    ∃ fault, Shunning.tree.discover Shunning.config ["lib","c.js"] = .error fault := by
  obtain ⟨hmissing,hfound⟩ := FileSystem.discover_set Shunning.tree.fileSystem Shunning.config
  obtain ⟨-,-,-,-,-,hmembers,hwritten⟩ := hfound _ _ Shunning.discover_eq
  have hfile : Shunning.tree.isFile "c.js" = false := by cbv
  have hfolder : Shunning.tree.isFolder "c.js" = false := by cbv
  have hmem (path : String) : path ∈ ["lib","b.js","lib"] ↔ path ∈ ["b.js","lib"] := by
    simp only [List.mem_cons,List.not_mem_nil,or_false]
    tauto
  have hslash : Path.components "lib/" = Path.components "lib" := by cbv
  have hsame (path : String) : Path.Among path ["lib/","b.js"] ↔ Path.Among path ["b.js","lib"] := by
    simp only [Path.among_iff,List.map_cons,List.map_nil,hslash,List.mem_cons]
    tauto
  exact ⟨Shunning.discover_eq,hmembers _ hmem,
    fun targets htargets => (hwritten Shunning.tree.canonical _ targets hsame htargets).1,
    by cbv,hfile,hfolder,hmissing _ ⟨"c.js",by simp,hfile,hfolder⟩⟩

end ScriptLint
