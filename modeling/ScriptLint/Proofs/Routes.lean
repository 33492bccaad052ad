import Mathlib
import ScriptLint.FileTree
import ScriptLint.Proofs.Paths

/-! Files and folders by the names that lead to them. In a tree that was made by writing files, making
folders and removing both, every way leads through folders, so that a path that goes on from a folder
leads where its names do. -/
namespace ScriptLint

/-- A name that a file or folder can have. -/
structure Path.IsName (part : List Char) : Prop where
  idle : isIdle part = false
  up : part ≠ ['.','.']
  slash : '/' ∉ part

lemma lookup_filter {α β : Type} [BEq α] [LawfulBEq α] {p : α × β → Bool} {a : α}
    (h : ∀ b, p (a,b) = true) (l : List (α × β)) : (l.filter p).lookup a = l.lookup a := by
  induction l with
  | nil => rfl
  | cons entry l ih =>
    obtain ⟨key,value⟩ := entry
    by_cases hkey : a == key
    · obtain rfl := eq_of_beq hkey
      rw [List.filter_cons_of_pos (h value),List.lookup_cons,List.lookup_cons,hkey]
    · rw [List.lookup_cons,Bool.eq_false_iff.mpr hkey,← ih,List.filter_cons]
      split
      · rw [List.lookup_cons,Bool.eq_false_iff.mpr hkey]
      · rfl

namespace FileTree
variable {tree tree' : FileTree} {route top names : Route} {e : Entry}

theorem entry_eq_lookup (h : route ≠ []) : tree.entry? route = tree.entries.lookup route := by
  cases route with
  | nil => contradiction
  | cons name names => rfl

/-- A tree in which every way leads through folders, by names that files and folders can have. -/
structure WellFormed (tree : FileTree) : Prop where
  nodup : (tree.entries.map (·.1)).Nodup
  nonempty : ∀ route ∈ tree.entries.map (·.1), route ≠ []
  proper : ∀ route ∈ tree.entries.map (·.1), ∀ name ∈ route, Path.IsName name
  folder : ∀ route ∈ tree.entries.map (·.1), ∀ n < route.length,
    tree.entry? (route.take n) = some .folder

theorem wellFormed_empty : empty.WellFormed := by
  constructor <;> simp [empty]

/-- A way that leads through folders to a folder. -/
def Passes (tree : FileTree) (route : Route) : Prop :=
  ∀ n ≤ route.length, tree.entry? (route.take n) = some .folder

theorem passes_nil : tree.Passes [] := by
  intro n _
  rw [List.take_nil]
  rfl

theorem passes_of_folder (hway : ∀ n < route.length, tree.entry? (route.take n) = some .folder)
    (hfolder : tree.entry? route = some .folder) : tree.Passes route := by
  intro n hn
  by_cases hlast : n = route.length
  · rw [hlast,List.take_length,hfolder]
  · exact hway n (by omega)

theorem Passes.way (h : tree.Passes route) {name : List Char} {n : Nat}
    (hn : n < (route ++ [name]).length) :
    tree.entry? ((route ++ [name]).take n) = some .folder := by
  rw [List.length_append,List.length_singleton] at hn
  rw [List.take_append_of_le_length (by omega)]
  exact h n (by omega)

namespace WellFormed

/-- What stands at a route is what was put there. -/
theorem entry_of_mem (h : tree.WellFormed) (hmem : (route,e) ∈ tree.entries) :
    tree.entry? route = some e := by
  have hroute : route ∈ tree.entries.map (·.1) := List.mem_map_of_mem hmem
  rw [entry_eq_lookup (h.nonempty route hroute)]
  obtain ⟨before,after,hentries⟩ := List.append_of_mem hmem
  refine List.lookup_eq_some_iff.mpr ⟨before,after,hentries,?_⟩
  intro other hother
  have hnodup := h.nodup
  rw [hentries,List.map_append] at hnodup
  have hne := (List.nodup_append.mp hnodup).2.2 other.1 (List.mem_map_of_mem hother) route (by simp)
  simpa using hne.symm

end WellFormed

theorem entry_put (hne : route ≠ []) (other : Route) :
    entry? (tree.put route e) other = if other = route then some e else tree.entry? other := by
  by_cases hother : other = []
  · subst hother
    rw [if_neg hne.symm]
    rfl
  · rw [entry_eq_lookup hother,entry_eq_lookup hother,put,List.lookup_append]
    by_cases hroute : other = route
    · subst hroute
      have hnone : (tree.entries.filter (·.1 != other)).lookup other = none := by
        rw [List.lookup_eq_none_iff]
        intro entry hentry
        have hne : entry.1 ≠ other := bne_iff_ne.mp (List.mem_filter.mp hentry).2
        exact bne_iff_ne.mpr hne.symm
      rw [if_pos rfl,hnone,Option.none_or]
      simp [List.lookup]
    · have hkept (e : Entry) : (((other,e) : Route × Entry).1 != route) = true :=
        bne_iff_ne.mpr hroute
      rw [if_neg hroute,lookup_filter (p := fun entry => entry.1 != route) hkept]
      have hbeq : (other == route) = false := by simpa using hroute
      simp [List.lookup,hbeq]

/-- Something can be put where a way leads through folders, unless there is a folder. -/
theorem WellFormed.put (h : tree.WellFormed) (hne : route ≠ [])
    (hproper : ∀ name ∈ route, Path.IsName name)
    (hfolder : ∀ n < route.length, tree.entry? (route.take n) = some .folder)
    (hfree : tree.entry? route ≠ some .folder) : (tree.put route e).WellFormed := by
  have hmem (other : Route) (hother : other ∈ (tree.put route e).entries.map (·.1)) :
      other = route ∨ other ∈ tree.entries.map (·.1) := by
    simp only [FileTree.put,List.map_append,List.mem_append,List.mem_map,List.mem_filter,
      List.map_singleton,List.mem_singleton] at hother
    obtain ⟨entry,⟨hentry,-⟩,rfl⟩ | hother := hother
    · exact .inr (List.mem_map_of_mem hentry)
    · exact .inl hother
  constructor
  · rw [FileTree.put,List.map_append,List.nodup_append]
    refine ⟨h.nodup.sublist (List.filter_sublist.map _),List.nodup_singleton _,?_⟩
    intro other hother _ hroute
    obtain ⟨entry,hentry,rfl⟩ := List.mem_map.mp hother
    rw [List.map_singleton,List.mem_singleton] at hroute
    rw [hroute]
    simpa using (List.mem_filter.mp hentry).2
  · intro other hother
    cases hmem other hother with
    | inl hroute => exact hroute ▸ hne
    | inr hother => exact h.nonempty other hother
  · intro other hother
    cases hmem other hother with
    | inl hroute => exact hroute ▸ hproper
    | inr hother => exact h.proper other hother
  · intro other hother n hn
    rw [entry_put hne]
    cases hmem other hother with
    | inl hroute =>
      subst hroute
      have hshort : other.take n ≠ other := fun heq => by
        have hlength := congrArg List.length heq
        rw [List.length_take] at hlength
        omega
      rw [if_neg hshort,hfolder n hn]
    | inr hother =>
      have hway := h.folder other hother n hn
      have hroute : other.take n ≠ route := fun heq => hfree (heq ▸ hway)
      rw [if_neg hroute,hway]

/-- Making folders makes a way through folders and leaves other folders alone. -/
theorem WellFormed.makeFolders {before : Route} (h : tree.WellFormed)
    (hbefore : ∀ name ∈ before, Path.IsName name) (hnames : ∀ name ∈ names, Path.IsName name)
    (hpasses : tree.Passes before) (hmade : tree.makeFolders? before names = some tree') :
    tree'.WellFormed ∧ tree'.Passes (before ++ names) := by
  induction names generalizing tree before with
  | nil =>
    cases hmade
    rw [List.append_nil]
    exact ⟨h,hpasses⟩
  | cons name names ih =>
    obtain ⟨hname,hnames⟩ := List.forall_mem_cons.mp hnames
    have hroute : ∀ part ∈ before ++ [name], Path.IsName part := by
      intro part hpart
      rw [List.mem_append,List.mem_singleton] at hpart
      cases hpart with
      | inl hpart => exact hbefore part hpart
      | inr hpart => exact hpart ▸ hname
    have hassoc : before ++ name :: names = before ++ [name] ++ names := by simp
    rw [hassoc]
    rw [makeFolders?] at hmade
    split at hmade
    · cases hmade
    · next hfolder =>
      exact ih h hroute hnames (passes_of_folder (fun _ => hpasses.way) hfolder) hmade
    · next hnone =>
      have hne : before ++ [name] ≠ [] := by simp
      have hput : (tree.put (before ++ [name]) .folder).WellFormed :=
        h.put hne hroute (fun _ => hpasses.way) (by simp [hnone])
      refine ih hput hroute hnames (passes_of_folder (fun n hn => ?_) ?_) hmade
      · rw [entry_put hne,hpasses.way hn,ite_self]
      · rw [entry_put hne,if_pos rfl]

theorem WellFormed.makeFolder (h : tree.WellFormed) (hroute : ∀ name ∈ route, Path.IsName name)
    (hmade : tree.makeFolder? route = some tree') : tree'.WellFormed :=
  (h.makeFolders (by simp) hroute passes_nil hmade).1

theorem WellFormed.write {content : ByteArray} (h : tree.WellFormed)
    (hroute : ∀ name ∈ route, Path.IsName name)
    (hwritten : tree.write? route content = some tree') : tree'.WellFormed := by
  cases route with
  | nil => cases hwritten
  | cons name names =>
    rw [write?,Option.bind_eq_bind,Option.bind_eq_some_iff] at hwritten
    obtain ⟨made,hmade,hwritten⟩ := hwritten
    obtain ⟨hmade,hpasses⟩ := h.makeFolders (by simp)
      (fun part hpart => hroute part (List.dropLast_subset _ hpart)) passes_nil hmade
    split at hwritten
    · cases hwritten
    · next hfree =>
      cases hwritten
      refine hmade.put (List.cons_ne_nil _ _) hroute ?_ hfree
      intro n hn
      have hle : n ≤ (name :: names).dropLast.length := by
        rw [List.length_dropLast]
        omega
      have hway := hpasses n hle
      rwa [List.nil_append,List.dropLast_eq_take,List.take_take,Nat.min_eq_left] at hway
      rwa [List.length_dropLast] at hle

theorem WellFormed.remove (h : tree.WellFormed) (hremoved : tree.remove? route = some tree') :
    tree'.WellFormed := by
  cases route with
  | nil => cases hremoved
  | cons name names =>
    change (if (name :: names).isPrefixOf tree.start then none else _) = _ at hremoved
    split at hremoved
    · cases hremoved
    obtain ⟨_,-,rfl⟩ := Option.map_eq_some_iff.mp hremoved
    have hmem (other : Route) (hother : other ∈ (tree.entries.filter fun entry =>
        !(name :: names).isPrefixOf entry.1).map (·.1)) :
        other ∈ tree.entries.map (·.1) ∧ ¬ (name :: names) <+: other := by
      obtain ⟨entry,hentry,rfl⟩ := List.mem_map.mp hother
      obtain ⟨hentry,hkept⟩ := List.mem_filter.mp hentry
      refine ⟨List.mem_map_of_mem hentry,fun hp => ?_⟩
      rw [List.isPrefixOf_iff_prefix.mpr hp] at hkept
      contradiction
    constructor
    · exact h.nodup.sublist (List.filter_sublist.map _)
    · exact fun other hother => h.nonempty other (hmem other hother).1
    · exact fun other hother => h.proper other (hmem other hother).1
    · intro other hother n hn
      obtain ⟨hother,hkept⟩ := hmem other hother
      have hway := h.folder other hother n hn
      by_cases hempty : other.take n = []
      · rw [hempty]
        rfl
      · rw [entry_eq_lookup hempty] at hway ⊢
        have hbelow : ¬ (name :: names) <+: other.take n :=
          fun hp => hkept (hp.trans (List.take_prefix n other))
        rw [← List.isPrefixOf_iff_prefix,Bool.not_eq_true] at hbelow
        rwa [lookup_filter (p := fun entry => !(name :: names).isPrefixOf entry.1)
          fun _ => by rw [hbelow,Bool.not_false]]

theorem find_eq {path : String} {part : List Char} {parts : List (List Char)}
    (hsplit : Path.split path.toList = part :: parts) (hne : part :: parts ≠ [[]]) :
    tree.find path = tree.findFrom (tree.startOf part) (part :: parts) := by
  unfold find
  rw [hsplit]
  split
  · contradiction
  · contradiction
  next heq =>
    cases heq
    rfl

theorem split_of_find {path : String} {x : Route × Entry} (h : tree.find path = .ok x) :
    ∃ part parts, Path.split path.toList = part :: parts ∧ part :: parts ≠ [[]] := by
  unfold find at h
  split at h
  · cases h
  · cases h
  next part parts hne hsplit =>
    exact ⟨part,parts,hsplit,fun heq => hne (List.cons.inj heq).1 (List.cons.inj heq).2⟩

theorem findFrom_eq_ok {parts : List (List Char)} : tree.findFrom top parts = .ok (route,e) ↔
    parts.foldlM tree.step top = .ok route ∧ tree.entry? route = some e := by
  rw [findFrom]
  cases parts.foldlM tree.step top with
  | error fault => simp [bind,Except.bind]
  | ok found =>
    simp only [bind,Except.bind,Except.ok.injEq]
    cases hfound : tree.entry? found with
    | none => grind
    | some other => grind

theorem step_name {name : List Char} (hfolder : tree.entry? route = some .folder)
    (hname : Path.IsName name) : tree.step route name = .ok (route ++ [name]) := by
  have hidle : ¬ Path.isIdle name = true := by simp [hname.idle]
  unfold step
  rw [hfolder]
  dsimp only
  rw [if_neg hidle,if_neg hname.up]

/-- Names lead down from a folder as long as they lead through folders. -/
theorem steps_names (hnames : ∀ name ∈ names, Path.IsName name)
    (hfolder : ∀ n < names.length, tree.entry? (top ++ names.take n) = some .folder) :
    names.foldlM tree.step top = .ok (top ++ names) := by
  induction names generalizing top with
  | nil => simp [pure,Except.pure]
  | cons name names ih =>
    obtain ⟨hname,hnames⟩ := List.forall_mem_cons.mp hnames
    have htop : tree.entry? top = some .folder := by simpa using hfolder 0 (by simp)
    have hmore : ∀ n < names.length, tree.entry? (top ++ [name] ++ names.take n) = some .folder := by
      intro n hn
      simpa using hfolder (n + 1) (by simpa using hn)
    rw [List.foldlM_cons,step_name htop hname]
    change names.foldlM tree.step (top ++ [name]) = _
    rw [ih hnames hmore,List.append_assoc]
    rfl

/-- An empty part leads nowhere. -/
theorem eq_of_step_nil {route' : Route} (h : tree.step route [] = .ok route') : route' = route := by
  unfold step at h
  split at h
  · cases h
  · cases h
  · rw [if_pos (by rfl)] at h
    exact (Except.ok.inj h).symm

/-- Paths with the same parts lead along the same route, also if one ends in a slash. -/
theorem steps_front {front parts : List (List Char)} {route' : Route}
    (hparts : parts = front ∨ parts = front ++ [[]])
    (h : parts.foldlM tree.step route = .ok route') : front.foldlM tree.step route = .ok route' := by
  cases hparts with
  | inl hparts => exact hparts ▸ h
  | inr hparts =>
    rw [hparts,List.foldlM_append] at h
    cases hfront : front.foldlM tree.step route with
    | error fault =>
      rw [hfront] at h
      cases h
    | ok found =>
      rw [hfront] at h
      change [[]].foldlM tree.step found = _ at h
      rw [List.foldlM_cons] at h
      have hlast : tree.step found [] = .ok route' := by simpa using h
      rw [eq_of_step_nil hlast]

/-- A path that goes on from a folder leads on from where the folder is. -/
theorem find_join {path : String} (hfind : tree.find path = .ok (top,e)) (name : String) :
    tree.find (Path.join path name) = tree.findFrom top (Path.split name.toList) := by
  obtain ⟨part,parts,hsplit,hone⟩ := split_of_find hfind
  rw [find_eq hsplit hone] at hfind
  obtain ⟨hsteps,-⟩ := findFrom_eq_ok.mp hfind
  have hpath : path ≠ "" := by
    rintro rfl
    exact hone hsplit.symm
  obtain ⟨front,hfront,hjoin,hdir⟩ := Path.split_join hpath name
  rw [hsplit] at hdir
  obtain ⟨rest,rfl⟩ : ∃ rest, front = part :: rest := by
    cases front with
    | nil => contradiction
    | cons other rest =>
      refine ⟨rest,?_⟩
      cases hdir with
      | inl hdir | inr hdir => rw [(List.cons.inj hdir).1]
  have hmore : (part :: rest) ++ Path.split name.toList ≠ [[]] := by
    intro heq
    have hlength := congrArg List.length heq
    have hpos := List.length_pos_of_ne_nil (Path.split_ne_nil name.toList)
    simp only [List.length_append,List.length_cons,List.length_nil] at hlength
    omega
  have hfold : ((part :: rest) ++ Path.split name.toList).foldlM tree.step (tree.startOf part) =
      (Path.split name.toList).foldlM tree.step top := by
    rw [List.foldlM_append,steps_front hdir hsteps]
    rfl
  rw [List.cons_append] at hjoin hmore hfold
  rw [find_eq hjoin hmore,findFrom,findFrom,hfold]

/-- Names that lead through folders lead to what stands at their end. -/
theorem findFrom_names (hne : names ≠ []) (hnames : ∀ name ∈ names, Path.IsName name)
    (hfolder : ∀ n < names.length, tree.entry? (top ++ names.take n) = some .folder)
    (he : tree.entry? (top ++ names) = some e) :
    tree.findFrom top (Path.split (String.ofList (Path.unite names)).toList) =
      .ok (top ++ names,e) := by
  rw [String.toList_ofList,Path.split_unite hne fun name hname => (hnames name hname).slash]
  exact findFrom_eq_ok.mpr ⟨steps_names hnames hfolder,he⟩

theorem isFile_iff {path : String} :
    tree.isFile path = true ↔ ∃ route content, tree.find path = .ok (route,.file content) := by
  unfold isFile
  split
  next route content hfind => simp [hfind]
  next hnone =>
    simp only [Bool.false_eq_true,false_iff,not_exists]
    intro route content hfind
    exact hnone route content hfind

theorem isFolder_iff {path : String} :
    tree.isFolder path = true ↔ ∃ route, tree.find path = .ok (route,.folder) := by
  unfold isFolder
  split
  next route hfind => simp [hfind]
  next hnone =>
    simp only [Bool.false_eq_true,false_iff,not_exists]
    intro route hfind
    exact hnone route hfind

/-- Every file can be read. -/
theorem read_of_isFile {path : String} (h : tree.isFile path = true) :
    ∃ content, tree.read? path = some content := by
  obtain ⟨route,content,hfind⟩ := isFile_iff.mp h
  refine ⟨content,?_⟩
  rw [read?,read,hfind]
  rfl

end FileTree
end ScriptLint
