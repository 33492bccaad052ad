import Mathlib
import ScriptLint.Cop.Registry

/-! Cops by name and by place. The map of a registry finds what a search through all cops would find,
since no two of them have the same name. Of the cops that are registered under one name the first one
counts: it keeps the place that it was given, and whatever comes later under that name changes
nothing. -/
namespace ScriptLint.Registry

/-- The registry after some cops were registered, one after the other. -/
def ofCalls (calls : List Cop) : Registry := calls.foldl register empty

variable {registry : Registry} {cop : Cop} {name : String} {i : Nat}

/-- The place of a name is any place where it stands. -/
theorem indexOf_eq_some_iff : registry.indexOf? name = some i ↔
    i < registry.size ∧ ∃ cop, registry.cops[i]? = some cop ∧ cop.name = name := by
  have hplace := registry.indexes name i
  rw [Option.map_eq_some_iff] at hplace
  refine hplace.trans ⟨?_,And.right⟩
  rintro ⟨cop,hcop,hname⟩
  exact ⟨(List.getElem?_eq_some_iff.mp hcop).1,cop,hcop,hname⟩

theorem nodup_names (registry : Registry) : registry.names.Nodup := by
  have hplace {k : Nat} {name : String} (hk : registry.names[k]? = some name) :
      registry.indexOf? name = some k := by
    rw [names,List.getElem?_map] at hk
    exact (registry.indexes name k).mpr hk
  rw [List.nodup_iff_getElem?_ne_getElem?]
  intro i j hij hj heq
  have hname := List.getElem?_eq_getElem hj
  have hi := hplace (heq.trans hname)
  rw [hplace hname] at hi
  exact Nat.ne_of_gt hij (Option.some.inj hi)

theorem get_eq_some_iff : registry.get? name = some cop ↔ cop ∈ registry.cops ∧ cop.name = name := by
  rw [get?,Option.bind_eq_some_iff]
  constructor
  · rintro ⟨i,hi,hcop⟩
    obtain ⟨-,other,hother,hname⟩ := indexOf_eq_some_iff.mp hi
    obtain rfl := Option.some.inj (hcop.symm.trans hother)
    exact ⟨List.mem_of_getElem? hcop,hname⟩
  · rintro ⟨hmem,hname⟩
    obtain ⟨i,hi⟩ := List.mem_iff_getElem?.mp hmem
    have hlt : i < registry.size := (List.getElem?_eq_some_iff.mp hi).1
    exact ⟨i,indexOf_eq_some_iff.mpr ⟨hlt,cop,hi,hname⟩,hi⟩

/-- A cop is found under its own name. -/
theorem get_name (hcop : cop ∈ registry.cops) : registry.get? cop.name = some cop :=
  get_eq_some_iff.mpr ⟨hcop,rfl⟩

/-- What the map finds is what a search finds. -/
theorem get_eq_find (registry : Registry) (name : String) :
    registry.get? name = registry.cops.find? (·.name == name) := by
  cases hfind : registry.cops.find? (·.name == name) with
  | some cop =>
    exact get_eq_some_iff.mpr ⟨List.mem_of_find?_eq_some hfind,by simpa using List.find?_some hfind⟩
  | none =>
    rw [List.find?_eq_none] at hfind
    rw [Option.eq_none_iff_forall_ne_some]
    intro cop hcop
    obtain ⟨hmem,hname⟩ := get_eq_some_iff.mp hcop
    exact hfind cop hmem (beq_iff_eq.mpr hname)

theorem indexOf_eq_none_iff : registry.indexOf? name = none ↔ name ∉ registry.names := by
  rw [Option.eq_none_iff_forall_ne_some,names,List.mem_map]
  constructor
  · rintro hnone ⟨cop,hcop,hname⟩
    obtain ⟨i,hi,-⟩ := Option.bind_eq_some_iff.mp (get_name hcop)
    exact hnone i (hname ▸ hi)
  · rintro hmem i hi
    obtain ⟨-,cop,hcop,hname⟩ := indexOf_eq_some_iff.mp hi
    exact hmem ⟨cop,List.mem_of_getElem? hcop,hname⟩

theorem register_of_mem (h : cop.name ∈ registry.names) : registry.register cop = registry := by
  unfold register
  split
  · rfl
  next hnone => exact absurd h (indexOf_eq_none_iff.mp hnone)

theorem cops_register (h : cop.name ∉ registry.names) :
    (registry.register cop).cops = registry.cops ++ [cop] := by
  unfold register
  split
  next hsome => rw [indexOf_eq_none_iff.mpr h] at hsome; cases hsome
  · rfl

/-- A cop is found under its name if no other one was found before. -/
theorem get_register (registry : Registry) (cop : Cop) (name : String) :
    (registry.register cop).get? name = (registry.get? name).or ([cop].find? (·.name == name)) := by
  by_cases h : cop.name ∈ registry.names
  · rw [register_of_mem h]
    by_cases hname : cop.name = name
    · obtain ⟨known,hknown,hsame⟩ := List.mem_map.mp h
      rw [get_eq_some_iff.mpr ⟨hknown,hsame.trans hname⟩,Option.some_or]
    · have hnone : [cop].find? (·.name == name) = none := by simp [hname]
      rw [hnone,Option.or_none]
  · rw [get_eq_find,get_eq_find,cops_register h,List.find?_append]

theorem ofCalls_concat (calls : List Cop) (cop : Cop) :
    ofCalls (calls ++ [cop]) = (ofCalls calls).register cop := by
  rw [ofCalls,List.foldl_concat]
  rfl

/-- Cops with different names are all kept. -/
theorem cops_ofCalls {calls : List Cop} (h : (calls.map (·.name)).Nodup) :
    (ofCalls calls).cops = calls := by
  induction calls using List.reverseRecOn with
  | nil => rfl
  | append_singleton calls cop ih =>
    rw [List.map_append,List.nodup_append] at h
    obtain ⟨hcalls,-,hdiffer⟩ := h
    have hnew : cop.name ∉ (ofCalls calls).names := by
      rw [names,ih hcalls]
      exact fun hmem => hdiffer cop.name hmem cop.name (.head _) rfl
    rw [ofCalls_concat,cops_register hnew,ih hcalls]

/-- The names that are known are those of the calls, each where it came first. -/
theorem names_ofCalls (calls : List Cop) :
    (ofCalls calls).names = (calls.map (·.name)).eraseDups := by
  induction calls using List.reverseRecOn with
  | nil => rfl
  | append_singleton calls cop ih =>
    rw [ofCalls_concat,List.map_append,List.eraseDups_append,← ih]
    have hknown : cop.name ∈ (ofCalls calls).names ↔ cop.name ∈ calls.map (·.name) := by
      rw [ih,List.mem_eraseDups]
    by_cases hmem : cop.name ∈ (ofCalls calls).names
    · have hnil : ([cop].map (·.name)).removeAll (calls.map (·.name)) = [] := by
        simpa [List.removeAll] using hknown.mp hmem
      rw [register_of_mem hmem,hnil,List.eraseDups_nil,List.append_nil]
    · have hself : ([cop].map (·.name)).removeAll (calls.map (·.name)) = [cop.name] := by
        simpa [List.removeAll] using hknown.not.mp hmem
      rw [names,cops_register hmem,hself,List.map_append]
      rfl

theorem get_ofCalls (calls : List Cop) (name : String) :
    (ofCalls calls).get? name = calls.find? (·.name == name) := by
  induction calls using List.reverseRecOn with
  | nil => rfl
  | append_singleton calls cop ih => rw [ofCalls_concat,get_register,ih,List.find?_append]

theorem mem_of_mem_ofCalls {calls : List Cop} (h : cop ∈ (ofCalls calls).cops) : cop ∈ calls := by
  have hget := get_name h
  rw [get_ofCalls] at hget
  exact List.mem_of_find?_eq_some hget

/-- Of the cops that are registered under a name the first one counts. The names that are known are
those of all calls without repeats, in the order in which they came first; a name has a place if and
only if a cop of that name stands there; under a name the first cop of that name is found; and to
register another one changes neither the cops nor their number nor the place of any name. -/
theorem ofCalls_firstWins (calls : List Cop) :
    (ofCalls calls).names = (calls.map (·.name)).eraseDups ∧
    (∀ name i, (ofCalls calls).indexOf? name = some i ↔
      i < (ofCalls calls).size ∧ ∃ cop, (ofCalls calls).cops[i]? = some cop ∧ cop.name = name) ∧
    (∀ name, (ofCalls calls).get? name = calls.find? (·.name == name)) ∧
    ∀ cop, (∃ earlier ∈ calls, earlier.name = cop.name) →
      ((ofCalls calls).register cop).cops = (ofCalls calls).cops ∧
      ((ofCalls calls).register cop).size = (ofCalls calls).size ∧
      ∀ name, ((ofCalls calls).register cop).indexOf? name = (ofCalls calls).indexOf? name := by
  refine ⟨names_ofCalls calls,fun name i => indexOf_eq_some_iff,get_ofCalls calls,?_⟩
  intro cop hduplicate
  obtain ⟨earlier,hearlier,hname⟩ := hduplicate
  have hmem : cop.name ∈ (ofCalls calls).names := by
    rw [names_ofCalls,List.mem_eraseDups,← hname]
    exact List.mem_map_of_mem hearlier
  rw [register_of_mem hmem]
  exact ⟨rfl,rfl,fun _ => rfl⟩

/-- Two cops of one name with another one in between. -/
theorem ofCalls_firstWins_silent :
    (ofCalls [syntaxCop,.silent "A",.silent "Lint/Syntax"]).names = ["Lint/Syntax","A"] ∧
    (ofCalls [syntaxCop,.silent "A",.silent "Lint/Syntax"]).get? "Lint/Syntax" = some syntaxCop ∧
    ((ofCalls [syntaxCop,.silent "A"]).register (.silent "Lint/Syntax")).size = 2 := by
  obtain ⟨hnames,_,hget,_⟩ := ofCalls_firstWins [syntaxCop,.silent "A",.silent "Lint/Syntax"]
  obtain ⟨_,_,_,hagain⟩ := ofCalls_firstWins [syntaxCop,.silent "A"]
  obtain ⟨_,hsize,_⟩ := hagain (.silent "Lint/Syntax") ⟨syntaxCop,.head _,rfl⟩
  exact ⟨hnames.trans (by decide),(hget "Lint/Syntax").trans rfl,hsize.trans (by decide)⟩

end ScriptLint.Registry
