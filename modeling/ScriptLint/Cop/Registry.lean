import ScriptLint.Cop.Builtin

/-! The cops that are known, each under a name of its own. A registry keeps the cops in the order in
which they were registered, and a map from their names to their places in that order. -/
namespace ScriptLint

/-- A map from names to places leads to the cops that have these names, and knows all of them. -/
def Indexes (places : List (String × Nat)) (cops : List Cop) : Prop :=
  ∀ name i, places.lookup name = some i ↔ cops[i]?.map Cop.name = some name

namespace Indexes
variable {places : List (String × Nat)} {cops : List Cop} {cop : Cop}

theorem nil : Indexes [] [] := by
  intro name i
  simp

/-- Behind the others, a new cop is the only one at its place. -/
theorem map_name_concat (cops : List Cop) (cop : Cop) (name : String) (i : Nat) :
    (cops ++ [cop])[i]?.map Cop.name = some name ↔
      cops[i]?.map Cop.name = some name ∨ cops.length = i ∧ cop.name = name := by
  rcases Nat.lt_trichotomy i cops.length with hi | rfl | hi
  · simp [List.getElem?_append_left hi,Nat.ne_of_gt hi]
  · simp
  · have hlength : (cops ++ [cop]).length ≤ i := by
      rw [List.length_append]
      exact hi
    rw [List.getElem?_eq_none hlength,List.getElem?_eq_none (Nat.le_of_lt hi)]
    simp [Nat.ne_of_lt hi]

/-- The map keeps up with a new cop that is put behind the others, if there is none of its name. -/
theorem concat (h : Indexes places cops) (hnew : places.lookup cop.name = none) :
    Indexes ((cop.name,cops.length) :: places) (cops ++ [cop]) := by
  intro name i
  rw [map_name_concat,← h name i,List.lookup_cons]
  by_cases hname : name = cop.name
  · simp [hname,hnew]
  · have hdiffer : (name == cop.name) = false := beq_eq_false_iff_ne.mpr hname
    simp [hdiffer,Ne.symm hname]

end Indexes

/-- Cops in the order in which they were registered, and their places by name. -/
structure Registry where
  cops : List Cop
  places : List (String × Nat)
  indexes : Indexes places cops

namespace Registry

def empty : Registry := ⟨[],[],.nil⟩

/-- The place of the cop with a given name. -/
def indexOf? (r : Registry) (name : String) : Option Nat := r.places.lookup name

def get? (r : Registry) (name : String) : Option Cop := (r.indexOf? name).bind fun i => r.cops[i]?

def names (r : Registry) : List String := r.cops.map (·.name)

def size (r : Registry) : Nat := r.cops.length

/-- Adds a cop, unless there is one of that name already. -/
def register (r : Registry) (cop : Cop) : Registry :=
  match h : r.indexOf? cop.name with
  | some _ => r
  | none => ⟨r.cops ++ [cop],(cop.name,r.cops.length) :: r.places,r.indexes.concat h⟩

/-- The cops that come with the linter. -/
def default : Registry := (empty.register syntaxCop).register redundancyCop

end Registry
end ScriptLint
