import Mathlib
import ScriptLint.Path

/-! Texts of paths: how they divide into parts, and how paths are put in order. Paths that compare
alike are the same, so that no two paths in order are. -/
namespace ScriptLint.Path

theorem split_ne_nil (cs : List Char) : split cs ≠ [] := by
  cases cs with
  | nil => simp [split]
  | cons c cs =>
    by_cases hc : c = '/'
    · simp [split,hc]
    · rw [split,if_neg hc]
      split <;> simp

/-- A slash divides a text, whatever stands before it. -/
theorem split_append (front back : List Char) :
    split (front ++ '/' :: back) = split front ++ split back := by
  induction front with
  | nil => simp [split]
  | cons c front ih =>
    rw [List.cons_append,split,split,ih]
    by_cases hc : c = '/'
    · rw [if_pos hc,if_pos hc,List.cons_append]
    · rw [if_neg hc,if_neg hc]
      cases hs : split front with
      | nil => exact absurd hs (split_ne_nil front)
      | cons part parts => rfl

theorem split_of_notMem {cs : List Char} (h : '/' ∉ cs) : split cs = [cs] := by
  induction cs with
  | nil => rfl
  | cons c cs ih =>
    obtain ⟨hc,hcs⟩ : '/' ≠ c ∧ '/' ∉ cs := by simpa using h
    rw [split,if_neg (Ne.symm hc),ih hcs]

/-- Parts without slashes are found again in the text that is made of them. -/
theorem split_unite {parts : List (List Char)} (hne : parts ≠ []) (h : ∀ part ∈ parts, '/' ∉ part) :
    split (unite parts) = parts := by
  induction parts with
  | nil => contradiction
  | cons part parts ih =>
    obtain ⟨hpart,hparts⟩ := List.forall_mem_cons.mp h
    cases parts with
    | nil => exact split_of_notMem hpart
    | cons next parts =>
      rw [unite,split_append,split_of_notMem hpart,ih (List.cons_ne_nil _ _) hparts]
      · rfl
      · exact List.cons_ne_nil _ _

/-- The path of something in a folder has the parts of both, but for an empty part at the end of the
folder's. -/
theorem split_join {dir : String} (hdir : dir ≠ "") (name : String) :
    ∃ front, front ≠ [] ∧ split (join dir name).toList = front ++ split name.toList ∧
      (split dir.toList = front ∨ split dir.toList = front ++ [[]]) := by
  have hempty : dir.isEmpty = false := by simpa using hdir
  rw [join,hempty,Bool.false_or]
  by_cases hslash : dir.endsWith "/" = true
  · rw [if_pos hslash]
    rw [String.endsWith,String.Slice.endsWith_string_iff,String.copy_toSlice] at hslash
    obtain ⟨front,hfront⟩ := hslash
    have hdir : dir.toList = front ++ '/' :: [] := hfront.symm
    refine ⟨split front,split_ne_nil front,?_,.inr ?_⟩
    · rw [String.toList_append,hdir,List.append_assoc]
      exact split_append front name.toList
    · rw [hdir,split_append]
      rfl
  · rw [if_neg hslash]
    refine ⟨split dir.toList,split_ne_nil _,?_,.inl rfl⟩
    rw [String.toList_append,String.toList_append,List.append_assoc]
    exact split_append dir.toList name.toList

namespace Component

/-- The kinds of components in their order. -/
def rank : Component → Nat
  | .root => 0
  | .here => 1
  | .up => 2
  | .name _ => 3

def text : Component → String
  | .name s => .ofList s
  | _ => ""

theorem order_eq : order = compareLex (compareOn rank) (compareOn text) := by
  funext a b
  cases a <;> cases b <;> simp [order,compareLex,compareOn,rank,text] <;> rfl

instance : Std.TransCmp order := by
  rw [order_eq]
  infer_instance

instance : Std.LawfulEqCmp order where
  compare_self {a} := by cases a <;> simp [order]
  eq_of_compare {a b} h := by
    cases a <;> cases b <;> simp_all [order,String.ofList_inj]

end Component

theorem orderComponents_eq : orderComponents = List.compareLex Component.order := by
  funext as bs
  induction as generalizing bs with
  | nil => cases bs <;> rfl
  | cons a as ih =>
    cases bs with
    | nil => rfl
    | cons b bs => rw [orderComponents,List.compareLex_cons_cons,ih]

instance : Std.TransCmp orderComponents := by
  rw [orderComponents_eq]
  infer_instance

instance : Std.LawfulEqCmp orderComponents := by
  rw [orderComponents_eq]
  infer_instance

instance : Std.TransCmp order where
  eq_swap {a b} := by
    rw [order,order]
    exact Std.OrientedCmp.eq_swap
  isLE_trans {a b c} hab hbc := by
    rw [order] at hab hbc ⊢
    exact Std.TransCmp.isLE_trans hab hbc

/-- Paths compare alike just when they are the same. -/
theorem order_eq_iff {a b : String} : order a b = .eq ↔ same a b = true := by
  rw [order,Std.LawfulEqCmp.compare_eq_iff_eq,same,beq_iff_eq]

theorem isLE_total (a b : String) : (order a b).isLE || (order b a).isLE := by
  have hswap : order a b = (order b a).swap := Std.OrientedCmp.eq_swap
  rw [hswap]
  cases order b a <;> rfl

theorem dropRepeats_sublist (ps : List String) : (dropRepeats ps).Sublist ps := by
  induction ps with
  | nil => exact .refl _
  | cons p ps ih =>
    rw [dropRepeats]
    cases hps : dropRepeats ps with
    | nil => exact (List.nil_sublist ps).cons_cons p
    | cons q qs =>
      rw [hps] at ih
      dsimp only
      split
      · exact ((List.sublist_cons_self q qs).trans ih).cons_cons p
      · exact ih.cons_cons p

/-- Once paths are in order, leaving out repeats leaves no two that are the same. -/
theorem pairwise_dropRepeats {ps : List String}
    (h : ps.Pairwise fun a b => (order a b).isLE = true) :
    (dropRepeats ps).Pairwise fun a b => order a b = .lt := by
  induction ps with
  | nil => exact .nil
  | cons p ps ih =>
    obtain ⟨hp,hps⟩ := List.pairwise_cons.mp h
    have hsub := dropRepeats_sublist ps
    have hmore := ih hps
    rw [dropRepeats]
    cases hq : dropRepeats ps with
    | nil => exact List.pairwise_singleton _ _
    | cons q qs =>
      rw [hq] at hsub hmore
      obtain ⟨hqs,hrest⟩ := List.pairwise_cons.mp hmore
      have hle : (order p q).isLE = true := hp q (hsub.subset (.head _))
      have hlt : ∀ r ∈ qs, order p r = .lt := fun r hr =>
        Std.TransCmp.lt_of_isLE_of_lt hle (hqs r hr)
      dsimp only
      split
      · exact List.pairwise_cons.mpr ⟨hlt,hrest⟩
      · next hsame =>
        have hne : order p q ≠ .eq := fun heq => hsame (order_eq_iff.mp heq)
        have hpq : order p q = .lt := by
          cases horder : order p q with
          | lt => rfl
          | eq => exact absurd horder hne
          | gt => simp [horder] at hle
        exact List.pairwise_cons.mpr ⟨List.forall_mem_cons.mpr ⟨hpq,hlt⟩,hmore⟩

theorem pairwise_sortUnique (ps : List String) :
    (sortUnique ps).Pairwise fun a b => order a b = .lt :=
  pairwise_dropRepeats
    (List.pairwise_mergeSort (fun _ _ _ => Std.TransCmp.isLE_trans) isLE_total ps)

theorem nodup_sortUnique (ps : List String) : (sortUnique ps).Nodup := by
  refine (pairwise_sortUnique ps).imp ?_
  rintro a b hlt rfl
  have heq : order a a = .eq := Std.ReflCmp.compare_self
  rw [heq] at hlt
  contradiction

theorem mem_of_mem_sortUnique {p : String} {ps : List String} (h : p ∈ sortUnique ps) : p ∈ ps :=
  List.mem_mergeSort.mp ((dropRepeats_sublist _).subset h)

theorem exists_mem_dropRepeats {p : String} {ps : List String} (h : p ∈ ps) :
    ∃ q ∈ dropRepeats ps, same p q = true := by
  induction ps with
  | nil => cases h
  | cons a ps ih =>
    rw [dropRepeats]
    cases hps : dropRepeats ps with
    | nil =>
      rw [hps] at ih
      cases h with
      | head => exact ⟨p,.head _,by simp [same]⟩
      | tail _ h =>
        obtain ⟨_,hnil,-⟩ := ih h
        cases hnil
    | cons q qs =>
      rw [hps] at ih
      dsimp only
      split
      · next hsame =>
        cases h with
        | head => exact ⟨p,.head _,by simp [same]⟩
        | tail _ h =>
          obtain ⟨r,hr,hpr⟩ := ih h
          cases hr with
          | head =>
            -- The path that stays is the same as the one that is left out.
            simp only [same,beq_iff_eq] at hsame hpr
            exact ⟨a,.head _,by simp [same,hsame,hpr]⟩
          | tail _ hr => exact ⟨r,.tail _ hr,hpr⟩
      · cases h with
        | head => exact ⟨p,.head _,by simp [same]⟩
        | tail _ h =>
          obtain ⟨r,hr,hpr⟩ := ih h
          exact ⟨r,.tail _ hr,hpr⟩

/-- No path gets lost. -/
theorem exists_mem_sortUnique {p : String} {ps : List String} (h : p ∈ ps) :
    ∃ q ∈ sortUnique ps, same p q = true :=
  exists_mem_dropRepeats (List.mem_mergeSort.mpr h)

theorem dropRepeats_eq_self {ps : List String} (h : ps.Pairwise fun a b => order a b = .lt) :
    dropRepeats ps = ps := by
  induction h with
  | nil => rfl
  | @cons p ps hp _ ih =>
    rw [dropRepeats,ih]
    cases ps with
    | nil => rfl
    | cons q qs =>
      have hlt : order p q = .lt := hp q (.head _)
      have hne : ¬ same p q = true := by
        rw [← order_eq_iff,hlt]
        decide
      exact if_neg hne

/-- Paths that are in order, each once, stay as they are. -/
theorem sortUnique_eq_self {ps : List String} (h : ps.Pairwise fun a b => order a b = .lt) :
    sortUnique ps = ps := by
  have hle : ps.Pairwise fun a b => (order a b).isLE = true := h.imp fun hlt => by rw [hlt]; rfl
  rw [sortUnique,List.mergeSort_of_pairwise hle,dropRepeats_eq_self h]

end ScriptLint.Path
