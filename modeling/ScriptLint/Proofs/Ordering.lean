import Mathlib
import ScriptLint.Diagnostic

/-! The order of reports. It is total, and since offenses that compare alike keep their places, what
is sorted can be filtered before or after. -/
namespace ScriptLint.Diagnostic

instance : Std.TransCmp order :=
  inferInstanceAs (Std.TransCmp (compareLex (compareOn path)
    (compareLex (compareOn fun d : Diagnostic => d.location.line)
      (compareLex (compareOn fun d : Diagnostic => d.location.column) (compareOn copName)))))

theorem isLE_trans (a b c : Diagnostic) (hab : (order a b).isLE) (hbc : (order b c).isLE) :
    (order a c).isLE :=
  Std.TransCmp.isLE_trans hab hbc

theorem isLE_total (a b : Diagnostic) : (order a b).isLE || (order b a).isLE := by
  have hswap : order a b = (order b a).swap := Std.OrientedCmp.eq_swap
  rw [hswap]
  cases order b a <;> rfl

/-- An offense that was found first comes before all that compare alike. -/
theorem sort_cons (d : Diagnostic) (ds : List Diagnostic) :
    ∃ before after, sort (d :: ds) = before ++ d :: after ∧ sort ds = before ++ after ∧
      (∀ e ∈ before, (order d e).isLE = false) ∧ ∀ e ∈ after, (order d e).isLE = true := by
  obtain ⟨before,after,hsort,hmore,hbefore⟩ := List.mergeSort_cons isLE_trans isLE_total d ds
  refine ⟨before,after,hsort,hmore,by simpa using hbefore,?_⟩
  have hsorted := List.pairwise_mergeSort isLE_trans isLE_total (d :: ds)
  rw [hsort] at hsorted
  exact (List.pairwise_cons.mp (List.pairwise_append.mp hsorted).2.1).1

/-- What divides in two by a property divides so in one way only. -/
lemma eq_of_append_eq {p : Diagnostic → Bool} {front back front' back' : List Diagnostic}
    (heq : front ++ back = front' ++ back') (hfront : ∀ e ∈ front, p e = false)
    (hback : ∀ e ∈ back, p e = true) (hfront' : ∀ e ∈ front', p e = false)
    (hback' : ∀ e ∈ back', p e = true) : front = front' ∧ back = back' := by
  have hfilter {l r : List Diagnostic} (hl : ∀ e ∈ l, p e = false) (hr : ∀ e ∈ r, p e = true) :
      (l ++ r).filter p = r := by
    rw [List.filter_append,List.filter_eq_self.mpr hr,
      List.filter_eq_nil_iff.mpr fun e he => Bool.not_eq_true _ ▸ hl e he,List.nil_append]
  have hsame := congrArg (List.filter p) heq
  rw [hfilter hfront hback,hfilter hfront' hback'] at hsame
  subst hsame
  exact ⟨List.append_cancel_right heq,rfl⟩

/-- It makes no difference whether offenses are left out before they are sorted or after. -/
theorem sort_filter (p : Diagnostic → Bool) (ds : List Diagnostic) :
    sort (ds.filter p) = (sort ds).filter p := by
  induction ds with
  | nil => simp [sort]
  | cons d ds ih =>
    obtain ⟨before,after,hsort,hmore,hbefore,hafter⟩ := sort_cons d ds
    rw [hmore,List.filter_append] at ih
    by_cases hd : p d
    · obtain ⟨before',after',hsort',hmore',hbefore',hafter'⟩ := sort_cons d (ds.filter p)
      -- Both halves are told apart by how they compare with the new offense.
      obtain ⟨rfl,rfl⟩ := eq_of_append_eq (p := fun e => (order d e).isLE) (hmore'.symm.trans ih)
        hbefore' hafter' (fun e he => hbefore e (List.mem_of_mem_filter he))
        (fun e he => hafter e (List.mem_of_mem_filter he))
      rw [List.filter_cons_of_pos hd,hsort',hsort,List.filter_append,List.filter_cons_of_pos hd]
    · rw [List.filter_cons_of_neg hd,ih,hsort,List.filter_append,List.filter_cons_of_neg hd]

theorem pairwise_sort (ds : List Diagnostic) :
    (sort ds).Pairwise fun a b => (order a b).isLE = true :=
  List.pairwise_mergeSort isLE_trans isLE_total ds

/-- Offenses compare alike if they are of the same cop, at the same place of the same file. -/
theorem order_eq_iff {a b : Diagnostic} :
    order a b = .eq ↔ a.path = b.path ∧ a.location = b.location ∧ a.copName = b.copName := by
  have hlocation : a.location = b.location ↔
      a.location.line = b.location.line ∧ a.location.column = b.location.column := by
    cases a.location
    cases b.location
    simp
  simp [order,Ordering.then_eq_eq,hlocation,and_assoc]

/-- Offenses in order are told by their parts, if those that compare alike are in the same part. -/
theorem eq_of_filter_eq {key : Diagnostic → String}
    (hkey : ∀ {a b}, order a b = .eq → key a = key b) {ds es : List Diagnostic}
    (hds : ds.Pairwise fun a b => (order a b).isLE = true)
    (hes : es.Pairwise fun a b => (order a b).isLE = true)
    (h : ∀ k, ds.filter (key · == k) = es.filter (key · == k)) : ds = es := by
  induction ds generalizing es with
  | nil =>
    cases es with
    | nil => rfl
    | cons e es => simpa using h (key e)
  | cons d ds ih =>
    cases es with
    | nil => simpa using h (key d)
    | cons e es =>
      have hd : d ∈ e :: es := List.mem_of_mem_filter (p := (key · == key d)) (by simp [← h])
      have he : e ∈ d :: ds := List.mem_of_mem_filter (p := (key · == key e)) (by simp [h])
      have hsame : d = e := by
        cases hd with
        | head => rfl
        | tail _ hd =>
          cases he with
          | head => rfl
          | tail _ he =>
            -- Neither comes after the other, so both begin the same part.
            have heq : order d e = .eq := Std.OrientedCmp.isLE_antisymm
              (List.rel_of_pairwise_cons hds he) (List.rel_of_pairwise_cons hes hd)
            have hpart := h (key d)
            rw [List.filter_cons_of_pos (by simp),
              List.filter_cons_of_pos (by simp [hkey heq])] at hpart
            exact (List.cons.inj hpart).1
      subst hsame
      rw [ih hds.of_cons hes.of_cons]
      intro k
      have hpart := h k
      rw [List.filter_cons,List.filter_cons] at hpart
      by_cases hk : key d == k
      · rw [if_pos hk,if_pos hk] at hpart
        exact (List.cons.inj hpart).2
      · rwa [if_neg hk,if_neg hk] at hpart

/-- However the parts were mixed before, they are sorted into the same list. -/
theorem sort_eq_of_filter_eq (key : Diagnostic → String)
    (hkey : ∀ {a b}, order a b = .eq → key a = key b) {ds es : List Diagnostic}
    (h : ∀ k, ds.filter (key · == k) = es.filter (key · == k)) : sort ds = sort es := by
  apply eq_of_filter_eq hkey (pairwise_sort ds) (pairwise_sort es)
  intro k
  rw [← sort_filter,← sort_filter,h k]

/-- What makes no difference to the order can be done before offenses are sorted or after. -/
theorem sort_map {f : Diagnostic → Diagnostic} (hf : ∀ a b, order (f a) (f b) = order a b)
    (ds : List Diagnostic) : sort (ds.map f) = (sort ds).map f := by
  rw [sort,sort,List.map_mergeSort]
  intro a _ b _
  rw [hf]

end ScriptLint.Diagnostic
