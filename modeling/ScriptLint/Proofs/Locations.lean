import Mathlib
import ScriptLint.Source

/-! Lines and columns. The table of lines lists where the lines of a file start, in order, so that
the starts up to a byte are as many as the lines up to it and the last of them is where its own line
starts. The line of a byte is told by the newlines before it, and its column by the characters
between the last of them and the byte. -/
namespace ScriptLint

/-- Locations in the order of reading. -/
def Location.AtOrBefore (a b : Location) : Prop :=
  a.line < b.line ∨ a.line = b.line ∧ a.column ≤ b.column

/-- Locations one of which is read before the other. -/
def Location.Before (a b : Location) : Prop :=
  a.line < b.line ∨ a.line = b.line ∧ a.column < b.column

theorem Location.before_iff {a b : Location} : a.Before b ↔ ¬ b.AtOrBefore a := by
  unfold Before AtOrBefore
  omega

namespace SourceFile

/-- A location says how many whole lines come before a byte and how many characters come before it
on its own line. -/
def Locates (bytes : List UInt8) (offset : Nat) (l : Location) : Prop :=
  ∃ lines line rest, bytes = lines ++ line ++ rest ∧ lines.length + line.length = offset ∧
    (lines = [] ∨ lines.getLast? = some newline) ∧ newline ∉ line ∧
    l = ⟨1 + lines.count newline,1 + line.countP (!isContinuation ·)⟩

/-- The newlines before a byte that have another line after them. The last byte has none. -/
def breaks (bytes : List UInt8) (stop : Nat) : List Nat :=
  (List.range stop).filter fun i => bytes[i]? = some newline ∧ i + 1 < bytes.length

/-- Where the line of a byte starts: right after the last newline before it. -/
def lineStart (bytes : List UInt8) (stop : Nat) : Nat :=
  ((breaks bytes stop).map (· + 1)).getLastD 0

variable {bytes : List UInt8} {stop offset : Nat}

theorem breaks_cons (b : UInt8) (bytes : List UInt8) (stop : Nat) :
    breaks (b :: bytes) (stop + 1) =
      if b = newline ∧ bytes ≠ [] then 0 :: (breaks bytes stop).map (· + 1)
      else (breaks bytes stop).map (· + 1) := by
  have hrest : ((List.range stop).map Nat.succ).filter
      (fun i => (b :: bytes)[i]? = some newline ∧ i + 1 < (b :: bytes).length) =
        (breaks bytes stop).map (· + 1) := by
    simp [breaks,List.filter_map,Function.comp_def]
  rw [breaks,List.range_succ_eq_map,List.filter_cons,hrest]
  simp [List.length_pos_iff]

/-- Every newline in the table is one that has another line after it. -/
theorem startsAfter_eq (i : Nat) (bytes : List UInt8) :
    startsAfter i bytes = (breaks bytes bytes.length).map (i + 1 + ·) := by
  induction bytes generalizing i with
  | nil => rfl
  | cons b bytes ih =>
    rw [List.length_cons,breaks_cons]
    cases bytes with
    | nil => simp [startsAfter,breaks]
    | cons c rest =>
      have hmap : (breaks (c :: rest) (c :: rest).length).map (i + 1 + 1 + ·) =
          ((breaks (c :: rest) (c :: rest).length).map (· + 1)).map (i + 1 + ·) := by
        rw [List.map_map]
        apply List.map_congr_left
        intro j _
        dsimp only [Function.comp]
        omega
      rw [startsAfter,ih,hmap]
      by_cases hb : b = newline
      · simp [hb]
      · simp [hb]

theorem lineStarts_eq (bytes : List UInt8) :
    lineStarts bytes = 0 :: (breaks bytes bytes.length).map (· + 1) := by
  rw [lineStarts,startsAfter_eq]
  simp [Nat.add_comm]

theorem pairwise_breaks (bytes : List UInt8) (stop : Nat) : (breaks bytes stop).Pairwise (· < ·) :=
  List.pairwise_lt_range.filter _

theorem pairwise_lineStarts (bytes : List UInt8) : (lineStarts bytes).Pairwise (· < ·) := by
  rw [lineStarts_eq,List.pairwise_cons,List.pairwise_map]
  exact ⟨by simp,(pairwise_breaks bytes _).imp fun h => by omega⟩

theorem mem_breaks {i : Nat} : i ∈ breaks bytes stop ↔
    i < stop ∧ bytes[i]? = some newline ∧ i + 1 < bytes.length := by
  simp [breaks]

/-- The newlines before a byte are those of the whole file, as far as the byte. -/
theorem filter_breaks (bytes : List UInt8) (stop : Nat) :
    (breaks bytes bytes.length).filter (· < stop) = breaks bytes stop := by
  apply List.Pairwise.eq_of_mem_iff ((pairwise_breaks bytes _).filter _) (pairwise_breaks ..)
  intro i
  simp only [List.mem_filter,mem_breaks,decide_eq_true_eq]
  constructor
  · intro h
    obtain ⟨⟨_,hbreak⟩,hi⟩ := h
    exact ⟨hi,hbreak⟩
  · intro h
    obtain ⟨hi,hbreak⟩ := h
    exact ⟨⟨by omega,hbreak⟩,hi⟩

/-- The lines that start up to a byte. -/
theorem filter_lineStarts (bytes : List UInt8) (stop : Nat) :
    (lineStarts bytes).filter (· ≤ stop) = 0 :: (breaks bytes stop).map (· + 1) := by
  rw [lineStarts_eq,List.filter_cons_of_pos (by simp),List.filter_map,← filter_breaks bytes stop]
  rfl

/-- In a list that grows, what is at most `k` comes first. -/
lemma filter_le_append_filter {starts : List Nat} (h : starts.Pairwise (· < ·)) (k : Nat) :
    starts = starts.filter (· ≤ k) ++ starts.filter (k < ·) := by
  induction h with
  | nil => rfl
  | @cons s starts hs _ ih =>
    by_cases hk : s ≤ k
    · rw [List.filter_cons_of_pos (by simpa using hk),List.filter_cons_of_neg (by simpa using hk),
        List.cons_append,← ih]
    · have hnone : starts.filter (· ≤ k) = [] := by
        rw [List.filter_eq_nil_iff]
        intro t ht
        have hlt := hs t ht
        simp only [decide_eq_true_eq]
        omega
      rw [hnone,List.nil_append] at ih
      rw [List.filter_cons_of_neg (by simpa using hk),hnone,List.nil_append,
        List.filter_cons_of_pos (by simp; omega),← ih]

theorem line_location (bytes : List UInt8) (offset : Nat) :
    (locate bytes offset).line = 1 + (breaks bytes (min offset bytes.length)).length := by
  change (lineStarts bytes).countP (· ≤ min offset bytes.length) = _
  rw [List.countP_eq_length_filter,filter_lineStarts]
  simp [Nat.add_comm]

/-- The line of a byte parts the table: the lines up to it start up to the byte, and the others do
not. -/
theorem le_iff_lt_line (bytes : List UInt8) (offset : Nat) {k s : Nat}
    (h : (lineStarts bytes)[k]? = some s) :
    s ≤ min offset bytes.length ↔ k < (locate bytes offset).line := by
  have hline : (locate bytes offset).line =
      ((lineStarts bytes).filter (· ≤ min offset bytes.length)).length :=
    List.countP_eq_length_filter
  rw [filter_le_append_filter (pairwise_lineStarts bytes) (min offset bytes.length)] at h
  rw [hline]
  constructor
  · intro hs
    by_contra hk
    rw [List.getElem?_append_right (by omega)] at h
    have hlater := (List.mem_filter.mp (List.mem_of_getElem? h)).2
    rw [decide_eq_true_eq] at hlater
    omega
  · intro hk
    rw [List.getElem?_append_left hk] at h
    have hearlier := (List.mem_filter.mp (List.mem_of_getElem? h)).2
    rwa [decide_eq_true_eq] at hearlier

/-- The last line that starts up to a byte is the line of the byte. -/
theorem getElem_line (bytes : List UInt8) (offset : Nat) :
    (lineStarts bytes)[(locate bytes offset).line - 1]? =
      some (lineStart bytes (min offset bytes.length)) := by
  have hline := line_location bytes offset
  rw [filter_le_append_filter (pairwise_lineStarts bytes) (min offset bytes.length),
    filter_lineStarts,List.getElem?_append_left (by simp; omega)]
  have hlast : (locate bytes offset).line - 1 =
      (0 :: (breaks bytes (min offset bytes.length)).map (· + 1)).length - 1 := by
    simp [hline]
  rw [hlast,← List.getLast?_eq_getElem?,List.getLast?_cons,lineStart,List.getLastD_eq_getLast?]

theorem lineStart_le (bytes : List UInt8) (offset : Nat) :
    lineStart bytes (min offset bytes.length) ≤ min offset bytes.length := by
  have hline := line_location bytes offset
  exact (le_iff_lt_line bytes offset (getElem_line bytes offset)).mpr (by omega)

theorem column_location (bytes : List UInt8) (offset : Nat) :
    (locate bytes offset).column = 1 + ((bytes.take (min offset bytes.length)).drop
      (lineStart bytes (min offset bytes.length))).countP (!isContinuation ·) := by
  have hstart := getElem_line bytes offset
  unfold locate at hstart ⊢
  dsimp only at hstart ⊢
  rw [hstart,Option.getD_some,List.drop_take]

/-- A line starts at the beginning of the file or after the last newline before it. -/
lemma lineStart_cases (bytes : List UInt8) (stop : Nat) :
    breaks bytes stop = [] ∧ lineStart bytes stop = 0 ∨
      ∃ i ∈ breaks bytes stop, lineStart bytes stop = i + 1 ∧ ∀ j ∈ breaks bytes stop, j ≤ i := by
  have hsorted := pairwise_breaks bytes stop
  unfold lineStart
  rcases List.eq_nil_or_concat' (breaks bytes stop) with hnil | ⟨front,i,hbreaks⟩
  · exact .inl ⟨hnil,by rw [hnil]; rfl⟩
  · rw [hbreaks] at hsorted ⊢
    refine .inr ⟨i,by simp,by simp,?_⟩
    intro j hj
    rcases List.mem_append.mp hj with hfront | hlast
    · exact Nat.le_of_lt ((List.pairwise_append.mp hsorted).2.2 j hfront i (by simp))
    · exact Nat.le_of_eq (List.mem_singleton.mp hlast)

/-- The lines before a line end with a newline. -/
lemma take_lineStart (bytes : List UInt8) (stop : Nat) :
    bytes.take (lineStart bytes stop) = [] ∨
      (bytes.take (lineStart bytes stop)).getLast? = some newline := by
  rcases lineStart_cases bytes stop with ⟨_,hstart⟩ | ⟨i,hi,hstart,_⟩
  · exact .inl (by rw [hstart,List.take_zero])
  · right
    obtain ⟨_,hnewline,_⟩ := mem_breaks.mp hi
    simp [hstart,List.getLast?_take,hnewline]

/-- There is no newline between the start of a line and a byte of it. -/
lemma newline_notMem_line (h : offset < bytes.length) :
    newline ∉ (bytes.take offset).drop (lineStart bytes offset) := by
  intro hmem
  obtain ⟨j,hj⟩ := List.mem_iff_getElem?.mp hmem
  rw [List.getElem?_drop,List.getElem?_take] at hj
  split at hj
  case isFalse => contradiction
  case isTrue hlt =>
    have hbreak : lineStart bytes offset + j ∈ breaks bytes offset :=
      mem_breaks.mpr ⟨hlt,hj,by omega⟩
    rcases lineStart_cases bytes offset with ⟨hnil,_⟩ | ⟨i,_,hstart,hlast⟩
    · rw [hnil] at hbreak
      contradiction
    · have hle := hlast _ hbreak
      omega

/-- Before a byte, every newline has another line after it. -/
lemma length_breaks (h : offset < bytes.length) :
    (breaks bytes offset).length = (bytes.take offset).count newline := by
  induction bytes generalizing offset with
  | nil => contradiction
  | cons b bytes ih =>
    cases offset with
    | zero => rfl
    | succ offset =>
      rw [List.length_cons] at h
      have hne : bytes ≠ [] := List.ne_nil_of_length_pos (by omega)
      have hrest : (breaks bytes offset).length = (bytes.take offset).count newline := ih (by omega)
      rw [breaks_cons,List.take_succ_cons,List.count_cons]
      by_cases hb : b = newline
      · simp [hb,hne,hrest]
      · simp [hb,hrest]

theorem locates_locate (h : offset < bytes.length) :
    Locates bytes offset (locate bytes offset) := by
  have hle := lineStart_le bytes offset
  have hline := line_location bytes offset
  have hcolumn := column_location bytes offset
  rw [Nat.min_eq_left (Nat.le_of_lt h)] at hle hline hcolumn
  have hsplit : bytes.take offset =
      bytes.take (lineStart bytes offset) ++ (bytes.take offset).drop (lineStart bytes offset) := by
    conv_lhs => rw [← List.take_append_drop (lineStart bytes offset) (bytes.take offset)]
    rw [List.take_take,Nat.min_eq_left hle]
  have hcount : (breaks bytes offset).length =
      (bytes.take (lineStart bytes offset)).count newline := by
    rw [length_breaks h,hsplit,List.count_append,
      List.count_eq_zero.mpr (newline_notMem_line h),Nat.add_zero]
  refine ⟨_,_,bytes.drop offset,?_,?_,take_lineStart bytes offset,newline_notMem_line h,?_⟩
  · rw [← hsplit,List.take_append_drop]
  · rw [← List.length_append,← hsplit,List.length_take]
    omega
  · rw [← hcount,← hline,← hcolumn]

/-- What comes first among the bytes is located first. -/
theorem locate_mono {offset' : Nat} (h : offset ≤ offset') :
    (locate bytes offset).AtOrBefore (locate bytes offset') := by
  have hstop : min offset bytes.length ≤ min offset' bytes.length := by omega
  unfold locate
  dsimp only
  have hline : (lineStarts bytes).countP (· ≤ min offset bytes.length) ≤
      (lineStarts bytes).countP (· ≤ min offset' bytes.length) :=
    List.countP_mono_left fun s _ hs =>
      decide_eq_true (Nat.le_trans (of_decide_eq_true hs) hstop)
  rcases Nat.lt_or_eq_of_le hline with hlt | heq
  · exact .inl hlt
  · -- On one line the columns count from the same byte.
    refine .inr ⟨heq,?_⟩
    dsimp only
    rw [heq]
    generalize (lineStarts bytes)[(_ : Nat)]?.getD 0 = start
    have htake : (bytes.drop start).take (min offset bytes.length - start) <+:
        (bytes.drop start).take (min offset' bytes.length - start) :=
      List.take_prefix_take_left (Nat.sub_le_sub_right hstop start)
    exact Nat.add_le_add_left htake.sublist.countP_le 1

/-- On its own line, a byte that begins a character is before every later byte. -/
theorem locate_before {offset' : Nat} {b : UInt8} (hlt : offset < offset')
    (hle : offset' ≤ bytes.length) (hb : bytes[offset]? = some b)
    (hfirst : isContinuation b = false) : (locate bytes offset).Before (locate bytes offset') := by
  have hmono : (locate bytes offset).AtOrBefore (locate bytes offset') :=
    locate_mono (Nat.le_of_lt hlt)
  rcases hmono with hline | ⟨hline,_⟩
  · exact .inl hline
  refine .inr ⟨hline,?_⟩
  have hstart := getElem_line bytes offset
  rw [hline,getElem_line,Option.some_inj] at hstart
  have hbegun := lineStart_le bytes offset
  rw [column_location,column_location,← hstart]
  rw [Nat.min_eq_left hle] at hstart ⊢
  rw [Nat.min_eq_left (Nat.le_of_lt (Nat.lt_of_lt_of_le hlt hle))] at hbegun hstart ⊢
  -- Between the two bytes there is at least the character that begins at the first one.
  have hsplit : bytes.take offset' = bytes.take offset ++ (bytes.take offset').drop offset := by
    conv_lhs => rw [← List.take_append_drop offset (bytes.take offset')]
    rw [List.take_take,Nat.min_eq_left (Nat.le_of_lt hlt)]
  have hmem : b ∈ (bytes.take offset').drop offset := by
    apply List.mem_of_getElem? (i := 0)
    rw [List.getElem?_drop,List.getElem?_take_of_lt (by omega)]
    exact hb
  have hpos : 0 < ((bytes.take offset').drop offset).countP (!isContinuation ·) :=
    List.countP_pos_iff.mpr ⟨b,hmem,by simp [hfirst]⟩
  have hlength : (bytes.take offset).length = offset := by
    rw [List.length_take]
    omega
  rw [hstart,hsplit,List.drop_append_of_le_length (by omega),List.countP_append]
  omega

end SourceFile
end ScriptLint
