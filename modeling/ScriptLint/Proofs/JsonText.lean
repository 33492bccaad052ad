import Mathlib
import ScriptLint.Report.Json

/-! Texts of JSON. A grammar says which texts stand for which values, with blanks wherever they may
be and all spellings of a character, and a reader finds the value of every such text. So no text
stands for two values. -/
namespace ScriptLint.Report.Json

/-- The characters that may stand between the parts of a text. -/
def isSpace (c : Char) : Bool := c == ' ' || c == '\t' || c == '\n' || c == '\r'

def Blank (cs : List Char) : Prop := ∀ c ∈ cs, isSpace c

/-- The characters that have a short escape, with the letter of it. -/
def escapes : List (Char × Char) :=
  [('"','"'),('\\','\\'),('/','/'),('\x08','b'),('\x0c','f'),('\n','n'),('\r','r'),('\t','t')]

def hexValue? (c : Char) : Option Nat :=
  if c.isDigit then some (c.toNat - 48)
  else if 'a' ≤ c ∧ c ≤ 'f' then some (c.toNat - 87)
  else if 'A' ≤ c ∧ c ≤ 'F' then some (c.toNat - 55)
  else none

/-- The number that hexadecimal digits stand for. -/
def hexNumber? (digits : List Char) : Option Nat :=
  (digits.mapM hexValue?).map fun values => values.foldl (fun n v => 16 * n + v) 0

/-- Four hexadecimal digits and their number, which is a unit of a text in 16 bits. -/
def IsUnit (digits : List Char) (n : Nat) : Prop := digits.length = 4 ∧ hexNumber? digits = some n

def isHighHalf (n : Nat) : Bool := 0xD800 ≤ n && n < 0xDC00

def isLowHalf (n : Nat) : Bool := 0xDC00 ≤ n && n < 0xE000

/-- The spellings of a character of a string: as itself, by a letter, by its number, or by the numbers
of the two halves that stand for it. -/
inductive Spells : Char → List Char → Prop
  | plain {c : Char} (control : 0x20 ≤ c.toNat) (quote : c ≠ '"') (escape : c ≠ '\\') : Spells c [c]
  | short {c letter : Char} (known : (c,letter) ∈ escapes) : Spells c ['\\',letter]
  | unit {c : Char} {digits : List Char} (number : IsUnit digits c.toNat) :
      Spells c ('\\' :: 'u' :: digits)
  | halves {c : Char} {high low : List Char} {m n : Nat} (first : IsUnit high m)
      (second : IsUnit low n) (isHigh : isHighHalf m) (isLow : isLowHalf n)
      (number : c.toNat = 0x10000 + 0x400 * (m - 0xD800) + (n - 0xDC00)) :
      Spells c ('\\' :: 'u' :: (high ++ '\\' :: 'u' :: low))

/-- A text of characters, each of them in one of its spellings. -/
inductive Spelled : List Char → List Char → Prop
  | nil : Spelled [] []
  | cons {c : Char} {cs text more : List Char} (first : Spells c text) (others : Spelled cs more) :
      Spelled (c :: cs) (text ++ more)

def Quoted (s : String) (cs : List Char) : Prop :=
  ∃ text, Spelled s.toList text ∧ cs = '"' :: (text ++ ['"'])

section Lists
variable {α : Type}

/-- One or more parts with commas between them. -/
inductive Listed (R : α → List Char → Prop) : List α → List Char → Prop
  | last {a : α} {before text after : List Char} (blank : Blank before) (item : R a text)
      (blank' : Blank after) : Listed R [a] (before ++ (text ++ after))
  | cons {a : α} {as : List α} {before text after more : List Char} (blank : Blank before)
      (item : R a text) (blank' : Blank after) (others : Listed R as more) :
      Listed R (a :: as) (before ++ (text ++ (after ++ ',' :: more)))

/-- Any number of parts with commas between them and brackets around them. -/
inductive Enclosed (R : α → List Char → Prop) (opening closing : Char) : List α → List Char → Prop
  | empty {between : List Char} (blank : Blank between) :
      Enclosed R opening closing [] (opening :: (between ++ [closing]))
  | items {as : List α} {text : List Char} (items : Listed R as text) :
      Enclosed R opening closing as (opening :: (text ++ [closing]))

/-- A key with its value. -/
inductive Member (R : α → List Char → Prop) : String × α → List Char → Prop
  | mk {key : String} {a : α} {name before after text : List Char} (quoted : Quoted key name)
      (blank : Blank before) (blank' : Blank after) (value : R a text) :
      Member R (key,a) (name ++ (before ++ ':' :: (after ++ text)))

end Lists

/-- The texts that stand for a value, without blanks around them. -/
inductive Denotes : Json → List Char → Prop
  | number {digits : List Char} (all : ∀ c ∈ digits, c.isDigit) (ne : digits ≠ [])
      (lead : digits.head? = some '0' → digits = ['0']) :
      Denotes (.number (Nat.ofDigitChars 10 digits 0)) digits
  | string {s : String} {text : List Char} (quoted : Quoted s text) : Denotes (.string s) text
  | array {items : List Json} {text : List Char} (enclosed : Enclosed Denotes '[' ']' items text) :
      Denotes (.array items) text
  | object {members : List (String × Json)} {text : List Char}
      (enclosed : Enclosed (Member Denotes) '{' '}' members text) : Denotes (.object members) text

/-- A document is a text of one value, with blanks around it. -/
def Document (v : Json) (cs : List Char) : Prop :=
  ∃ before text after, Blank before ∧ Denotes v text ∧ Blank after ∧ cs = before ++ (text ++ after)

/-- A way to read something off the front of a text. -/
abbrev Reader (α : Type) := List Char → Option (α × List Char)

def skip (cs : List Char) : List Char := cs.dropWhile isSpace

def unit? : Reader Nat := fun cs =>
  if (cs.take 4).length = 4 then (hexNumber? (cs.take 4)).map fun n => (n,cs.drop 4) else none

/-- The character of an escape by numbers, after the letter. -/
def numbered? : Reader Char := fun cs => do
  let (m,cs) ← unit? cs
  if isHighHalf m then
    match cs with
    | '\\' :: 'u' :: cs =>
      let (n,cs) ← unit? cs
      if isLowHalf n then some (Char.ofNat (0x10000 + 0x400 * (m - 0xD800) + (n - 0xDC00)),cs) else none
    | _ => none
  else if isLowHalf m then none
  else some (Char.ofNat m,cs)

def char? : Reader Char
  | [] => none
  | c :: cs =>
    if c = '\\' then
      match cs with
      | [] => none
      | letter :: cs =>
        if letter = 'u' then numbered? cs
        else (escapes.find? (·.2 == letter)).map fun escape => (escape.1,cs)
    else if c = '"' || c.toNat < 0x20 then none
    else some (c,cs)

/-- The characters of a string up to its closing quote, of which there are fewer than `n`. -/
def chars? : Nat → Reader (List Char)
  | 0, _ => none
  | n + 1, cs =>
    if cs.head? = some '"' then some ([],cs.tail)
    else do
      let (c,cs) ← char? cs
      let (s,cs) ← chars? n cs
      return (c :: s,cs)

def string? : Reader String := fun cs =>
  if cs.head? = some '"' then
    (chars? cs.length cs.tail).map (Prod.map String.ofList id)
  else none

def number? : Reader Nat := fun cs =>
  let digits := cs.takeWhile Char.isDigit
  if digits = [] ∨ digits.head? = some '0' ∧ digits ≠ ['0'] then none
  else some (Nat.ofDigitChars 10 digits 0,cs.dropWhile Char.isDigit)

section Lists
variable {α : Type}

/-- The parts up to a closing bracket, of which there are no more than `n`. -/
def items? (read : Reader α) (closing : Char) : Nat → Reader (List α)
  | 0, _ => none
  | n + 1, cs => do
    let (a,cs) ← read (skip cs)
    let cs := skip cs
    if cs.head? = some ',' then
      let (as,cs) ← items? read closing n cs.tail
      return (a :: as,cs)
    else if cs.head? = some closing then return ([a],cs.tail)
    else none

/-- The parts between brackets, after the opening one. -/
def enclosed? (read : Reader α) (closing : Char) (n : Nat) : Reader (List α) := fun cs =>
  if (skip cs).head? = some closing then some ([],(skip cs).tail) else items? read closing n cs

def member? (read : Reader α) : Reader (String × α) := fun cs => do
  let (key,cs) ← string? cs
  let cs := skip cs
  if cs.head? = some ':' then
    let (a,cs) ← read (skip cs.tail)
    return ((key,a),cs)
  else none

end Lists

/-- The value of which a text of at most `n` characters comes first. -/
def value? : Nat → Reader Json
  | 0, _ => none
  | n + 1, cs =>
    if cs.head? = some '"' then (string? cs).map (Prod.map .string id)
    else if cs.head? = some '[' then
      (enclosed? (value? n) ']' n cs.tail).map (Prod.map .array id)
    else if cs.head? = some '{' then
      (enclosed? (member? (value? n)) '}' n cs.tail).map (Prod.map .object id)
    else (number? cs).map (Prod.map .number id)

/-- The value of a document. -/
def parse? (cs : List Char) : Option Json := do
  let (v,rest) ← value? cs.length (skip cs)
  if skip rest = [] then some v else none

section Blanks
variable {before cs : List Char} {c : Char}

lemma skip_append (h : Blank before) (cs : List Char) : skip (before ++ cs) = skip cs :=
  List.dropWhile_append_of_pos h

lemma skip_cons (h : isSpace c = false) (cs : List Char) : skip (c :: cs) = c :: cs :=
  List.dropWhile_cons_of_neg (by simp [h])

lemma skip_blank (h : Blank before) : skip before = [] := List.dropWhile_eq_nil_iff.mpr h

/-- No digit comes first. -/
def Stops (rest : List Char) : Prop := ∀ c ∈ rest.head?, c.isDigit = false

lemma isDigit_of_isSpace (h : isSpace c) : c.isDigit = false := by
  simp only [isSpace,Bool.or_eq_true,beq_iff_eq] at h
  rcases h with ((rfl | rfl) | rfl) | rfl <;> decide

lemma stops_append (h : Blank before) (hcs : Stops cs) : Stops (before ++ cs) := by
  cases before with
  | nil => exact hcs
  | cons c before =>
    intro d hd
    obtain rfl : c = d := by simpa using hd
    exact isDigit_of_isSpace (h c (.head _))

end Blanks

section Strings
variable {c : Char} {cs text digits : List Char} {n : Nat}

lemma unit_append (h : IsUnit digits n) (rest : List Char) :
    unit? (digits ++ rest) = some (n,rest) := by
  obtain ⟨hlength,hnumber⟩ := h
  have htake : (digits ++ rest).take 4 = digits := by rw [← hlength,List.take_left]
  have hdrop : (digits ++ rest).drop 4 = rest := by rw [← hlength,List.drop_left]
  rw [unit?,htake,hdrop,if_pos hlength,hnumber]
  rfl

/-- No character has the number of a half. -/
lemma isHalf_toNat (c : Char) : isHighHalf c.toNat = false ∧ isLowHalf c.toNat = false := by
  have hvalid : c.toNat < 0xD800 ∨ 0xDFFF < c.toNat ∧ c.toNat < 0x110000 := c.valid
  simp only [isHighHalf,isLowHalf,Bool.and_eq_false_iff,decide_eq_false_iff_not]
  omega

lemma escapes_find : ∀ escape ∈ escapes,
    escapes.find? (·.2 == escape.2) = some escape ∧ escape.2 ≠ 'u' := by decide

/-- A character is read from each of its spellings. -/
theorem char_append (h : Spells c text) (rest : List Char) :
    char? (text ++ rest) = some (c,rest) ∧ text.head? ≠ some '"' := by
  cases h with
  | plain control quote escape =>
    refine ⟨?_,by simpa using quote⟩
    simp [char?,quote,escape,Nat.not_lt.mpr control]
  | short known =>
    obtain ⟨hfind,hu⟩ := escapes_find _ known
    refine ⟨?_,by simp⟩
    simp only [List.cons_append,List.nil_append,char?,if_pos]
    rw [if_neg hu,hfind]
    rfl
  | unit number =>
    refine ⟨?_,by simp⟩
    simp only [List.cons_append,char?,if_pos,numbered?,unit_append number,Option.bind_eq_bind,
      Option.bind_some]
    rw [(isHalf_toNat c).1,(isHalf_toNat c).2]
    simp
  | halves first second isHigh isLow number =>
    refine ⟨?_,by simp⟩
    simp only [List.cons_append,List.append_assoc,char?,if_pos,numbered?,unit_append first,
      unit_append second,Option.bind_eq_bind,Option.bind_some,isHigh,isLow]
    rw [← number]
    simp

lemma length_le_of_spells (h : Spells c text) : 1 ≤ text.length := by
  cases h <;> simp

lemma Spelled.length_le (h : Spelled cs text) : cs.length ≤ text.length := by
  induction h with
  | nil => exact Nat.le_refl _
  | cons first _ ih =>
    have hfirst := length_le_of_spells first
    rw [List.length_cons,List.length_append]
    omega

theorem Spelled.chars_append (h : Spelled cs text) (hn : cs.length < n) (rest : List Char) :
    chars? n (text ++ '"' :: rest) = some (cs,rest) := by
  induction h generalizing n with
  | nil =>
    obtain ⟨n,rfl⟩ := Nat.exists_eq_add_one_of_ne_zero (Nat.ne_of_gt hn)
    rfl
  | @cons c cs text more first others ih =>
    obtain ⟨n,rfl⟩ := Nat.exists_eq_add_one_of_ne_zero (Nat.ne_zero_of_lt hn)
    obtain ⟨hchar,hquote⟩ := char_append first (more ++ '"' :: rest)
    have hhead : (text ++ (more ++ '"' :: rest)).head? ≠ some '"' := by
      have hlength := length_le_of_spells first
      cases text with
      | nil => simp at hlength
      | cons d text => exact hquote
    rw [List.append_assoc,chars?,if_neg hhead,hchar]
    simp [ih (Nat.lt_of_succ_lt_succ hn)]

theorem Quoted.string_append {s : String} (h : Quoted s text) (rest : List Char) :
    string? (text ++ rest) = some (s,rest) := by
  obtain ⟨body,hbody,rfl⟩ := h
  have hlength := hbody.length_le
  have htext : '"' :: (body ++ ['"']) ++ rest = '"' :: (body ++ '"' :: rest) := by simp
  have hn : s.toList.length < ('"' :: (body ++ '"' :: rest)).length := by
    rw [List.length_cons,List.length_append]
    omega
  rw [htext,string?,if_pos List.head?_cons,List.tail_cons,hbody.chars_append hn]
  simp

end Strings

/-- A text is read as something, whatever comes after it that is not another digit. -/
def Takes {α : Type} (read : Reader α) (a : α) (text : List Char) : Prop :=
  ∀ rest, Stops rest → read (text ++ rest) = some (a,rest)

theorem number_takes {digits : List Char} (hall : ∀ c ∈ digits, c.isDigit) (hne : digits ≠ [])
    (hlead : digits.head? = some '0' → digits = ['0']) :
    Takes number? (Nat.ofDigitChars 10 digits 0) digits := by
  intro rest hrest
  have htake : rest.takeWhile Char.isDigit = [] := by
    cases rest with
    | nil => rfl
    | cons c rest => exact List.takeWhile_cons_of_neg (by simp [hrest c rfl])
  have hdrop : rest.dropWhile Char.isDigit = rest := by
    cases rest with
    | nil => rfl
    | cons c rest => exact List.dropWhile_cons_of_neg (by simp [hrest c rfl])
  rw [number?,List.takeWhile_append_of_pos hall,List.dropWhile_append_of_pos hall,htake,hdrop,
    List.append_nil]
  exact if_neg (by tauto)

section Lists
variable {α : Type} {R : α → List Char → Prop} {read : Reader α} {as : List α}
  {text : List Char} {opening closing : Char} {n k : Nat}

/-- A text that begins neither with a blank nor with a closing bracket. -/
def Solid (text : List Char) : Prop :=
  ∃ c cs, text = c :: cs ∧ isSpace c = false ∧ c ≠ ']' ∧ c ≠ '}'

/-- The brackets that end a list. -/
def IsClosing (c : Char) : Prop := c = ']' ∨ c = '}'

lemma Solid.skip_append (h : Solid text) (rest : List Char) : skip (text ++ rest) = text ++ rest := by
  obtain ⟨c,cs,rfl,hc,_⟩ := h
  exact skip_cons hc _

/-- The parts of a list are read up to the bracket that ends it, if each of them is. -/
theorem Listed.items_append (h : Listed R as text) (hclosing : IsClosing closing)
    (hk : text.length ≤ k) (hn : text.length ≤ n)
    (hread : ∀ a ∈ as, ∀ part, R a part → part.length ≤ n → Solid part ∧ Takes read a part)
    (rest : List Char) : items? read closing k (text ++ closing :: rest) = some (as,rest) := by
  have hspace : isSpace closing = false := by rcases hclosing with rfl | rfl <;> rfl
  have hdigit : closing.isDigit = false := by rcases hclosing with rfl | rfl <;> rfl
  have hcomma : closing ≠ ',' := by rcases hclosing with rfl | rfl <;> decide
  induction h generalizing k with
  | @last a before part after blank item blank' =>
    simp only [List.length_append] at hk hn
    obtain ⟨hsolid,htakes⟩ := hread a (.head _) part item (by omega)
    have hpos : 1 ≤ part.length := by
      obtain ⟨c,cs,rfl,_⟩ := hsolid
      simp
    obtain ⟨k,rfl⟩ : ∃ k', k = k' + 1 := Nat.exists_eq_add_one_of_ne_zero (by omega)
    have hstops : Stops (after ++ closing :: rest) :=
      stops_append blank' (by simpa [Stops] using hdigit)
    rw [items?,List.append_assoc,List.append_assoc,skip_append blank,hsolid.skip_append,
      htakes _ hstops]
    simp [skip_append blank',skip_cons hspace,hcomma]
  | @cons a as before part after more blank item blank' others ih =>
    simp only [List.length_append,List.length_cons] at hk hn
    obtain ⟨hsolid,htakes⟩ := hread a (.head _) part item (by omega)
    obtain ⟨k,rfl⟩ : ∃ k', k = k' + 1 := Nat.exists_eq_add_one_of_ne_zero (by omega)
    have hmore := ih (k := k) (by omega) (by omega) fun b hb => hread b (.tail _ hb)
    have hstops : Stops (after ++ ',' :: (more ++ closing :: rest)) :=
      stops_append blank' (by simp [Stops])
    have htext : before ++ (part ++ (after ++ ',' :: more)) ++ closing :: rest =
        before ++ (part ++ (after ++ ',' :: (more ++ closing :: rest))) := by simp
    rw [items?,htext,skip_append blank,hsolid.skip_append,htakes _ hstops]
    simp [skip_append blank',skip_cons (c := ',') rfl,hmore]

lemma Solid.head_ne (h : Solid text) (hclosing : IsClosing closing) (rest : List Char) :
    (text ++ rest).head? ≠ some closing := by
  obtain ⟨c,cs,rfl,_,hbracket,hbrace⟩ := h
  intro hc
  obtain rfl : c = closing := by simpa using hc
  exact hclosing.elim hbracket hbrace

/-- A list of parts does not end before its first part. -/
lemma Listed.head_ne (h : Listed R as text) (hclosing : IsClosing closing)
    (hsolid : ∀ a ∈ as, ∀ part, R a part → part.length ≤ text.length → Solid part)
    (rest : List Char) : (skip (text ++ rest)).head? ≠ some closing := by
  cases h with
  | last blank item _ | cons blank item _ _ =>
    have hpart := hsolid _ (.head _) _ item (by simp only [List.length_append]; omega)
    rw [List.append_assoc,List.append_assoc,Json.skip_append blank,hpart.skip_append]
    exact hpart.head_ne hclosing _

/-- The parts between brackets are read after the opening one. -/
theorem Enclosed.append (h : Enclosed R opening closing as text) (hclosing : IsClosing closing)
    (hn : text.length ≤ n + 1)
    (hread : ∀ a ∈ as, ∀ part, R a part → part.length ≤ n → Solid part ∧ Takes read a part)
    (rest : List Char) : enclosed? read closing n (text ++ rest).tail = some (as,rest) := by
  have hspace : isSpace closing = false := by rcases hclosing with rfl | rfl <;> rfl
  cases h with
  | @empty between blank =>
    rw [enclosed?]
    simp [skip_append blank,skip_cons hspace]
  | @items _ inner items =>
    have hlength : inner.length < n := by
      rw [List.length_cons,List.length_append,List.length_singleton] at hn
      omega
    have htail : (opening :: (inner ++ [closing]) ++ rest).tail = inner ++ closing :: rest := by simp
    rw [enclosed?,htail,if_neg ?_]
    · exact items.items_append hclosing (Nat.le_of_lt hlength) (Nat.le_of_lt hlength) hread rest
    · refine items.head_ne hclosing (fun a ha part hpart hlength' => ?_) _
      exact (hread a ha part hpart (by omega)).1

lemma Enclosed.head_eq (h : Enclosed R opening closing as text) (rest : List Char) :
    (text ++ rest).head? = some opening := by
  cases h <;> rfl

lemma Enclosed.length_pos (h : Enclosed R opening closing as text) : 0 < text.length := by
  cases h <;> simp

lemma Member.solid {member : String × α} (h : Member R member text) : Solid text := by
  obtain ⟨⟨body,_,rfl⟩,_,_,_⟩ := h
  exact ⟨'"',_,rfl,rfl,by decide,by decide⟩

theorem Member.takes {member : String × α} (h : Member R member text) (hn : text.length ≤ n)
    (hread : ∀ part, R member.2 part → part.length ≤ n → Solid part ∧ Takes read member.2 part) :
    Takes (member? read) member text := by
  intro rest hrest
  cases h with
  | @mk key a name before after part quoted blank blank' value =>
    simp only [List.length_append,List.length_cons] at hn
    obtain ⟨hsolid,htakes⟩ := hread part value (by omega)
    have htext : name ++ (before ++ ':' :: (after ++ part)) ++ rest =
        name ++ (before ++ ':' :: (after ++ (part ++ rest))) := by simp
    rw [member?,htext,quoted.string_append]
    simp [skip_append blank,skip_append blank',skip_cons (c := ':') rfl,hsolid.skip_append,
      htakes rest hrest]

end Lists

/-- What holds of a value when it holds of all values directly in it, holds of all. -/
@[elab_as_elim]
theorem value_induction {P : Json → Prop} (number : ∀ n, P (.number n)) (string : ∀ s, P (.string s))
    (array : ∀ items, (∀ v ∈ items, P v) → P (.array items))
    (object : ∀ members, (∀ member ∈ members, P member.2) → P (.object members)) (v : Json) : P v :=
  @Json.rec P (fun items => ∀ v ∈ items, P v) (fun members => ∀ member ∈ members, P member.2)
    (fun member => P member.2) number string array object
    (by simp) (fun _ _ hv hvs => List.forall_mem_cons.mpr ⟨hv,hvs⟩)
    (by simp) (fun _ _ hm hms => List.forall_mem_cons.mpr ⟨hm,hms⟩) (fun _ _ hv => hv) v

lemma solid_of_isDigit {c : Char} (h : c.isDigit) (cs : List Char) : Solid (c :: cs) := by
  have hne (d : Char) (hd : d.isDigit = false) : c ≠ d := by
    rintro rfl
    rw [hd] at h
    contradiction
  refine ⟨c,cs,rfl,?_,hne _ rfl,hne _ rfl⟩
  simp [isSpace,hne ' ' rfl,hne '\t' rfl,hne '\n' rfl,hne '\r' rfl]

variable {v w : Json} {text : List Char} {n : Nat}

theorem Denotes.solid (h : Denotes v text) : Solid text := by
  cases h with
  | number hall hne _ =>
    obtain ⟨c,cs,rfl⟩ := List.exists_cons_of_ne_nil hne
    exact solid_of_isDigit (hall c (.head _)) cs
  | string quoted =>
    obtain ⟨body,_,rfl⟩ := quoted
    exact ⟨'"',_,rfl,rfl,by decide,by decide⟩
  | array enclosed | object enclosed =>
    cases enclosed <;> exact ⟨_,_,rfl,rfl,by decide,by decide⟩

/-- A text of a value is read as that value. -/
theorem Denotes.takes (h : Denotes v text) (hn : text.length ≤ n) : Takes (value? n) v text := by
  -- The induction is on the value: what is directly in it is read by the reader for one character
  -- less.
  induction v using value_induction generalizing n text with
  | number m =>
    intro rest hrest
    obtain ⟨c,cs,rfl,-,-,-⟩ := h.solid
    obtain ⟨n,rfl⟩ := Nat.exists_eq_add_one_of_ne_zero (Nat.ne_zero_of_lt hn)
    cases h with
    | number hall hne hlead =>
      have hc := hall c (.head _)
      have hhead (d : Char) (hd : d.isDigit = false) : (c :: cs ++ rest).head? ≠ some d := by
        rintro ⟨⟩
        rw [hd] at hc
        contradiction
      rw [value?,if_neg (hhead _ rfl),if_neg (hhead _ rfl),if_neg (hhead _ rfl),
        number_takes hall hne hlead rest hrest]
      rfl
  | string s =>
    intro rest hrest
    cases h with
    | string quoted =>
      have hread := quoted.string_append rest
      obtain ⟨body,_,rfl⟩ := quoted
      obtain ⟨n,rfl⟩ := Nat.exists_eq_add_one_of_ne_zero (Nat.ne_zero_of_lt hn)
      rw [value?,if_pos (by rfl),hread]
      rfl
  | array items ih =>
    intro rest _
    cases h with
    | array enclosed =>
      have hopening := enclosed.head_eq rest
      obtain ⟨n,rfl⟩ := Nat.exists_eq_add_one_of_ne_zero
        (Nat.ne_of_gt (Nat.lt_of_lt_of_le enclosed.length_pos hn))
      rw [value?,if_neg (by rw [hopening]; decide),if_pos hopening,
        enclosed.append (.inl rfl) hn fun w hw part hpart hlength =>
          ⟨hpart.solid,ih w hw hpart hlength⟩]
      rfl
  | object members ih =>
    intro rest _
    cases h with
    | object enclosed =>
      have hopening := enclosed.head_eq rest
      obtain ⟨n,rfl⟩ := Nat.exists_eq_add_one_of_ne_zero
        (Nat.ne_of_gt (Nat.lt_of_lt_of_le enclosed.length_pos hn))
      have hread : ∀ member ∈ members, ∀ part, Member Denotes member part → part.length ≤ n →
          Solid part ∧ Takes (member? (value? n)) member part := by
        intro member hmember part hpart hlength
        exact ⟨hpart.solid,hpart.takes hlength fun inner hinner hlength' =>
          ⟨hinner.solid,ih member hmember hinner hlength'⟩⟩
      rw [value?,if_neg (by rw [hopening]; decide),if_neg (by rw [hopening]; decide),if_pos hopening,
        enclosed.append (.inr rfl) hn hread]
      rfl

/-- The value of a document is found. -/
theorem Document.parse_eq {cs : List Char} (h : Document v cs) : parse? cs = some v := by
  obtain ⟨before,text,after,hbefore,htext,hafter,rfl⟩ := h
  have hlength : text.length ≤ (before ++ (text ++ after)).length := by
    simp only [List.length_append]
    omega
  have hend : Stops [] := by simp [Stops]
  have hstops := stops_append hafter hend
  rw [List.append_nil] at hstops
  rw [parse?,skip_append hbefore,htext.solid.skip_append,htext.takes hlength after hstops]
  simp [skip_blank hafter]

/-- No text stands for two values. -/
theorem Document.unique {cs : List Char} (h : Document v cs) (h' : Document w cs) : v = w :=
  Option.some.inj (h.parse_eq.symm.trans h'.parse_eq)

end ScriptLint.Report.Json
