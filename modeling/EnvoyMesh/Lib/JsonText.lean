import EnvoyMesh.Lib.Json
import Mathlib.Data.List.TakeDrop

/-! # Writing JSON

Texts of JSON values, put together from the texts of their parts, and what the reader makes of them. -/

namespace Json

/-! ### Strings -/

def hexChar (n : Nat) : Char := "0123456789abcdef".toList.getD n '0'

def escape (c : Char) : List Char :=
  if c = '"' then ['\\', '"']
  else if c = '\\' then ['\\', '\\']
  else if c.toNat < 0x20 then ['\\', 'u', '0', '0', hexChar (c.toNat / 16), hexChar (c.toNat % 16)]
  else [c]

def quote (s : String) : List Char := '"' :: s.toList.flatMap escape ++ ['"']

theorem hex4?_control : ∀ n < 0x20, hex4? '0' '0' (hexChar (n / 16)) (hexChar (n % 16)) = some n := by decide

theorem readString_escape (c : Char) (cs : List Char) :
    readString none (escape c ++ cs) = (readString none cs).map fun p => (c :: p.1, p.2) := by
  unfold escape
  split
  · next hc =>
    subst hc
    cases hcs : readString none cs <;> simp [readString, escape?, hcs]
  split
  · next hc =>
    subst hc
    cases hcs : readString none cs <;> simp [readString, escape?, hcs]
  split
  · next hc =>
    have hhigh : isHigh c.toNat = false := by simp [isHigh]; omega
    have hlow : isLow c.toNat = false := by simp [isLow]; omega
    cases hcs : readString none cs <;> simp [readString, hex4?_control _ hc, hcs, hhigh, hlow]
  · next hquote hslash hcontrol =>
    have hread : readString none (c :: cs) = (readString none cs).bind fun p => some (c :: p.1, p.2) := by
      rw [readString.eq_def]
      split
      case h_5 heq =>
        obtain ⟨rfl, rfl⟩ := List.cons.inj heq
        simp only [hcontrol, if_false]
        rfl
      all_goals simp_all
    rw [List.singleton_append, hread]
    cases readString none cs <;> rfl

theorem readString_quote (s : String) (rest : List Char) :
    readString none (s.toList.flatMap escape ++ '"' :: rest) = some (s.toList, rest) := by
  induction s.toList with
  | nil => rfl
  | cons c cs ih => rw [List.flatMap_cons, List.append_assoc, readString_escape, ih, Option.map_some]

/-! ### Values -/

/-- A text that cannot be part of the value before it: the end, or what follows in an array or object. -/
def Stops : List Char → Prop
  | [] => True
  | c :: _ => c = ',' ∨ c = ']' ∨ c = '}'

/-- The reader takes the whole text for the value. -/
structure Reads (depth : Nat) (text : List Char) (j : Json) : Prop where
  starts : ∃ c cs, text = c :: cs ∧ isSpace c = false ∧ c ≠ ']'
  reads : ∀ rest, Stops rest → readValue depth (text ++ rest) = some (j, rest)

theorem skipSpace_cons {c : Char} {cs : List Char} (h : isSpace c = false) : skipSpace (c :: cs) = c :: cs := by
  simp [skipSpace, h]

theorem skipSpace_of_starts {text : List Char} (h : ∃ c cs, text = c :: cs ∧ isSpace c = false ∧ c ≠ ']')
    (rest : List Char) : skipSpace (text ++ rest) = text ++ rest := by
  obtain ⟨c, cs, rfl, hc, -⟩ := h
  exact skipSpace_cons hc

theorem parse_of_reads {text : List Char} {j : Json} (h : Reads maxNestingDepth text j) :
    parse (String.ofList text) = some j := by
  have hread := h.reads [] trivial
  rw [List.append_nil] at hread
  rw [parse, String.toList_ofList, hread]
  rfl

theorem reads_quote (depth : Nat) (s : String) : Reads depth (quote s) (str s) := by
  refine ⟨⟨'"', _, rfl, by decide, by decide⟩, fun rest _ => ?_⟩
  have hread := readString_quote s rest
  simp only [quote, List.cons_append, List.append_assoc]
  rw [readValue, skipSpace_cons (by decide)]
  simp [hread]

/-! ### Numbers -/

theorem head_toDigits {n : Nat} (h : 0 < n) : ∃ c cs, Nat.toDigits 10 n = c :: cs ∧ c ≠ '0' := by
  induction n using Nat.strongRecOn with
  | ind n ih =>
    by_cases hlt : n < 10
    · have hdigit : ∀ m < 10, 0 < m → m.digitChar ≠ '0' := by decide
      exact ⟨_, [], Nat.toDigits_of_lt_base hlt, hdigit n hlt h⟩
    · obtain ⟨c, cs, hcs, hne⟩ := ih (n / 10) (by omega) (by omega)
      rw [Nat.toDigits_of_base_le (by decide) (by omega), hcs]
      exact ⟨c, _, rfl, hne⟩

theorem digits_append {ds rest : List Char} (hds : ∀ c ∈ ds, c.isDigit = true) (hrest : Stops rest) :
    digits (ds ++ rest) = (ds, rest) := by
  have hdrop : rest.takeWhile Char.isDigit = [] ∧ rest.dropWhile Char.isDigit = rest := by
    cases rest with
    | nil => exact ⟨rfl, rfl⟩
    | cons c cs => rcases hrest with rfl | rfl | rfl <;> exact ⟨rfl, rfl⟩
  rw [digits, List.span_eq_takeWhile_dropWhile, List.takeWhile_append_of_pos hds, List.dropWhile_append_of_pos hds,
    hdrop.1, hdrop.2, List.append_nil]

theorem intPart?_toDigits (n : Nat) {rest : List Char} (hrest : Stops rest) :
    intPart? (Nat.toDigits 10 n ++ rest) = some (Nat.toDigits 10 n, rest) := by
  rcases Nat.eq_zero_or_pos n with rfl | hn
  · rfl
  · obtain ⟨c, cs, hcs, hne⟩ := head_toDigits hn
    have hdig : ∀ d ∈ c :: cs, d.isDigit = true := fun d hd =>
      Nat.isDigit_of_mem_toDigits (by decide) (by decide) (hcs ▸ hd)
    rw [hcs, List.cons_append, intPart?.eq_def]
    split
    · next heq =>
      injection heq with hc
      exact absurd hc hne
    · rw [digits1?, ← List.cons_append, digits_append hdig hrest]

theorem digit_cases {c : Char} (h : c.isDigit = true) :
    isSpace c = false ∧ c ≠ ']' ∧ c ≠ 'n' ∧ c ≠ 't' ∧ c ≠ 'f' ∧ c ≠ '"' ∧ c ≠ '[' ∧ c ≠ '{' ∧ c ≠ '-' := by
  refine ⟨?_, ?_, ?_, ?_, ?_, ?_, ?_, ?_, ?_⟩
  · by_contra hs
    simp only [isSpace, Bool.not_eq_false, Bool.or_eq_true, beq_iff_eq] at hs
    rcases hs with ((rfl | rfl) | rfl) | rfl <;> revert h <;> decide
  all_goals
    rintro rfl
    revert h
    decide

theorem readNumber_toDigits (n : Nat) {rest : List Char} (hrest : Stops rest) :
    readNumber (Nat.toDigits 10 n ++ rest) = some (Nat.toDigits 10 n, rest) := by
  have hfrac : fracPart? rest = some ([], rest) := by
    cases rest with
    | nil => rfl
    | cons c cs => rcases hrest with rfl | rfl | rfl <;> rfl
  have hexp : expPart? rest = some ([], rest) := by
    cases rest with
    | nil => rfl
    | cons c cs => rcases hrest with rfl | rfl | rfl <;> rfl
  have hunsigned : readUnsigned (Nat.toDigits 10 n ++ rest) = some (Nat.toDigits 10 n, rest) := by
    simp [readUnsigned, intPart?_toDigits n hrest, hfrac, hexp]
  obtain ⟨c, cs, hcs⟩ := List.exists_cons_of_ne_nil (Nat.toDigits_ne_nil (n := n) (b := 10))
  have hdig : c.isDigit = true :=
    Nat.isDigit_of_mem_toDigits (n := n) (b := 10) (by decide) (by decide) (hcs ▸ List.mem_cons_self)
  rw [hcs, List.cons_append] at hunsigned ⊢
  rw [readNumber.eq_def]
  split
  · next heq =>
    injection heq with hc
    exact absurd hc (digit_cases hdig).2.2.2.2.2.2.2.2
  · exact hunsigned

theorem reads_nat (depth n : Nat) : Reads depth n.repr.toList (num n.repr) := by
  obtain ⟨c, cs, hcs⟩ := List.exists_cons_of_ne_nil (Nat.toDigits_ne_nil (n := n) (b := 10))
  have hdig : c.isDigit = true :=
    Nat.isDigit_of_mem_toDigits (n := n) (b := 10) (by decide) (by decide) (hcs ▸ List.mem_cons_self)
  obtain ⟨hspace, hbracket, hn, ht, hf, hq, hb, ho, -⟩ := digit_cases hdig
  refine ⟨⟨c, cs, by rw [Nat.toList_repr, hcs], hspace, hbracket⟩, fun rest hrest => ?_⟩
  have hread := readNumber_toDigits n hrest
  rw [Nat.toList_repr, Nat.repr_eq_ofList_toDigits]
  rw [hcs, List.cons_append] at hread ⊢
  rw [readValue, skipSpace_cons hspace]
  simp [hn, ht, hf, hq, hb, ho, hread]

theorem natural?_toDigits (n : Nat) : natural? (Nat.toDigits 10 n) = some n := by
  have hdig : ∀ c ∈ Nat.toDigits 10 n, c.isDigit = true := fun c hc =>
    Nat.isDigit_of_mem_toDigits (by decide) (by decide) hc
  have hdigits : digits (Nat.toDigits 10 n) = (Nat.toDigits 10 n, []) := by
    simpa using digits_append hdig (show Stops [] from trivial)
  have hnat : natOfDigits (Nat.toDigits 10 n) = n := Nat.ofDigitChars_toDigits (by decide) (by decide)
  simp [natural?, hdigits, exponent, hnat]

theorem integer?_repr (n : Int) : integer? n.repr = some n := by
  cases n with
  | ofNat n =>
    obtain ⟨c, cs, hcs⟩ := List.exists_cons_of_ne_nil (Nat.toDigits_ne_nil (n := n) (b := 10))
    have hdig : c.isDigit = true :=
      Nat.isDigit_of_mem_toDigits (n := n) (b := 10) (by decide) (by decide) (hcs ▸ List.mem_cons_self)
    have hnat := natural?_toDigits n
    rw [integer?.eq_def, Int.repr, Nat.toList_repr]
    rw [hcs] at hnat ⊢
    split
    · next heq =>
      injection heq with hc
      exact absurd hc (digit_cases hdig).2.2.2.2.2.2.2.2
    · rw [hnat]
      rfl
  | negSucc n =>
    have hlist : (Int.repr (.negSucc n)).toList = '-' :: Nat.toDigits 10 (n + 1) := by
      simp [Int.repr, Nat.toList_repr]
    rw [integer?, hlist]
    simp only [natural?_toDigits]
    rfl

/-! ### Arrays and objects -/

def commaSeparated : List (List Char) → List Char
  | [] => []
  | [text] => text
  | text :: texts => text ++ ',' :: commaSeparated texts

theorem length_le_commaSeparated (texts : List (List Char)) : texts.length ≤ (commaSeparated texts).length + 1 := by
  induction texts with
  | nil => exact Nat.zero_le _
  | cons text texts ih =>
    cases texts with
    | nil => simp [commaSeparated]
    | cons text' texts =>
      simp only [commaSeparated, List.length_append, List.length_cons] at ih ⊢
      omega

def arrText (texts : List (List Char)) : List Char := '[' :: commaSeparated texts ++ [']']

def member (key : String) (text : List Char) : List Char := quote key ++ ':' :: text

def objText (members : List (String × List Char)) : List Char :=
  '{' :: commaSeparated (members.map fun m => member m.1 m.2) ++ ['}']

section Nested
variable {depth : Nat} {α : Type} {text : α → List Char} {json : α → Json}

theorem starts_commaSeparated {x : α} {l : List α} (h : Reads depth (text x) (json x)) :
    ∃ c cs, commaSeparated ((x :: l).map text) = c :: cs ∧ isSpace c = false ∧ c ≠ ']' := by
  obtain ⟨c, cs, htext, hspace, hne⟩ := h.starts
  cases l with
  | nil => exact ⟨c, cs, htext, hspace, hne⟩
  | cons y l =>
    refine ⟨c, cs ++ ',' :: commaSeparated ((y :: l).map text), ?_, hspace, hne⟩
    simp only [List.map_cons, commaSeparated, htext, List.cons_append]

theorem readItems_commaSeparated (x : α) (l : List α) (h : ∀ y ∈ x :: l, Reads depth (text y) (json y)) {n : Nat}
    (hn : l.length < n) (rest : List Char) :
    readItems (readValue depth) n (commaSeparated ((x :: l).map text) ++ ']' :: rest) =
      some ((x :: l).map json, rest) := by
  induction l generalizing x n with
  | nil =>
    obtain ⟨n, rfl⟩ := Nat.exists_eq_succ_of_ne_zero (Nat.ne_zero_of_lt hn)
    have hread := (h x List.mem_cons_self).reads (']' :: rest) (Or.inr (Or.inl rfl))
    simp [readItems, commaSeparated, hread, skipSpace_cons (show isSpace ']' = false by decide)]
  | cons y l ih =>
    obtain ⟨n, rfl⟩ := Nat.exists_eq_succ_of_ne_zero (Nat.ne_zero_of_lt hn)
    have hread := (h x List.mem_cons_self).reads (',' :: (commaSeparated ((y :: l).map text) ++ ']' :: rest)) (Or.inl rfl)
    have hrest := ih y (fun z hz => h z (List.mem_cons_of_mem _ hz)) (Nat.lt_of_succ_lt_succ hn)
    simp only [List.map_cons] at hread hrest
    simp [readItems, commaSeparated, hread, skipSpace_cons (show isSpace ',' = false by decide), hrest]

theorem reads_arr (l : List α) (h : ∀ x ∈ l, Reads depth (text x) (json x)) :
    Reads (depth + 1) (arrText (l.map text)) (arr (l.map json)) := by
  refine ⟨⟨'[', _, rfl, by decide, by decide⟩, fun rest _ => ?_⟩
  simp only [arrText, List.cons_append, List.append_assoc]
  rw [readValue, skipSpace_cons (by decide)]
  cases l with
  | nil => simp [commaSeparated, skipSpace_cons (show isSpace ']' = false by decide)]
  | cons x l =>
    have hstart := starts_commaSeparated (l := l) (h x List.mem_cons_self)
    have hlen : l.length < (commaSeparated ((x :: l).map text) ++ ']' :: rest).length := by
      have := length_le_commaSeparated ((x :: l).map text)
      simp only [List.length_map, List.length_cons, List.length_append] at this ⊢
      omega
    have hitems := readItems_commaSeparated x l h hlen rest
    simp only [List.nil_append]
    rw [skipSpace_of_starts hstart]
    obtain ⟨c, cs, hcs, -, hne⟩ := hstart
    rw [hcs, List.cons_append] at hitems ⊢
    split
    · next heq =>
      injection heq with hc
      exact absurd hc hne
    · rw [hitems]
      rfl

theorem member_append (k : String) (text rest : List Char) :
    member k text ++ rest = '"' :: (k.toList.flatMap escape ++ '"' :: ':' :: (text ++ rest)) := by
  simp [member, quote]

theorem readMembers_commaSeparated (key : α → String) (x : α) (l : List α)
    (h : ∀ y ∈ x :: l, Reads depth (text y) (json y)) {n : Nat} (hn : l.length < n) (rest : List Char) :
    readMembers (readValue depth) n (commaSeparated ((x :: l).map fun y => member (key y) (text y)) ++ '}' :: rest) =
      some ((x :: l).map fun y => (key y, json y), rest) := by
  induction l generalizing x n with
  | nil =>
    obtain ⟨n, rfl⟩ := Nat.exists_eq_succ_of_ne_zero (Nat.ne_zero_of_lt hn)
    have hread := (h x List.mem_cons_self).reads ('}' :: rest) (Or.inr (Or.inr rfl))
    have hkey := readString_quote (key x) (':' :: (text x ++ '}' :: rest))
    simp only [List.map_cons, List.map_nil, commaSeparated, member_append]
    simp [readMembers, skipSpace_cons (show isSpace '"' = false by decide), hkey,
      skipSpace_cons (show isSpace ':' = false by decide), hread, skipSpace_cons (show isSpace '}' = false by decide)]
  | cons y l ih =>
    obtain ⟨n, rfl⟩ := Nat.exists_eq_succ_of_ne_zero (Nat.ne_zero_of_lt hn)
    have hrest := ih y (fun z hz => h z (List.mem_cons_of_mem _ hz)) (Nat.lt_of_succ_lt_succ hn)
    have hread (tail : List Char) := (h x List.mem_cons_self).reads (',' :: tail) (Or.inl rfl)
    have hkey (tail : List Char) := readString_quote (key x) (':' :: (text x ++ tail))
    simp only [List.map_cons, commaSeparated, List.append_assoc, List.cons_append, member_append] at hrest ⊢
    simp [readMembers, skipSpace_cons (show isSpace '"' = false by decide), hkey,
      skipSpace_cons (show isSpace ':' = false by decide), hread, skipSpace_cons (show isSpace ',' = false by decide),
      hrest]

theorem reads_obj (key : α → String) (l : List α) (h : ∀ x ∈ l, Reads depth (text x) (json x)) :
    Reads (depth + 1) (objText (l.map fun x => (key x, text x))) (obj (l.map fun x => (key x, json x))) := by
  refine ⟨⟨'{', _, rfl, by decide, by decide⟩, fun rest _ => ?_⟩
  simp only [objText, List.cons_append, List.append_assoc, List.map_map, Function.comp_def]
  rw [readValue, skipSpace_cons (by decide)]
  cases l with
  | nil => simp [commaSeparated, skipSpace_cons (show isSpace '}' = false by decide)]
  | cons x l =>
    have hlen : l.length < (commaSeparated ((x :: l).map fun y => member (key y) (text y)) ++ '}' :: rest).length := by
      have := length_le_commaSeparated ((x :: l).map fun y => member (key y) (text y))
      simp only [List.length_map, List.length_cons, List.length_append] at this ⊢
      omega
    have hmembers := readMembers_commaSeparated key x l h hlen rest
    obtain ⟨cs, hcs⟩ : ∃ cs, commaSeparated ((x :: l).map fun y => member (key y) (text y)) = '"' :: cs := by
      cases l <;> exact ⟨_, rfl⟩
    simp only [List.nil_append]
    rw [hcs, List.cons_append] at hmembers ⊢
    rw [skipSpace_cons (by decide)]
    split
    · next heq =>
      injection heq with hc
      exact absurd hc (by decide)
    · rw [hmembers]
      rfl

end Nested

/-! ### Written values -/

structure Written where
  text : List Char
  json : Json

namespace Written

def str (s : String) : Written := ⟨quote s, .str s⟩
def nat (n : Nat) : Written := ⟨n.repr.toList, .num n.repr⟩
def arr (items : List Written) : Written := ⟨arrText (items.map (·.text)), .arr (items.map (·.json))⟩
def obj (members : List (String × Written)) : Written :=
  ⟨objText (members.map fun m => (m.1, m.2.text)), .obj (members.map fun m => (m.1, m.2.json))⟩

def Ok (depth : Nat) (w : Written) : Prop := Reads depth w.text w.json

variable {depth : Nat}

theorem ok_str (s : String) : (str s).Ok depth := reads_quote depth s
theorem ok_nat (n : Nat) : (nat n).Ok depth := reads_nat depth n
theorem ok_arr {items : List Written} (h : ∀ w ∈ items, w.Ok depth) : (arr items).Ok (depth + 1) := reads_arr items h
theorem ok_obj {members : List (String × Written)} (h : ∀ m ∈ members, m.2.Ok depth) : (obj members).Ok (depth + 1) :=
  reads_obj (fun m : String × Written => m.1) members h

end Written

end Json
