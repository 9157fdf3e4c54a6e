import Mathlib.Data.List.Basic
import Mathlib.Tactic.Common

/-! # Slash-separated paths

Paths as Go's `path/filepath` joins and cleans them on Unix. Cleaning is lexical: empty and `.` elements go,
and `..` takes the element before it along. -/

/-- `strings.Split(s, string(sep))`. -/
def splitText (sep : Char) (s : String) : List String := (s.toList.splitOn sep).map String.ofList

theorem splitText_append (sep : Char) (front back : String) :
    splitText sep (front ++ String.singleton sep ++ back) = splitText sep front ++ splitText sep back := by
  simp only [splitText, String.toList_append, String.toList_singleton, List.append_assoc, List.singleton_append]
  rw [← List.map_append]
  exact congrArg _ (List.splitOnP_append_cons front.toList back.toList (beq_self_eq_true sep))

theorem splitText_of_notMem {sep : Char} {s : String} (h : sep ∉ s.toList) : splitText sep s = [s] := by
  have hsplit : s.toList.splitOn sep = [s.toList] :=
    List.splitOnP_eq_singleton fun c hc => beq_eq_false_iff_ne.mpr fun he => h (he ▸ hc)
  rw [splitText, hsplit, List.map_singleton, String.ofList_toList]

namespace SlashPath

/-- One more element of a path; the elements before it are given in reverse. -/
def push (rooted : Bool) (elements : List String) (c : String) : List String :=
  if c = "" ∨ c = "." then elements
  else if c = ".." then
    match elements with
    | [] => if rooted then [] else [".."]
    | top :: rest => if top = ".." then ".." :: elements else rest
  else c :: elements

def isRooted (path : String) : Bool := path.toList.head? = some '/'

/-- `filepath.Clean`. -/
def clean (path : String) : String :=
  let body := "/".intercalate ((splitText '/' path).foldl (push (isRooted path)) []).reverse
  if isRooted path then "/" ++ body else if body = "" then "." else body

/-- `filepath.Join`: empty elements at the front are ignored. -/
def join (elements : List String) : String :=
  match elements.dropWhile (· = "") with
  | [] => ""
  | elements => clean ("/".intercalate elements)

/-- A single element that cleaning leaves alone. -/
structure IsName (c : String) : Prop where
  ne_empty : c ≠ ""
  ne_dot : c ≠ "."
  ne_dots : c ≠ ".."
  no_slash : '/' ∉ c.toList

section Names
variable {dir c c' : String}

theorem isName_of_length (hlength : 2 < c.length) (h : '/' ∉ c.toList) : IsName c where
  ne_empty hc := absurd hlength (by rw [hc]; decide)
  ne_dot hc := absurd hlength (by rw [hc]; decide)
  ne_dots hc := absurd hlength (by rw [hc]; decide)
  no_slash := h

theorem push_name (h : IsName c) (rooted : Bool) (elements : List String) : push rooted elements c = c :: elements := by
  simp [push, h.ne_empty, h.ne_dot, h.ne_dots]

theorem not_isRooted_name (h : IsName c) : isRooted c = false := by
  unfold isRooted
  cases hc : c.toList with
  | nil => rfl
  | cons x xs =>
    have hx : x ≠ '/' := fun he => h.no_slash (by rw [hc, he]; exact List.mem_cons_self)
    simpa using hx

theorem isRooted_append (hdir : dir ≠ "") (back : String) : isRooted (dir ++ back) = isRooted dir := by
  have hne : dir.toList ≠ [] := by simpa using hdir
  rw [isRooted, isRooted, String.toList_append, List.head?_append_of_ne_nil _ hne]

theorem join_name (h : IsName c) : join ["", c] = c := by
  have hdrop : ["", c].dropWhile (· = "") = [c] := by simp [h.ne_empty]
  simp only [join, hdrop, String.intercalate_singleton, clean, not_isRooted_name h, splitText_of_notMem h.no_slash,
    List.foldl_cons, List.foldl_nil, push_name h, List.reverse_singleton]
  simp [h.ne_empty]

theorem intercalate_concat_ne_empty (h : IsName c) (l : List String) : "/".intercalate (l ++ [c]) ≠ "" := by
  by_cases hl : l = []
  · subst hl
    simpa using h.ne_empty
  · rw [String.intercalate_append_of_ne_nil hl (List.cons_ne_nil _ _)]
    simp

theorem intercalate_concat_inj {l : List String} (h : "/".intercalate (l ++ [c]) = "/".intercalate (l ++ [c'])) :
    c = c' := by
  by_cases hl : l = []
  · subst hl
    simpa using h
  · rw [String.intercalate_append_of_ne_nil hl (List.cons_ne_nil _ _),
      String.intercalate_append_of_ne_nil hl (List.cons_ne_nil _ _)] at h
    simpa using h

theorem join_dir_name (hdir : dir ≠ "") (h : IsName c) :
    join [dir, c] = (if isRooted dir then "/" else "") ++
      "/".intercalate (((splitText '/' dir).foldl (push (isRooted dir)) []).reverse ++ [c]) := by
  have hdrop : [dir, c].dropWhile (· = "") = [dir, c] := by simp [hdir]
  have hpath : "/".intercalate [dir, c] = dir ++ String.singleton '/' ++ c :=
    String.intercalate_append_of_ne_nil (l := [dir]) (m := [c]) (List.cons_ne_nil _ _) (List.cons_ne_nil _ _)
  have hrooted : isRooted (dir ++ String.singleton '/' ++ c) = isRooted dir := by
    rw [String.append_assoc, isRooted_append hdir]
  have hbody := intercalate_concat_ne_empty h (((splitText '/' dir).foldl (push (isRooted dir)) []).reverse)
  simp only [join, hdrop, hpath, clean, hrooted, splitText_append, splitText_of_notMem h.no_slash, List.foldl_append,
    List.foldl_cons, List.foldl_nil, push_name h, List.reverse_cons]
  split
  · rfl
  · exact String.empty_append.symm

/-- Distinct names in a directory have distinct paths. -/
theorem join_inj (hc : IsName c) (hc' : IsName c') (h : join [dir, c] = join [dir, c']) : c = c' := by
  by_cases hdir : dir = ""
  · subst hdir
    rwa [join_name hc, join_name hc'] at h
  · rw [join_dir_name hdir hc, join_dir_name hdir hc', String.append_right_inj] at h
    exact intercalate_concat_inj h

end Names

end SlashPath
