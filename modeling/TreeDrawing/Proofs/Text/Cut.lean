import Mathlib.Data.List.Infix
import TreeDrawing.Text.Occurrences

/-!
# Cutting a text at a pattern

`cut` looks for a pattern in a text from left to right: where the pattern begins, it is taken out as
a whole, and the search goes on behind it. Two things are read off the result: how often the pattern
occurs, by counting what was taken out, and the text in which every occurrence is replaced, by
putting something else in its place.

## Where occurrences cannot be

Cutting is easy to follow through a text that is written in pieces as long as no occurrence runs
from one piece into the next. A character that is not in the pattern prevents it
(`cut_append_cons`), and most pieces begin or end with one.

## Counting without cutting

`occurrences` reads a text once and does not go back. Its search remembers the last characters, and
what makes it find the same as `cut` is that the pattern does not occur in what it has read since
the last occurrence (`found_foldl_next`).
-/

namespace TreeDrawing.Text

/-- Takes every occurrence of a pattern out of a text, from left to right and without overlap, and
leaves `none` in its place. The pattern is not empty. -/
def cut (pattern : List Char) : List Char → List (Option Char)
  | [] => []
  | c :: text =>
    if pattern <+: c :: text then none :: cut pattern (text.drop (pattern.length - 1))
    else some c :: cut pattern text
termination_by text => text.length
decreasing_by
  · rw [List.length_drop, List.length_cons]
    omega
  · exact Nat.lt_succ_self _

/-- How often a pattern is taken out of a text. -/
def cuts (pattern text : List Char) : Nat := (cut pattern text).count none

/-- Puts a text in every place where something was taken out. -/
def fill (replacement : List Char) (text : List (Option Char)) : List Char :=
  text.flatMap fun c? ↦ c?.elim replacement fun c ↦ [c]

/-- Replaces every occurrence of a pattern in a text. -/
def replaceAll (pattern replacement text : String) : String :=
  .ofList (fill replacement.toList (cut pattern.toList text.toList))

theorem toList_replaceAll (pattern replacement text : String) :
    (replaceAll pattern replacement text).toList =
      fill replacement.toList (cut pattern.toList text.toList) := String.toList_ofList

/-- What is left over of one occurrence does not begin another. -/
example : replaceAll "aba" "-" "ababa" = "-ba" := by cbv

variable {p : List Char}

/-! ## Where a pattern begins -/

/-- A pattern that is in front of a text is in front of what stands before a character that is not
in the pattern. -/
theorem isPrefix_append_cons_iff {c : Char} (hc : c ∉ p) (u v : List Char) :
    p <+: u ++ c :: v ↔ p <+: u := by
  refine ⟨fun h ↦ ?_, fun h ↦ h.trans (List.prefix_append u _)⟩
  obtain hp | ⟨w, rfl⟩ := List.prefix_or_prefix_of_prefix h (List.prefix_append u (c :: v))
  · exact hp
  · rw [List.prefix_append_right_inj] at h
    obtain rfl | ⟨w, rfl, -⟩ := List.prefix_cons_iff.1 h
    · rw [List.append_nil]
    · simp at hc

theorem not_isPrefix_cons (hp : p ≠ []) {c : Char} (hc : c ∉ p) (v : List Char) :
    ¬p <+: c :: v := by
  rw [← List.nil_append (c :: v), isPrefix_append_cons_iff hc, List.prefix_nil]
  exact hp

/-- The pattern does not begin in a text that shares no character with it. -/
theorem isInfix_append_iff (hp : p ≠ []) {u : List Char} (hu : ∀ c ∈ u, c ∉ p) (v : List Char) :
    p <:+: u ++ v ↔ p <:+: v := by
  induction u with
  | nil => rfl
  | cons c u ih =>
    rw [List.forall_mem_cons] at hu
    have hfront : ¬p <+: c :: (u ++ v) := not_isPrefix_cons hp hu.1 _
    rw [List.cons_append, List.infix_cons_iff, ih hu.2, or_iff_right hfront]

/-! ## Cutting -/

@[simp] theorem cut_nil (p : List Char) : cut p [] = [] := by rw [cut]

theorem cut_cons_of_not_isPrefix {c : Char} {text : List Char} (h : ¬p <+: c :: text) :
    cut p (c :: text) = some c :: cut p text := by
  rw [cut, if_neg h]

theorem cut_append_self (hp : p ≠ []) (text : List Char) :
    cut p (p ++ text) = none :: cut p text := by
  cases p with
  | nil => exact absurd rfl hp
  | cons a p =>
    rw [List.cons_append, cut, if_pos (by simp), List.length_cons, Nat.add_sub_cancel,
      List.drop_left]

theorem cut_self (hp : p ≠ []) : cut p p = [none] := by
  have hcut := cut_append_self hp []
  rwa [List.append_nil, cut_nil] at hcut

/-- The two cases of `cut`: the pattern is in front, or a character that stays. -/
theorem cut_induction {motive : List Char → Prop} (hp : p ≠ []) (nil : motive [])
    (found : ∀ text, motive text → motive (p ++ text))
    (other : ∀ c text, ¬p <+: c :: text → motive text → motive (c :: text)) (text : List Char) :
    motive text := by
  fun_induction cut p text with
  | case1 => exact nil
  | case2 c text h ih =>
    obtain ⟨rest, hrest⟩ := h
    cases p with
    | nil => exact absurd rfl hp
    | cons a p =>
      obtain ⟨rfl, rfl⟩ : a = c ∧ p ++ rest = text := List.cons.inj hrest
      rw [List.length_cons, Nat.add_sub_cancel, List.drop_left] at ih
      exact found rest ih
  | case3 c text h ih => exact other c text h ih

/-- A character that is not in the pattern stays, and the texts on its two sides are cut apart from
each other. -/
theorem cut_append_cons (hp : p ≠ []) {c : Char} (hc : c ∉ p) (u v : List Char) :
    cut p (u ++ c :: v) = cut p u ++ some c :: cut p v := by
  induction u using cut_induction hp with
  | nil =>
    rw [List.nil_append, cut_cons_of_not_isPrefix (not_isPrefix_cons hp hc v), cut_nil,
      List.nil_append]
  | found u ih =>
    rw [List.append_assoc, cut_append_self hp, ih, cut_append_self hp, List.cons_append]
  | other d u h ih =>
    have hlonger : ¬p <+: d :: (u ++ c :: v) := by
      rwa [← List.cons_append, isPrefix_append_cons_iff hc]
    rw [List.cons_append, cut_cons_of_not_isPrefix hlonger, ih, cut_cons_of_not_isPrefix h,
      List.cons_append]

/-- Nothing is taken out across the end of a text whose last character is not in the pattern. -/
theorem cut_append_of_getLast? (hp : p ≠ []) {u : List Char} (hu : ∀ c ∈ u.getLast?, c ∉ p)
    (v : List Char) : cut p (u ++ v) = cut p u ++ cut p v := by
  rcases List.eq_nil_or_concat u with rfl | ⟨u, c, rfl⟩
  · rw [List.nil_append, cut_nil, List.nil_append]
  · have hc : c ∉ p := hu c (by simp)
    rw [List.concat_eq_append, List.append_assoc, List.singleton_append, cut_append_cons hp hc,
      cut_append_cons hp hc, cut_nil, List.append_assoc, List.singleton_append]

/-- Nothing is taken out across the beginning of a text whose first character is not in the
pattern. -/
theorem cut_append_of_head? (hp : p ≠ []) {v : List Char} (hv : ∀ c ∈ v.head?, c ∉ p)
    (u : List Char) : cut p (u ++ v) = cut p u ++ cut p v := by
  cases v with
  | nil => rw [cut_nil, List.append_nil, List.append_nil]
  | cons c v =>
    have hc : c ∉ p := hv c rfl
    rw [cut_append_cons hp hc, cut_cons_of_not_isPrefix (not_isPrefix_cons hp hc v)]

/-! ## Replacing -/

@[simp] theorem fill_nil (r : List Char) : fill r [] = [] := rfl

@[simp] theorem fill_none (r : List Char) (text : List (Option Char)) :
    fill r (none :: text) = r ++ fill r text := rfl

@[simp] theorem fill_some (r : List Char) (c : Char) (text : List (Option Char)) :
    fill r (some c :: text) = c :: fill r text := rfl

/-- Nothing but the pattern is taken out. -/
theorem fill_cut_self (hp : p ≠ []) (text : List Char) : fill p (cut p text) = text := by
  induction text using cut_induction hp with
  | nil => rw [cut_nil, fill_nil]
  | found text ih => rw [cut_append_self hp, fill_none, ih]
  | other c text h ih => rw [cut_cons_of_not_isPrefix h, fill_some, ih]

section

variable {r : List Char} (hr : ∀ c ∈ r, c ∉ p) (hne : r ≠ [])

include hr hne

/-- What is put in cannot be the beginning of a part of the pattern. -/
theorem isPrefix_of_isPrefix_fill_cut (hp : p ≠ []) {q text : List Char} (hq : q ⊆ p)
    (h : q <+: fill r (cut p text)) : q <+: text := by
  induction text using cut_induction hp generalizing q with
  | nil => rwa [cut_nil, fill_nil] at h
  | found text ih =>
    rw [cut_append_self hp, fill_none] at h
    cases r with
    | nil => exact absurd rfl hne
    | cons a r =>
      obtain rfl | ⟨q, rfl, -⟩ := List.prefix_cons_iff.1 h
      · exact List.nil_prefix
      · exact absurd (hq List.mem_cons_self) (hr a List.mem_cons_self)
  | other c text hc ih =>
    rw [cut_cons_of_not_isPrefix hc, fill_some] at h
    obtain rfl | ⟨q, rfl, hrest⟩ := List.prefix_cons_iff.1 h
    · exact List.nil_prefix
    · exact List.cons_prefix_cons.2 ⟨rfl, ih (List.subset_of_cons_subset hq) hrest⟩

/-- If what is put in shares no character with the pattern, the pattern does not occur any more. -/
theorem not_isInfix_fill_cut (hp : p ≠ []) (text : List Char) :
    ¬p <:+: fill r (cut p text) := by
  induction text using cut_induction hp with
  | nil => rwa [cut_nil, fill_nil, List.infix_nil]
  | found text ih =>
    rwa [cut_append_self hp, fill_none, isInfix_append_iff hp hr]
  | other c text h ih =>
    rw [cut_cons_of_not_isPrefix h, fill_some, List.infix_cons_iff, not_or]
    refine ⟨fun hfront ↦ h ?_, ih⟩
    obtain rfl | ⟨q, rfl, hrest⟩ := List.prefix_cons_iff.1 hfront
    · exact List.nil_prefix
    · exact List.cons_prefix_cons.2
        ⟨rfl, isPrefix_of_isPrefix_fill_cut hr hne hp (List.subset_cons_self c q) hrest⟩

end

/-! ## Counting -/

theorem cuts_nil (p : List Char) : cuts p [] = 0 := by rw [cuts, cut_nil, List.count_nil]

theorem cuts_cons_of_not_isPrefix {c : Char} {text : List Char} (h : ¬p <+: c :: text) :
    cuts p (c :: text) = cuts p text := by
  rw [cuts, cut_cons_of_not_isPrefix h, List.count_cons_of_ne (Option.some_ne_none c), cuts]

theorem cuts_append_self (hp : p ≠ []) (text : List Char) :
    cuts p (p ++ text) = 1 + cuts p text := by
  rw [cuts, cut_append_self hp, List.count_cons_self, Nat.add_comm, cuts]

/-- Nothing is found exactly if the pattern does not occur. -/
theorem cuts_eq_zero_iff (hp : p ≠ []) {text : List Char} : cuts p text = 0 ↔ ¬p <:+: text := by
  induction text using cut_induction hp with
  | nil => rw [cuts_nil, List.infix_nil, eq_self, true_iff]; exact hp
  | found text ih =>
    have hinfix : p <:+: p ++ text := (List.prefix_append p text).isInfix
    rw [cuts_append_self hp]
    exact iff_of_false (by omega) (not_not_intro hinfix)
  | other c text h ih =>
    rw [cuts_cons_of_not_isPrefix h, ih, List.infix_cons_iff, or_iff_right h]

/-- A text without some character of the pattern is left alone. -/
theorem cuts_eq_zero_of_notMem {c : Char} (hc : c ∈ p) {text : List Char} (htext : c ∉ text) :
    cuts p text = 0 :=
  (cuts_eq_zero_iff (List.ne_nil_of_mem hc)).2 fun h ↦ htext (h.subset hc)

/-- No occurrence runs across the end of a text whose last character is not in the pattern. -/
theorem cuts_append_of_getLast? (hp : p ≠ []) {u : List Char} (hu : ∀ c ∈ u.getLast?, c ∉ p)
    (v : List Char) : cuts p (u ++ v) = cuts p u + cuts p v := by
  rw [cuts, cut_append_of_getLast? hp hu, List.count_append, cuts, cuts]

/-- No occurrence runs across the beginning of a text whose first character is not in the
pattern. -/
theorem cuts_append_of_head? (hp : p ≠ []) {v : List Char} (hv : ∀ c ∈ v.head?, c ∉ p)
    (u : List Char) : cuts p (u ++ v) = cuts p u + cuts p v := by
  rw [cuts, cut_append_of_head? hp hv, List.count_append, cuts, cuts]

/-- The first occurrence is found where it ends first. -/
theorem cuts_append_append (hp : p ≠ []) {u : List Char} (hu : ¬p <:+: (u ++ p).dropLast)
    (v : List Char) : cuts p (u ++ p ++ v) = 1 + cuts p v := by
  induction u with
  | nil => rw [List.nil_append, cuts_append_self hp]
  | cons c u ih =>
    have hne : u ++ p ≠ [] := List.append_ne_nil_of_right_ne_nil u hp
    rw [List.cons_append, List.dropLast_cons_of_ne_nil hne, List.infix_cons_iff, not_or] at hu
    -- An occurrence in front would end before the one behind `u`.
    have hfront : ¬p <+: c :: (u ++ p ++ v) := by
      intro h
      have hlast : c :: (u ++ p).dropLast <+: c :: (u ++ p ++ v) :=
        List.cons_prefix_cons.2 ⟨rfl, (List.dropLast_prefix _).trans (List.prefix_append _ v)⟩
      refine hu.1 (List.prefix_of_prefix_length_le h hlast ?_)
      rw [List.length_cons, List.length_dropLast, List.length_append]
      omega
    rw [List.cons_append, List.cons_append, cuts_cons_of_not_isPrefix hfront, ih hu.2]

/-- The search finds what is cut out of the whole text. As long as it finds nothing, the pattern
does not occur in what it has read. -/
theorem found_foldl_next (hp : p ≠ []) {read : List Char} (hread : ¬p <:+: read) (found : Nat)
    (text : List Char) :
    (text.foldl (Search.next p.reverse) ⟨read.reverse.take p.length, found⟩).found =
      found + cuts p (read ++ text) := by
  induction text generalizing read found with
  | nil => rw [List.append_nil, (cuts_eq_zero_iff hp).2 hread]; rfl
  | cons c text ih =>
    have hrecent : (c :: read.reverse.take p.length).take p.reverse.length =
        (read ++ [c]).reverse.take p.length := by
      rw [List.length_reverse, List.reverse_append, List.reverse_singleton, List.singleton_append]
      cases p.length with
      | zero => rfl
      | succ n =>
        rw [List.take_succ_cons, List.take_succ_cons, List.take_take, Nat.min_eq_left n.le_succ]
    have hsuffix : (read ++ [c]).reverse.take p.length = p.reverse ↔ p <:+ read ++ [c] := by
      rw [← List.reverse_prefix, List.prefix_iff_eq_take, List.length_reverse, eq_comm]
    rw [List.foldl_cons, Search.next]
    simp only [hrecent, hsuffix]
    by_cases h : p <:+ read ++ [c]
    · obtain ⟨u, hu⟩ := h
      have hfirst : ¬p <:+: (u ++ p).dropLast := by rwa [hu, List.dropLast_concat]
      have hnil : ¬p <:+: [] := by rwa [List.infix_nil]
      have hrest := ih hnil (found + 1)
      rw [List.reverse_nil, List.take_nil, List.nil_append] at hrest
      rw [if_pos ⟨u, hu⟩, hrest, ← List.singleton_append, ← List.append_assoc, ← hu,
        cuts_append_append hp hfirst, Nat.add_assoc]
    · rw [if_neg h, ih, List.append_assoc]
      · rfl
      · rw [List.infix_concat_iff, not_or]
        exact ⟨h, hread⟩

/-- How often a pattern occurs is how often it is cut out. -/
theorem occurrences_eq_cuts {pattern : String} (hp : pattern ≠ "") (text : String) :
    occurrences pattern text = cuts pattern.toList text.toList := by
  have hp' : pattern.toList ≠ [] := by simpa using hp
  have hnil : ¬pattern.toList <:+: [] := by simpa using hp'
  have hfound := found_foldl_next hp' hnil 0 text.toList
  rw [List.nil_append, Nat.zero_add] at hfound
  rw [occurrences, String.foldl_eq_foldl_toList, ← hfound]
  simp

end TreeDrawing.Text
