import TreeDrawing.Dot.Style
import TreeDrawing.Proofs.Text.Cut

/-!
# Labels as they are written

A label is written with a character reference in place of each double quote. A reference that is
already in the label is written as it stands, so a written label does not say which of the two was
there. That is all it does not say: two labels are written alike exactly if they are the same once
every reference is a double quote again.

The argument is about what happens next to a rewritten quote. A new reference begins with `&` and
ends in `;`, and it might seem that together with a fragment such as `&quo` or `t;` beside it there
is another one. But a reference has its `&` in front and nowhere else, so none begins inside a
reference, and none that began before it can reach into it. The same holds of every pattern whose
characters, perhaps but for the first, are neither `&` nor a double quote
(`cut_flatMap_escapeChar`).
-/

namespace TreeDrawing.Dot

open Text

/-- A label with a double quote for each reference. -/
def unescapeLabel (label : String) : String := replaceAll "&quot;" "\"" label

/-! ## Character by character -/

theorem escapeChar_of_ne {c : Char} (hc : c ≠ '"') : escapeChar c = [c] := if_neg hc

theorem toList_escapeLabel (label : String) :
    (escapeLabel label).toList = label.toList.flatMap escapeChar := String.toList_ofList

theorem quote_notMem_escapeLabel {s : String} {c : Char} (hc : c ∈ (escapeLabel s).toList) :
    c ≠ '"' := by
  rw [toList_escapeLabel, List.mem_flatMap] at hc
  obtain ⟨d, -, hc⟩ := hc
  rw [escapeChar] at hc
  split at hc
  · rintro rfl
    exact absurd hc (by decide)
  · next hd =>
    rw [List.mem_singleton.1 hc]
    exact hd

/-- Without double quotes there is nothing to rewrite. -/
theorem flatMap_escapeChar_eq_self {text : List Char} (h : ∀ c ∈ text, c ≠ '"') :
    text.flatMap escapeChar = text := by
  have hsingle : text.flatMap escapeChar = text.flatMap fun c ↦ [c] :=
    List.flatMap_congr fun c hc ↦ escapeChar_of_ne (h c hc)
  rw [hsingle, List.flatMap_singleton']

/-- Whether a text begins in a certain way is not changed by rewriting it, unless a double quote or
the first character of a reference comes into it. -/
theorem isPrefix_flatMap_escapeChar_iff {q : List Char} (hq : ∀ c ∈ q, c ≠ '"' ∧ c ≠ '&')
    (text : List Char) : q <+: text.flatMap escapeChar ↔ q <+: text := by
  induction text generalizing q with
  | nil => rfl
  | cons c text ih =>
    cases q with
    | nil => simp
    | cons d q =>
      rw [List.forall_mem_cons] at hq
      rw [List.flatMap_cons]
      by_cases hc : c = '"'
      · have hquote : escapeChar c = '&' :: "quot;".toList := by rw [hc]; rfl
        rw [hquote, List.cons_append, List.cons_prefix_cons, List.cons_prefix_cons, hc]
        exact iff_of_false (fun h ↦ hq.1.2 h.1) fun h ↦ hq.1.1 h.1
      · rw [escapeChar_of_ne hc, List.singleton_append, List.cons_prefix_cons,
          List.cons_prefix_cons, ih hq.2]

/-! ## Patterns in a written label -/

section

variable {a : Char} {q : List Char} (ha : a ≠ '"') (hq : ∀ c ∈ q, c ≠ '"' ∧ c ≠ '&')

include ha hq

/-- What is cut out of a written label is what is cut out of the label, and what is cut out of the
references. -/
theorem cut_flatMap_escapeChar
    (href : ∀ text, cut (a :: q) ("&quot;".toList ++ text) =
      cut (a :: q) "&quot;".toList ++ cut (a :: q) text) (text : List Char) :
    cut (a :: q) (text.flatMap escapeChar) =
      (cut (a :: q) text).flatMap fun c? ↦
        if c? = some '"' then cut (a :: q) "&quot;".toList else [c?] := by
  have hp : a :: q ≠ [] := List.cons_ne_nil a q
  have hquote : ∀ c ∈ a :: q, c ≠ '"' := List.forall_mem_cons.2 ⟨ha, fun c hc ↦ (hq c hc).1⟩
  induction text using cut_induction hp with
  | nil => rw [List.flatMap_nil, cut_nil, List.flatMap_nil]
  | found text ih =>
    rw [List.flatMap_append, flatMap_escapeChar_eq_self hquote, cut_append_self hp,
      cut_append_self hp, ih]
    rfl
  | other c text h ih =>
    rw [cut_cons_of_not_isPrefix h, List.flatMap_cons, List.flatMap_cons, ← ih]
    by_cases hc : c = '"'
    · have hwritten : escapeChar c = "&quot;".toList := by rw [hc]; rfl
      rw [hwritten, href, if_pos (congrArg some hc)]
    · have hwritten : ¬a :: q <+: c :: text.flatMap escapeChar := by
        rwa [List.cons_prefix_cons, isPrefix_flatMap_escapeChar_iff hq, ← List.cons_prefix_cons]
      rw [escapeChar_of_ne hc, List.singleton_append, cut_cons_of_not_isPrefix hwritten,
        if_neg (by simpa using hc), List.singleton_append]

end

/-- A pattern that shares no character with a reference, and contains no double quote, occurs in a
written label as often as in the label. -/
theorem cuts_flatMap_escapeChar {p : List Char} (hne : p ≠ [])
    (hp : ∀ c ∈ p, c ≠ '"' ∧ c ∉ "&quot;".toList) (text : List Char) :
    cuts p (text.flatMap escapeChar) = cuts p text := by
  cases p with
  | nil => exact absurd rfl hne
  | cons a q =>
    have hend : ∀ c ∈ "&quot;".toList.getLast?, c ∉ a :: q := fun c hc h ↦
      (hp c h).2 (List.mem_of_getLast? hc)
    have hzero : cuts (a :: q) "&quot;".toList = 0 :=
      cuts_eq_zero_of_notMem List.mem_cons_self (hp a List.mem_cons_self).2
    have hq : ∀ c ∈ q, c ≠ '"' ∧ c ≠ '&' := fun c hc ↦
      ⟨(hp c (List.mem_cons_of_mem a hc)).1,
        fun h ↦ (hp c (List.mem_cons_of_mem a hc)).2 (h ▸ List.mem_cons_self)⟩
    have hcut := cut_flatMap_escapeChar (hp a List.mem_cons_self).1 hq
      (cut_append_of_getLast? hne hend) text
    rw [cuts, hcut, cuts]
    generalize cut (a :: q) text = chars
    induction chars with
    | nil => rfl
    | cons c? chars ih =>
      rw [List.flatMap_cons, List.count_append, ih]
      split
      · next hc => rw [← cuts, hzero, hc, List.count_cons_of_ne (by simp), Nat.zero_add]
      · rw [← List.count_append, List.singleton_append]

/-! ## References -/

theorem reference_ne_nil : "&quot;".toList ≠ [] := by decide

theorem cut_reference (text : List Char) :
    cut "&quot;".toList ("&quot;".toList ++ text) =
      cut "&quot;".toList "&quot;".toList ++ cut "&quot;".toList text := by
  rw [cut_append_self reference_ne_nil, cut_self reference_ne_nil, List.singleton_append]

/-- The references in a written label are those of the label and those that stand for its double
quotes. -/
theorem unescapeLabel_escapeLabel (label : String) :
    unescapeLabel (escapeLabel label) = unescapeLabel label := by
  have href : "&quot;".toList = '&' :: "quot;".toList := rfl
  have hcut := cut_flatMap_escapeChar (a := '&') (q := "quot;".toList) (by decide) (by simp)
    cut_reference label.toList
  rw [unescapeLabel, unescapeLabel, replaceAll, replaceAll, toList_escapeLabel, href, hcut, fill,
    List.flatMap_assoc, fill]
  congr 2
  funext c?
  split
  · next hc =>
    rw [← href, cut_self reference_ne_nil, hc]
    rfl
  · exact List.flatMap_singleton _ c?

/-- Writing double quotes instead of references makes no difference to what is written. -/
theorem escapeLabel_unescapeLabel (label : String) :
    escapeLabel (unescapeLabel label) = escapeLabel label := by
  have hlabel := fill_cut_self reference_ne_nil label.toList
  unfold unescapeLabel replaceAll escapeLabel
  rw [String.toList_ofList]
  conv_rhs => rw [← hlabel]
  unfold fill
  rw [List.flatMap_assoc, List.flatMap_assoc]
  congr 2
  funext c?
  cases c? with
  | none => decide
  | some c => rfl

/-- Writing a label is replacing its double quotes. -/
theorem escapeLabel_eq_replaceAll (label : String) :
    escapeLabel label = replaceAll "\"" "&quot;" label := by
  unfold escapeLabel replaceAll
  congr 1
  induction label.toList using cut_induction (p := "\"".toList) (by decide) with
  | nil => rw [cut_nil, fill_nil, List.flatMap_nil]
  | found text ih =>
    rw [List.flatMap_append, cut_append_self (by decide), fill_none, ih]
    rfl
  | other c text h ih =>
    have hc : c ≠ '"' := by
      rintro rfl
      exact h (List.prefix_append "\"".toList text)
    rw [cut_cons_of_not_isPrefix h, fill_some, List.flatMap_cons, escapeChar_of_ne hc, ih,
      List.singleton_append]

/-- **Labels as they are written.** To write a label is to replace its double quotes by references.
What is written contains no double quote, and is written as it stands if it is written again. Two
labels are written alike exactly if they are the same when every reference in them is replaced by a
double quote, which leaves no reference behind. -/
theorem escapeLabel_eq_escapeLabel_iff (a b : String) :
    escapeLabel a = replaceAll "\"" "&quot;" a ∧
    '"' ∉ (escapeLabel a).toList ∧
    escapeLabel (escapeLabel a) = escapeLabel a ∧
    (escapeLabel a = escapeLabel b ↔
      replaceAll "&quot;" "\"" a = replaceAll "&quot;" "\"" b) ∧
    ¬"&quot;".toList <:+: (replaceAll "&quot;" "\"" a).toList := by
  refine ⟨escapeLabel_eq_replaceAll a, fun h ↦ quote_notMem_escapeLabel h rfl, ?_, ?_, ?_⟩
  · rw [← String.toList_inj, toList_escapeLabel (escapeLabel a)]
    exact flatMap_escapeChar_eq_self fun c ↦ quote_notMem_escapeLabel
  · constructor
    · intro h
      have hunescape := congrArg unescapeLabel h
      rwa [unescapeLabel_escapeLabel, unescapeLabel_escapeLabel] at hunescape
    · intro h
      have hescape := congrArg escapeLabel h
      rwa [← unescapeLabel, ← unescapeLabel, escapeLabel_unescapeLabel,
        escapeLabel_unescapeLabel] at hescape
  · rw [toList_replaceAll]
    exact not_isInfix_fill_cut (r := "\"".toList) (by simp) (by simp) reference_ne_nil a.toList

end TreeDrawing.Dot
