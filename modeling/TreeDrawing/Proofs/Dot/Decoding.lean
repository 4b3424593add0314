import Mathlib.Data.List.Induction
import TreeDrawing.Proofs.Dot.Label
import TreeDrawing.Proofs.Dot.Look

/-!
# Reading a drawing back

Two trees with the same document are alike. Read from the front, a document need not make sense:
the names in its frame and the colours are written as they are, and a label may hold line breaks and
whole lines that look like statements. Read from the end it does. The last label is what stands
behind the last double quote but one, since a written label has none. In front of it is the name of
a shape, and no two of the three names end in the same letter, so the class is known and with it the
colours, whatever they are. What is left ends in a number behind a blank, and perhaps in an edge
behind the end of the line before.

All these steps are one lemma, `append_inj_of_last`: a text splits in only one way into a part whose
last character is of one sort and a part whose characters are all of the other.
-/

namespace TreeDrawing.Dot

/-! ## Splitting from the end -/

/-- Two splits of a list agree if in both the second part has only items with `P`, and the first
part ends in an item without, if it has any. -/
theorem append_inj_of_last {α : Type} {P : α → Prop} {a b a' b' : List α}
    (ha : ∀ x ∈ a.getLast?, ¬P x) (ha' : ∀ x ∈ a'.getLast?, ¬P x) (hb : ∀ x ∈ b, P x)
    (hb' : ∀ x ∈ b', P x) (h : a ++ b = a' ++ b') : a = a' ∧ b = b' := by
  have key : ∀ {a b c : List α}, (∀ x ∈ (a ++ c).getLast?, ¬P x) → (∀ x ∈ c ++ b, P x) →
      c = [] := by
    intro a b c hlast hall
    rcases List.eq_nil_or_concat c with rfl | ⟨c, x, rfl⟩
    · rfl
    · refine absurd (hall x (by simp)) (hlast x ?_)
      simp [← List.append_assoc]
  rcases List.append_eq_append_iff.1 h with ⟨c, rfl, rfl⟩ | ⟨c, rfl, rfl⟩
  · obtain rfl := key ha' hb
    exact ⟨(List.append_nil a).symm, rfl⟩
  · obtain rfl := key ha hb'
    exact ⟨List.append_nil a', rfl⟩

/-- The form for text in which a fixed text stands between the two parts. -/
theorem append_inj_of_getLast {P : Char → Prop} {a b a' b' : List Char} {x : Char} {s : String}
    (hs : s.toList.getLast? = some x) (hx : ¬P x) (hb : ∀ c ∈ b, P c) (hb' : ∀ c ∈ b', P c)
    (h : a ++ (s.toList ++ b) = a' ++ (s.toList ++ b')) : a = a' ∧ b = b' := by
  have hlast : ∀ l : List Char, ∀ y ∈ (l ++ s.toList).getLast?, ¬P y := by
    intro l y hy
    rw [List.getLast?_append, hs, Option.some_or, Option.mem_def, Option.some.injEq] at hy
    exact hy ▸ hx
  rw [← List.append_assoc, ← List.append_assoc] at h
  obtain ⟨h₁, h₂⟩ := append_inj_of_last (hlast a) (hlast a') hb hb' h
  exact ⟨List.append_cancel_right h₁, h₂⟩

/-! ## The parts of a line -/

theorem isDigit_of_mem_toString {n : Nat} {c : Char} (hc : c ∈ (toString n).toList) :
    c.isDigit = true := by
  rw [Nat.toString_eq_repr, Nat.toList_repr] at hc
  exact Nat.isDigit_of_mem_toDigits (by decide) (by decide) hc

theorem toString_toList_inj {m n : Nat} (h : (toString m).toList = (toString n).toList) :
    m = n := by
  simp only [Nat.toString_eq_repr, Nat.toList_repr] at h
  have := congrArg (Nat.ofDigitChars 10 · 0) h
  simpa only [Nat.ofDigitChars_ten_toDigits] using this

/-- No two names of shapes end in the same letter. -/
theorem shape_inj {a b : List Char} {k l : NodeClass}
    (h : a ++ k.shape.toList = b ++ l.shape.toList) : k = l := by
  have hlast := congrArg List.getLast? h
  revert hlast
  cases k <;> cases l <;> simp [NodeClass.shape]

/-- What stands between the number of a node and the name of its shape. -/
def Palette.colours (p : Palette) (k : NodeClass) : List Char :=
  " [fontcolor=\"".toList ++ ((p.style k).fontColor.toList ++
    ("\",style=\"filled\",fillcolor=\"".toList ++
      ((p.style k).fillColor.toList ++ "\",shape=\"".toList)))

/-- A line is read from its end: label, shape, colours, number, and what was there before. -/
theorem append_nodeLine (c : Config) (id : Nat) (n : Node) (a : List Char) :
    a ++ (c.nodeLine id n).toList =
      a ++ ("  ".toList ++ (toString id).toList) ++ c.palette.colours n.nodeClass
        ++ n.nodeClass.shape.toList ++ ("\",label=\"".toList ++ (c.look n).label.toList)
        ++ "\"];\n".toList := by
  unfold Config.nodeLine Config.look Palette.colours
  simp only [← Palette.style_nodeClass, Palette.shape_style, String.toList_append,
    List.append_assoc]

/-- The line of a node, behind whatever was written before, gives away all that it shows. -/
theorem nodeLine_inj {c : Config} {a b : List Char} {i j : Nat} {n m : Node}
    (h : a ++ (c.nodeLine i n).toList = b ++ (c.nodeLine j m).toList) :
    a = b ∧ i = j ∧ c.look n = c.look m := by
  rw [append_nodeLine, append_nodeLine, List.append_cancel_right_eq] at h
  obtain ⟨h, hlabel⟩ := append_inj_of_getLast (P := (· ≠ '"')) (x := '"') rfl
    (not_not_intro rfl) (fun _ ↦ quote_notMem_escapeLabel) (fun _ ↦ quote_notMem_escapeLabel) h
  have hclass := shape_inj h
  rw [hclass, List.append_cancel_right_eq, List.append_cancel_right_eq] at h
  obtain ⟨hab, hid⟩ := append_inj_of_getLast (P := (·.isDigit = true)) (x := ' ') rfl
    (by decide) (fun _ ↦ isDigit_of_mem_toString) (fun _ ↦ isDigit_of_mem_toString) h
  refine ⟨hab, toString_toList_inj hid, ?_⟩
  rw [Look.mk.injEq]
  exact ⟨hclass, String.toList_inj.1 hlabel⟩

/-- Whether a text is empty or ends with a line. -/
def EndsLine (a : List Char) : Prop := ∀ x ∈ a.getLast?, x = '\n'

theorem endsLine_append {b : List Char} (hb : b.getLast? = some '\n') (a : List Char) :
    EndsLine (a ++ b) := by
  intro x hx
  rw [List.getLast?_append, hb, Option.some_or, Option.mem_some_iff] at hx
  exact hx.symm

/-- The line of an edge, behind whole lines, gives away where it begins. -/
theorem edgeLine_inj {a b : List Char} {p? q? : Option Nat} {i : Nat} (ha : EndsLine a)
    (hb : EndsLine b) (hpq : p? = none ↔ q? = none)
    (h : a ++ (edgeLine p? i).toList = b ++ (edgeLine q? i).toList) : a = b ∧ p? = q? := by
  have hdigit : ∀ {a : List Char}, EndsLine a → ∀ x ∈ a.getLast?, ¬x.isDigit = true := by
    intro a ha x hx
    rw [ha x hx]
    decide
  cases p? with
  | none =>
    obtain rfl := hpq.1 rfl
    exact ⟨List.append_cancel_right h, rfl⟩
  | some p =>
    cases q? with
    | none => exact absurd (hpq.2 rfl) (Option.some_ne_none p)
    | some q =>
      simp only [edgeLine, String.toList_append, ← List.append_assoc,
        List.append_cancel_right_eq] at h
      obtain ⟨hab, hpq⟩ := append_inj_of_last (P := (·.isDigit = true)) (hdigit ha) (hdigit hb)
        (fun _ ↦ isDigit_of_mem_toString) (fun _ ↦ isDigit_of_mem_toString) h
      exact ⟨hab, congrArg some (toString_toList_inj hpq)⟩

/-! ## All the lines of a body -/

/-- Whether visits are numbered from zero, and all but the first have a parent. -/
def Numbered (vs : List Visit) : Prop :=
  ∀ k v, vs[k]? = some v → v.id = k ∧ (v.parent? = none ↔ k = 0)

theorem Numbered.of_append {vs ws : List Visit} (h : Numbered (vs ++ ws)) : Numbered vs := by
  intro k v hv
  refine h k v ?_
  rwa [List.getElem?_append_left (List.getElem?_eq_some_iff.1 hv).1]

theorem Numbered.last {vs : List Visit} {v : Visit} (h : Numbered (vs ++ [v])) :
    v.id = vs.length ∧ (v.parent? = none ↔ vs.length = 0) :=
  h vs.length v (by simp)

/-- The lines of visits, as characters. -/
def lines (c : Config) (vs : List Visit) : List Char := vs.flatMap fun v ↦ (v.text c).toList

/-- What is shown of visits determines their lines. -/
theorem lines_eq_of_shown_eq {c : Config} {vs ws : List Visit}
    (h : vs.map (Visit.shown c) = ws.map (Visit.shown c)) : lines c vs = lines c ws := by
  induction vs generalizing ws with
  | nil =>
    rw [List.map_nil, eq_comm, List.map_eq_nil_iff] at h
    rw [h]
  | cons v vs ih =>
    cases ws with
    | nil => simp at h
    | cons w ws =>
      rw [List.map_cons, List.map_cons, List.cons.injEq] at h
      have htail : lines c vs = lines c ws := ih h.2
      rw [lines, List.flatMap_cons, ← lines, htail, Visit.text_eq_of_shown_eq h.1, lines,
        lines, List.flatMap_cons]

theorem lines_concat (c : Config) (vs : List Visit) (v : Visit) :
    lines c (vs ++ [v]) =
      lines c vs ++ (edgeLine v.parent? v.id).toList ++ (c.nodeLine v.id v.node).toList := by
  rw [lines, List.flatMap_append, List.flatMap_singleton, Visit.text, String.toList_append,
    ← List.append_assoc, lines]

theorem endsLine_lines (c : Config) (vs : List Visit) : EndsLine (lines c vs) := by
  rcases List.eq_nil_or_concat vs with rfl | ⟨vs, v, rfl⟩
  · exact fun x hx ↦ nomatch hx
  · rw [List.concat_eq_append, lines_concat, append_nodeLine]
    exact endsLine_append rfl _

/-- Numbered visits with the same lines show the same. -/
theorem shown_eq_of_lines_eq {c : Config} {vs ws : List Visit} (hv : Numbered vs)
    (hw : Numbered ws) (h : lines c vs = lines c ws) :
    vs.map (Visit.shown c) = ws.map (Visit.shown c) := by
  have hne : ∀ (vs : List Visit) (v : Visit), lines c (vs ++ [v]) ≠ [] := by
    intro vs v
    rw [lines_concat, append_nodeLine]
    exact List.append_ne_nil_of_right_ne_nil _ (by decide)
  induction vs using List.reverseRecOn generalizing ws with
  | nil =>
    rcases List.eq_nil_or_concat ws with rfl | ⟨ws, w, rfl⟩
    · rfl
    · rw [List.concat_eq_append] at h
      exact absurd h.symm (hne ws w)
  | append_singleton vs v ih =>
    rcases List.eq_nil_or_concat ws with rfl | ⟨ws, w, rfl⟩
    · exact absurd h (hne vs v)
    · rw [List.concat_eq_append] at h hw ⊢
      rw [lines_concat, lines_concat] at h
      obtain ⟨h, hid, hlook⟩ := nodeLine_inj h
      have hlength : vs.length = ws.length := by rw [← hv.last.1, hid, hw.last.1]
      have hparent : v.parent? = none ↔ w.parent? = none := by
        rw [hv.last.2, hw.last.2, hlength]
      rw [hid] at h
      obtain ⟨h, hpq⟩ := edgeLine_inj (endsLine_lines c vs) (endsLine_lines c ws) hparent h
      rw [List.map_append, List.map_append, ih hv.of_append hw.of_append h, List.map_singleton,
        List.map_singleton, Visit.shown, Visit.shown, hpq, hid, hlook]

end Dot

/-! ## Trees -/

open Dot

mutual

/-- The visits of a tree are numbered on, and only the first may have no parent. -/
theorem Tree.getElem?_visits {parent? : Option Nat} {id k : Nat} {v : Visit} :
    ∀ t : Tree, (t.visits parent? id)[k]? = some v →
      v.id = id + k ∧ (v.parent? = none ↔ k = 0 ∧ parent? = none)
  | .node n cs, h => by
    cases k with
    | zero =>
      rw [Tree.visits, List.getElem?_cons_zero, Option.some.injEq] at h
      subst h
      simp
    | succ k =>
      rw [Tree.visits, List.getElem?_cons_succ] at h
      have hcs := Forest.getElem?_visits cs h
      exact ⟨by omega, by simp [hcs.2]⟩

/-- The visits of the children of a node are numbered on, and all have a parent. -/
theorem Forest.getElem?_visits {parent id k : Nat} {v : Visit} :
    ∀ f : Forest, (Forest.visits (some parent) id f)[k]? = some v →
      v.id = id + k ∧ v.parent? ≠ none
  | [], h => by simp [Forest.visits] at h
  | t :: ts, h => by
    rw [Forest.visits] at h
    by_cases hk : k < t.size
    · rw [List.getElem?_append_left (by rwa [Tree.length_visits])] at h
      have ht := Tree.getElem?_visits t h
      exact ⟨ht.1, by simp [ht.2]⟩
    · rw [List.getElem?_append_right (by rwa [Tree.length_visits, ← Nat.not_lt]),
        Tree.length_visits] at h
      have hts := Forest.getElem?_visits ts h
      exact ⟨by omega, hts.2⟩

end

theorem Tree.numbered_visits (t : Tree) : Numbered (t.visits none 0) := by
  intro k v h
  have := t.getElem?_visits h
  exact ⟨by omega, by simp [this.2]⟩

/-- The document of a tree is its lines in a frame that depends on the choices alone. -/
theorem toList_toDotWith (t : Tree) (c : Config) :
    (toDotWith t c).toList =
      c.heading.toList ++ lines c (t.visits none 0) ++ "\x7d".toList := by
  rw [toDotWith_eq, Tree.block_eq_join, String.toList_append, String.toList_append,
    String.toList_join, List.flatMap_map, lines]

/-- Trees are drawn alike exactly if they are alike. -/
theorem toDotWith_inj_iff (t u : Tree) (c : Config) :
    toDotWith t c = toDotWith u c ↔ t.Alike c u := by
  rw [← String.toList_inj, toList_toDotWith, toList_toDotWith, List.append_cancel_right_eq,
    List.append_cancel_left_eq, alike_iff_shown_visits]
  exact ⟨shown_eq_of_lines_eq t.numbered_visits u.numbered_visits, lines_eq_of_shown_eq⟩

/-- **Documents and trees.** Whatever the choices, two trees have the same document exactly if they
have the same shape, and the same class and written caption in every place. Classes tell nodes
without a value from the others, and these by their kind. Nothing else of a node reaches a
document. -/
theorem toDotWith_eq_iff_alike (c : Config) :
    (∀ t u : Tree, toDotWith t c = toDotWith u c ↔ t.Alike c u) ∧
      (∀ n m : Node, n.nodeClass = m.nodeClass ↔
        (n.value? = none ↔ m.value? = none) ∧ (n.value? ≠ none → n.kind = m.kind)) ∧
      ∀ t : Tree, toDotWith (t.mapNodes bare) c = toDotWith t c :=
  ⟨fun t u ↦ toDotWith_inj_iff t u c, fun _ _ ↦ Node.nodeClass_eq_iff,
    fun t ↦ (toDotWith_inj_iff _ _ c).2 (Tree.alike_mapNodes (look_bare c) t)⟩

end TreeDrawing
