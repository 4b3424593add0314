import TreeDrawing.Proofs.Dot.Decoding
import TreeDrawing.Proofs.Dot.Descent
import TreeDrawing.Proofs.Dot.Edge

/-!
# What the log says about a drawing

A drawing reports every node it enters and every node it leaves. The document has no trace of the
leaves, so the log is the only place where it can be seen which node was left when.

A `Mark` is what such a report says, and no two marks are reported in the same words
(`Mark.entry_injective`). So everything about the log is said about marks. The marks of a history
are nested: a node that is left is always the one that was entered last and not left before
(`Drawing.follow_marks`), whether the calls come from a walk or from any other driver. Where no
node stays open, this means that every node that is entered is left once (`Mark.perm_of_follow`).

## Main results

* `Drawing.driven_eq`: the log of a history of calls.
* `Drawing.run_leave_driven`: the node that a leave reports.
* `Tree.exists_reports_eq_append`: where the reports of a subtree are among those of a tree.
-/

namespace TreeDrawing

open Log Dot Dot.History

/-! ## Names and numbers -/

/-- The two kinds are known from the first letter of their names. -/
theorem Kind.name_append_inj {k l : Kind} {a b : List Char}
    (h : k.name.toList ++ a = l.name.toList ++ b) : k = l ∧ a = b := by
  have hkl : k = l := by
    have hhead := congrArg List.head? h
    revert hhead
    cases k <;> cases l <;> simp [name]
  rw [hkl] at h
  exact ⟨hkl, List.append_cancel_left h⟩

theorem NodeClass.name_inj {k l : NodeClass} (h : k.name = l.name) : k = l := by
  revert h
  cases k <;> cases l <;> simp [name]

/-- A number in front of a colon is known from the text it begins. -/
theorem Dot.append_colon_inj {i j : Nat} {a b : List Char}
    (h : (toString i).toList ++ ':' :: a = (toString j).toList ++ ':' :: b) : i = j ∧ a = b := by
  have hdigits : ∀ (n : Nat) (l : List Char),
      ((toString n).toList ++ ':' :: l).takeWhile Char.isDigit = (toString n).toList := by
    intro n l
    rw [List.takeWhile_append_of_pos fun _ ↦ isDigit_of_mem_toString,
      List.takeWhile_cons_of_neg (by decide), List.append_nil]
  have hid : i = j := toString_toList_inj (by rw [← hdigits i a, h, hdigits])
  rw [hid] at h
  exact ⟨hid, (List.cons.inj (List.append_cancel_left h)).2⟩

namespace Dot

/-! ## Marks -/

/-- What a drawing reports of a node: that it has been entered, with its kind and its class, or
that it has been left. -/
inductive Mark where
  | entered (id : Nat) (kind : Kind) (look : NodeClass)
  | left (id : Nat)
  deriving DecidableEq

namespace Mark

/-- The report of a mark. -/
def entry : Mark → Entry
  | entered id kind look =>
    ⟨.trace, "Entering node " ++ toString id ++ ": kind=" ++ kind.name ++ ", class=" ++ look.name⟩
  | left id => ⟨.trace, "Leaving node " ++ toString id⟩

/-- The node that is entered. -/
def entered? : Mark → Option Nat
  | entered id _ _ => some id
  | left _ => none

/-- The node that is left. -/
def left? : Mark → Option Nat
  | entered .. => none
  | left id => some id

/-- Follows marks with the numbers of the open nodes, the innermost first. There is no answer if a
node is left that is not the innermost open one. -/
def follow : List Nat → List Mark → Option (List Nat)
  | ids, [] => some ids
  | ids, entered id _ _ :: ms => follow (id :: ids) ms
  | [], left _ :: _ => none
  | top :: ids, left id :: ms => if id = top then follow ids ms else none

theorem entry_entered (id : Nat) (n : Node) :
    (entered id n.kind n.nodeClass).entry = entering id n := rfl

theorem entry_left (id : Nat) : (left id).entry = leaving id := rfl

theorem toList_text_entered (id : Nat) (kind : Kind) (look : NodeClass) :
    (entered id kind look).entry.text.toList = "Entering node ".toList ++
      ((toString id).toList ++ ':' :: (" kind=".toList ++
        (kind.name.toList ++ (", class=".toList ++ look.name.toList)))) := by
  simp [entry]

theorem toList_text_left (id : Nat) :
    (left id).entry.text.toList = "Leaving node ".toList ++ (toString id).toList :=
  String.toList_append

/-- Different things are reported in different words. -/
theorem entry_injective : Function.Injective entry := by
  intro m m' h
  have htext : m.entry.text.toList = m'.entry.text.toList := by rw [h]
  rcases m with ⟨i, k, l⟩ | i <;> rcases m' with ⟨j, k', l'⟩ | j
  · rw [toList_text_entered, toList_text_entered] at htext
    have hid := List.append_cancel_left htext
    obtain ⟨rfl, hkind⟩ := append_colon_inj hid
    obtain ⟨rfl, hlook⟩ := Kind.name_append_inj (List.append_cancel_left hkind)
    rw [NodeClass.name_inj (String.toList_inj.1 (List.append_cancel_left hlook))]
  · simp [toList_text_entered, toList_text_left] at htext
  · simp [toList_text_entered, toList_text_left] at htext
  · rw [toList_text_left, toList_text_left] at htext
    rw [toString_toList_inj (List.append_cancel_left htext)]

theorem entry_ne_walkComplete (m : Mark) : m.entry ≠ .walkComplete := by
  intro h
  replace h := congrArg (fun e ↦ e.text.toList.head?) h
  cases m <;> simp [toList_text_entered, toList_text_left, Entry.walkComplete] at h

/-- Every node that was open or has been entered is left once or is still open. -/
theorem perm_of_follow {ids rest : List Nat} {ms : List Mark} (h : follow ids ms = some rest) :
    (ms.filterMap left? ++ rest).Perm (ms.filterMap entered? ++ ids) := by
  induction ms generalizing ids with
  | nil =>
    obtain rfl := Option.some.inj h
    exact .rfl
  | cons m ms ih =>
    match m, ids with
    | entered id _ _, ids =>
      have hrest : follow (id :: ids) ms = some rest := h
      exact (ih hrest).trans List.perm_middle
    | left id, top :: ids =>
      rw [follow] at h
      split at h
      · next heq =>
        rw [heq]
        exact ((ih h).cons top).trans List.perm_middle.symm
      · exact nomatch h
    | left _, [] => exact nomatch h

end Mark

/-! ## The marks of a history -/

namespace Drawing

variable (d : Drawing)

/-- The mark of a call, if it succeeds. -/
def mark? : Event → Option Mark
  | .enter n => some (.entered d.nodeCount n.kind n.nodeClass)
  | .leave => d.openIds.head?.map .left

/-- The marks of a history of calls, some of which may fail. -/
def marks (d : Drawing) : History → List Mark
  | [] => []
  | e :: h => (d.mark? e).toList ++ (d.call e).marks h

theorem step?_eq (e : Event) : d.step? e = (d.mark? e).map fun m ↦ (m.entry, d.call e) := by
  cases e with
  | enter n => rfl
  | leave =>
    rcases d with ⟨c, ids, count, newest⟩
    cases ids <;> rfl

theorem follow_mark? (e : Event) (ms : List Mark) :
    Mark.follow d.openIds ((d.mark? e).toList ++ ms) = Mark.follow (d.call e).openIds ms := by
  rcases d with ⟨c, ids, count, newest⟩
  cases e with
  | enter n => rfl
  | leave =>
    cases ids with
    | nil => rfl
    | cons id ids => exact if_pos rfl

/-- Whoever makes the calls, a node that is left is the innermost open one. -/
theorem follow_marks (h : History) :
    Mark.follow d.openIds (d.marks h) = some (d.calls h).openIds := by
  induction h generalizing d with
  | nil => rfl
  | cons e h ih =>
    rw [marks, follow_mark?, ih]
    rfl

/-- The nodes that are entered are numbered on. -/
theorem filterMap_entered?_marks (h : History) :
    (d.marks h).filterMap Mark.entered? = List.range' d.nodeCount (enters h) := by
  induction h generalizing d with
  | nil => rfl
  | cons e h ih =>
    rw [marks, List.filterMap_append, ih]
    cases e with
    | enter n =>
      rw [enters_enter, List.range'_succ]
      rfl
    | leave =>
      rw [enters_leave, call_leave, mark?]
      cases d.openIds <;> rfl

theorem marks_append (h k : History) : d.marks (h ++ k) = d.marks h ++ (d.calls h).marks k := by
  induction h generalizing d with
  | nil => rfl
  | cons e h ih =>
    rw [List.cons_append, marks, ih, marks, List.append_assoc]
    rfl

/-- Calls that all succeed report their marks. -/
theorem reports_of_steps? {d d' : Drawing} {h : History} {entries : List Entry}
    (hs : d.steps? h = some (entries, d')) : entries = (d.marks h).map Mark.entry := by
  induction h generalizing d entries with
  | nil =>
    obtain ⟨rfl, -⟩ := Prod.mk.inj (Option.some.inj hs)
    rfl
  | cons e h ih =>
    cases hm : d.mark? e with
    | none => simp [steps?, step?_eq, hm] at hs
    | some m =>
      have hstep : d.step? e = some (m.entry, d.call e) := by rw [step?_eq, hm, Option.map_some]
      rw [steps?_cons_of_step? hstep, Option.map_eq_some_iff] at hs
      obtain ⟨⟨further, d''⟩, hfurther, heq⟩ := hs
      obtain ⟨rfl, rfl⟩ := Prod.mk.inj heq
      rw [ih hfurther, marks, hm]
      rfl

/-! ## Calls made by hand -/

/-- A drawing and its log after a call, whether it succeeds or not. -/
def told (s : Logged Drawing) (e : Event) : Logged Drawing :=
  match (visitor.tell e).run s with
  | .ok _ s => s
  | .error _ s => s

/-- A drawing and its log after a history of calls. -/
def driven (s : Logged Drawing) (h : History) : Logged Drawing := h.foldl told s

theorem told_eq (s : Logged Drawing) (e : Event) :
    told s e = ⟨s.state.call e, (s.state.mark? e).toList.map Mark.entry ++ s.newest⟩ := by
  rcases s with ⟨⟨c, ids, count, newest⟩, log⟩
  cases e with
  | enter n => rfl
  | leave => cases ids <;> rfl

/-- The log has the reports of the marks, and of nothing else. -/
theorem driven_eq (s : Logged Drawing) (h : History) :
    driven s h = ⟨s.state.calls h, ((s.state.marks h).map Mark.entry).reverse ++ s.newest⟩ := by
  induction h generalizing s with
  | nil => rfl
  | cons e h ih =>
    rw [driven, List.foldl_cons, ← driven, ih, told_eq, marks]
    cases s.state.mark? e <;> simp [calls]

theorem run_leave_of_openIds_eq_cons {s : Logged Drawing} {id : Nat} {ids : List Nat}
    (h : s.state.openIds = id :: ids) :
    visitor.leave.run s =
      .ok () { state := { s.state with openIds := ids }, newest := leaving id :: s.newest } := by
  rcases s with ⟨⟨c, _, count, newest⟩, log⟩
  subst h
  rfl

theorem run_leave_of_openIds_eq_nil {s : Logged Drawing} (h : s.state.openIds = []) :
    visitor.leave.run s = .error .leave s := by
  rcases s with ⟨⟨c, _, count, newest⟩, log⟩
  subst h
  rfl

section

variable (c : Config) (h : History)

theorem openIds_driven_create :
    (driven (create c) h).state.openIds = (unclosed 0 h).reverse := by
  rw [driven_eq, openIds_calls_create]

theorem entries_driven_create :
    (driven (create c) h).entries =
      c.created :: ((create c).state.marks h).map Mark.entry := by
  rw [driven_eq, Logged.entries, List.reverse_append, List.reverse_reverse]
  rfl

theorem follow_marks_create :
    Mark.follow [] ((create c).state.marks h) = some (unclosed 0 h).reverse := by
  rw [← openIds_calls_create c]
  exact follow_marks (create c).state h

end

/-- A leave reports the last enter that is still open. -/
theorem run_leave_driven {c : Config} {h : History} {id : Nat}
    (hid : (unclosed 0 h).getLast? = some id) : ∃ s',
      visitor.leave.run (driven (create c) h) = .ok () s' ∧
        s'.entries = (driven (create c) h).entries ++ [leaving id] := by
  obtain ⟨ids, hids⟩ := List.getLast?_eq_some_iff.1 hid
  have hopen : (driven (create c) h).state.openIds = id :: ids.reverse := by
    rw [openIds_driven_create, hids, List.reverse_append, List.reverse_singleton,
      List.singleton_append]
  exact ⟨_, run_leave_of_openIds_eq_cons hopen, List.reverse_cons⟩

end Drawing

/-! ## Declared nodes -/

/-- The node that is declared, if the statement is a declaration. -/
def Statement.declared? : Statement → Option Nat
  | edge .. => none
  | node id _ _ => some id

theorem Visit.filterMap_declared?_statements (c : Config) (v : Visit) :
    (v.statements c).filterMap Statement.declared? = [v.id] := by
  rcases v with ⟨_ | parent, id, n⟩ <;> rfl

end Dot

theorem filterMap_declared?_visits (c : Config) (vs : List Visit) :
    (vs.flatMap (Visit.statements c)).filterMap Statement.declared? = vs.map Visit.id := by
  rw [List.filterMap_flatMap, List.map_eq_flatMap]
  simp only [Visit.filterMap_declared?_statements]

/-! ## The reports of a tree -/

theorem Forest.reports_eq_flatten (id : Nat) (f : Forest) :
    Forest.reports id f =
      (f.mapIdx fun k t ↦ t.reports (id + Forest.size (f.take k))).flatten := by
  induction f generalizing id with
  | nil => rfl
  | cons t rest ih =>
    rw [Forest.reports, ih, List.mapIdx_cons, List.flatten_cons]
    simp only [List.take_zero, List.take_succ_cons, Forest.size, Nat.add_zero, Nat.add_assoc]

/-- A node is entered, then everything below it is reported, then it is left. -/
theorem Tree.reports_eq (id : Nat) (t : Tree) :
    t.reports id = entering id t.root ::
      (t.children.mapIdx fun k u ↦ u.reports (id + 1 + Forest.size (t.children.take k))).flatten
        ++ [leaving id] := by
  cases t with
  | node n cs => rw [Tree.reports, Forest.reports_eq_flatten, root_node, children_node]

theorem Dot.Drawing.map_entry_marks_events (d : Drawing) (t : Tree) :
    (d.marks t.events).map Mark.entry = t.reports d.nodeCount :=
  (Drawing.reports_of_steps? (Tree.steps?_events d t)).symm

/-- The reports of a tree contain those of each of its subtrees in one piece, numbered on from the
number of the place. -/
theorem Tree.exists_reports_eq_append {t s : Tree} {p : Tree.Place} (id : Nat)
    (h : t.at? p = some s) : ∃ before after,
      t.reports id = before ++ (s.reports (id + t.number p) ++ after) := by
  obtain ⟨before, after, hevents, hnumber, -⟩ := Tree.exists_events_eq_append h
  let d : Drawing := { config := {}, nodeCount := id }
  have hcount : (d.calls before).nodeCount = id + t.number p := by
    rw [Drawing.nodeCount_calls, hnumber]
  have ht := d.map_entry_marks_events t
  rw [hevents, Drawing.marks_append, Drawing.marks_append, List.map_append, List.map_append,
    Drawing.map_entry_marks_events, hcount] at ht
  exact ⟨_, _, ht.symm⟩

/-- The marks of a tree whose topmost node has the number `id`. -/
def Tree.marks (id : Nat) (t : Tree) : List Mark :=
  ({ config := {}, nodeCount := id } : Drawing).marks t.events

section

variable (id : Nat) (t : Tree)

theorem Tree.map_entry_marks : (t.marks id).map Mark.entry = t.reports id :=
  Drawing.map_entry_marks_events _ t

theorem Tree.follow_marks : Mark.follow [] (t.marks id) = some [] := by
  have hopen := Drawing.follow_marks { config := {}, nodeCount := id } t.events
  rw [Drawing.calls_of_steps? (Tree.steps?_events _ t)] at hopen
  exact hopen

theorem Tree.filterMap_entered?_marks :
    (t.marks id).filterMap Mark.entered? = List.range' id t.size := by
  rw [Tree.marks, Drawing.filterMap_entered?_marks, t.enters_events]

theorem Tree.filterMap_left?_marks_perm :
    ((t.marks id).filterMap Mark.left?).Perm (List.range' id t.size) := by
  have hperm := Mark.perm_of_follow (t.follow_marks id)
  rwa [t.filterMap_entered?_marks, List.append_nil, List.append_nil] at hperm

end

/-- The child is entered and left while the node above it is open. -/
example : (Tree.node {} [.single {}]).marks 5 =
    [.entered 5 .ordinary .leaf, .entered 6 .ordinary .leaf, .left 6, .left 5] := by decide

/-- **The log.** A report says which node is entered, with its kind and class, or which node is
left; it says nothing else, and it is not the one that ends a walk.

Walk a tree from any drawing. The log gets the reports of the tree, numbered on from the nodes
entered so far, and the end of the walk. In these reports every node has its own: its number, kind
and class, then all reports of the nodes below it, child by child, then its number again; and it is
declared under that number. The reports are nested, and the numbers that are entered, those that
are left and those that are declared are the same, each once.

Or make any calls by hand. The log has a nested report for each call that succeeds. A leave reports
the last enter that is still open, and if there is none, it fails, and reports nothing. -/
theorem reports_nested :
    (Function.Injective Mark.entry ∧ ∀ m : Mark, m.entry ≠ .walkComplete) ∧
    (∀ (id : Nat) (n : Node), (Mark.entered id n.kind n.nodeClass).entry = entering id n ∧
      (Mark.left id).entry = leaving id) ∧
    (∀ (t : Tree) (id : Nat), t.reports id = entering id t.root ::
      (t.children.mapIdx fun k u ↦ u.reports (id + 1 + Forest.size (t.children.take k))).flatten
        ++ [leaving id]) ∧
    (∀ (t : Tree) (s : Logged Drawing), ∃ (s' : Logged Drawing) (written : List Statement)
        (marks : List Mark),
      let n := s.state.nodeCount
      let numbers := List.range' n t.nodeCount
      (t.walk Drawing.visitor).run s = .ok () s' ∧
      s'.entries = s.entries ++ (t.reports n ++ [.walkComplete]) ∧
      s'.state.statements = s.state.statements ++ written ∧
      (∀ u : Fin t.size, ∃ sub before after, t.at? (t.place u) = some sub ∧
        t.reports n = before ++ (sub.reports (n + u) ++ after) ∧
        s.state.config.declare (n + u) sub.root ∈ written) ∧
      t.reports n = marks.map Mark.entry ∧
      Mark.follow [] marks = some [] ∧
      marks.filterMap Mark.entered? = numbers ∧
      (marks.filterMap Mark.left?).Perm numbers ∧
      written.filterMap Statement.declared? = numbers) ∧
    ∀ (c : Config) (h : History), ∃ marks : List Mark,
      let s := Drawing.driven (Drawing.create c) h
      s.entries = c.created :: marks.map Mark.entry ∧
      Mark.follow [] marks = some (unclosed 0 h).reverse ∧
      (∀ id, (unclosed 0 h).getLast? = some id → ∃ s', Drawing.visitor.leave.run s = .ok () s' ∧
        s'.entries = s.entries ++ [leaving id]) ∧
      (unclosed 0 h = [] → Drawing.visitor.leave.run s = .error .leave s) := by
  refine ⟨⟨Mark.entry_injective, Mark.entry_ne_walkComplete⟩,
    fun id n ↦ ⟨Mark.entry_entered id n, Mark.entry_left id⟩, fun t id ↦ t.reports_eq id,
    fun t s ↦ ?_, fun c h ↦ ?_⟩
  · rw [t.nodeCount_eq_size]
    refine ⟨_, (t.visits s.state.openIds.head? s.state.nodeCount).flatMap
        (Visit.statements s.state.config), t.marks s.state.nodeCount, t.run_walk s, ?_, ?_,
      fun u ↦ ?_, (t.map_entry_marks _).symm, t.follow_marks _, t.filterMap_entered?_marks _,
      t.filterMap_left?_marks_perm _, ?_⟩
    · simp [Logged.entries]
    · rw [Drawing.statements, Drawing.extend, List.reverse_append, List.reverse_reverse,
        Drawing.statements]
    · have hu := t.getElem?_place u
      obtain ⟨sub, hsub⟩ := Option.isSome_iff_exists.1 (Tree.isSome_at?_of_getElem? hu)
      obtain ⟨before, after, hreports⟩ := Tree.exists_reports_eq_append s.state.nodeCount hsub
      rw [Tree.number_of_getElem? hu] at hreports
      exact ⟨sub, before, after, hsub, hreports, declare_mem_visits _ _ _ hu hsub⟩
    · rw [filterMap_declared?_visits, t.map_id_visits]
  · refine ⟨_, Drawing.entries_driven_create c h, Drawing.follow_marks_create c h,
      fun id hid ↦ Drawing.run_leave_driven hid, fun hnil ↦ ?_⟩
    apply Drawing.run_leave_of_openIds_eq_nil
    rw [Drawing.openIds_driven_create, hnil, List.reverse_nil]

end TreeDrawing
