import TreeDrawing.Proofs.Dot.Insertion
import TreeDrawing.Proofs.Tree.Place
import TreeDrawing.Proofs.Tree.Visitor

/-!
# A walk and its drawing, step by step

While a tree is walked, two stacks grow and shrink: the trail of the walk, which holds the children
still to be visited, and the open nodes of the drawing. They belong to different parts of the
program, and neither looks at the other. This module follows both through a walk.

A `Moment` is what there is when the loop looks at its trail. One round of the loop changes both
stacks alike (`Moment.InStep.next`), so they have the same height at every moment. The heights that
a trail still has before it are known from the trail: `Trail.reach` is the greatest of them.

Which nodes are open is settled by going down to a node, not by following the loop: everything that
was entered on the way and is not above the node has been left again.

## Main results

* `Moment.inStep_iterate`: the stacks have the same height.
* `Trail.exists_length_iterate_eq`: how high they get.
* `Tree.exists_events_eq_append`: which nodes are open when a node is entered.
-/

namespace TreeDrawing

open Log Dot Dot.History

/-! ## The height of a trail -/

namespace Trail

theorem head?_events (t : Trail) : t.events.head? = t.next?.map Prod.fst := by
  cases h : t.next? with
  | none => rw [events_of_next?_eq_none h]; rfl
  | some r => rw [events_of_next? h]; rfl

theorem events_advance (t : Trail) : t.advance.events = t.events.tail := by
  rw [advance]
  cases h : t.next? with
  | none => rw [events_of_next?_eq_none h]; rfl
  | some r => rw [events_of_next? h]; rfl

/-- Every round of the loop tells one event. -/
theorem events_iterate (t : Trail) (k : Nat) : (advance^[k] t).events = t.events.drop k := by
  induction k with
  | zero => rfl
  | succ k ih => rw [Function.iterate_succ_apply', events_advance, ih, List.tail_drop]

/-- The greatest length a trail still gets to. -/
def reach : Trail → Nat
  | [] => 0
  | f :: up => max (up.length + 1 + Forest.levels f) (reach up)

theorem length_le_reach (t : Trail) : t.length ≤ t.reach := by
  cases t with
  | nil => exact Nat.zero_le _
  | cons f up =>
    rw [reach, List.length_cons]
    omega

/-- A round of the loop forgets no length but the one of the moment. -/
theorem reach_of_next? {t up : Trail} {e : Event} (h : t.next? = some (e, up)) :
    t.reach = max t.length up.reach := by
  match t, h with
  | [] :: up, h =>
    simp only [next?, Option.some.injEq, Prod.mk.injEq] at h
    rw [← h.2, reach, Forest.levels, List.length_cons, Nat.add_zero]
  | (.node n cs :: rest) :: up, h =>
    simp only [next?, Option.some.injEq, Prod.mk.injEq] at h
    rw [← h.2, reach, reach, reach, Forest.levels, Tree.levels]
    simp only [List.length_cons]
    omega

theorem reach_eq_max (t : Trail) : t.reach = max t.length t.advance.reach := by
  unfold advance
  split
  · exact (Nat.max_eq_right t.length_le_reach).symm
  · next e up h => exact reach_of_next? h

theorem length_iterate_le (t : Trail) (k : Nat) : (advance^[k] t).length ≤ t.reach := by
  induction k generalizing t with
  | zero => exact t.length_le_reach
  | succ k ih =>
    rw [Function.iterate_succ_apply, t.reach_eq_max]
    exact (ih t.advance).trans (Nat.le_max_right _ _)

theorem exists_length_iterate_eq (t : Trail) : ∃ k, (advance^[k] t).length = t.reach := by
  induction hn : t.remaining generalizing t with
  | zero =>
    rw [remaining_eq_zero_iff] at hn
    exact ⟨0, by rw [hn]; rfl⟩
  | succ n ih =>
    have hrest : t.advance.remaining = n := by rw [remaining_advance, hn, Nat.add_sub_cancel]
    obtain ⟨k, hk⟩ := ih t.advance hrest
    have hmax := t.reach_eq_max
    by_cases hle : t.advance.reach ≤ t.length
    · exact ⟨0, by rw [hmax, Nat.max_eq_left hle]; rfl⟩
    · refine ⟨k + 1, ?_⟩
      rw [Function.iterate_succ_apply, hk, hmax, Nat.max_eq_right (Nat.le_of_not_le hle)]

end Trail

theorem Tree.reach_children (t : Tree) : Trail.reach [t.children] = t.levels := by
  cases t
  rw [children_node, Trail.reach, Trail.reach, Tree.levels, List.length_nil, Nat.zero_add,
    Nat.max_eq_left (Nat.zero_le _)]

/-! ## Moments -/

/-- What there is when the loop of a walk looks at its trail. -/
structure Moment where
  trail : Trail
  drawing : Drawing

namespace Moment

/-- What is left of the walk. -/
def rest (m : Moment) : Logging Unbalanced Drawing Unit := do
  Trail.run Drawing.visitor m.trail
  log .walkComplete

/-- One round of the loop later; at the end of the trail nothing changes any more. -/
def next (m : Moment) : Moment :=
  match m.trail.next? with
  | none => m
  | some (e, up) => ⟨up, m.drawing.call e⟩

/-- The trail is as long as there are open nodes. -/
def InStep (m : Moment) : Prop := m.trail.length = m.drawing.depth

theorem next_of_next? {m : Moment} {e : Event} {up : Trail} (h : m.trail.next? = some (e, up)) :
    m.next = ⟨up, m.drawing.call e⟩ := by
  rw [next, h]

theorem next_of_next?_eq_none {m : Moment} (h : m.trail.next? = none) : m.next = m := by
  rw [next, h]

theorem InStep.next {m : Moment} (h : m.InStep) : m.next.InStep := by
  obtain ⟨trail, d⟩ := m
  have hlength : trail.length = d.depth := h
  match trail with
  | [] => exact h
  | [] :: up =>
    have hleave : Moment.next ⟨[] :: up, d⟩ = ⟨up, d.call .leave⟩ := rfl
    rw [List.length_cons, Drawing.depth] at hlength
    rw [hleave, InStep, Drawing.depth, Drawing.call_leave, List.length_tail, ← hlength,
      Nat.add_sub_cancel]
  | (.node n cs :: rest) :: up =>
    have henter : Moment.next ⟨(.node n cs :: rest) :: up, d⟩ =
        ⟨cs :: rest :: up, d.call (.enter n)⟩ := rfl
    rw [List.length_cons, Drawing.depth] at hlength
    rw [henter, InStep, Drawing.depth, Drawing.call_enter, Drawing.openIds_enter,
      List.length_cons, List.length_cons, List.length_cons, hlength]

theorem inStep_iterate {m : Moment} (h : m.InStep) (k : Nat) : (next^[k] m).InStep := by
  induction k with
  | zero => exact h
  | succ k ih =>
    rw [Function.iterate_succ_apply']
    exact ih.next

theorem trail_next (m : Moment) : m.next.trail = m.trail.advance := by
  rw [Trail.advance]
  cases h : m.trail.next? with
  | none => rw [next_of_next?_eq_none h]
  | some r => rw [next_of_next? h]

theorem trail_iterate (m : Moment) (k : Nat) :
    (next^[k] m).trail = Trail.advance^[k] m.trail := by
  have hsemiconj : Function.Semiconj trail next Trail.advance := trail_next
  exact hsemiconj.iterate_right k m

/-- What has been drawn since is what the trail had to tell. -/
theorem drawing_iterate (m : Moment) (k : Nat) :
    (next^[k] m).drawing = m.drawing.calls (m.trail.events.take k) := by
  induction k generalizing m with
  | zero => rfl
  | succ k ih =>
    rw [Function.iterate_succ_apply, ih]
    cases h : m.trail.next? with
    | none =>
      rw [next_of_next?_eq_none h, Trail.events_of_next?_eq_none h, List.take_nil, List.take_nil]
    | some r =>
      obtain ⟨e, up⟩ := r
      rw [next_of_next? h, Trail.events_of_next? h, List.take_succ_cons]
      rfl

/-- In step, the call that comes next succeeds. -/
theorem InStep.step?_eq_some {m : Moment} (h : m.InStep) {e : Event} {up : Trail}
    (he : m.trail.next? = some (e, up)) :
    ∃ entry, m.drawing.step? e = some (entry, m.drawing.call e) := by
  cases e with
  | enter n => exact ⟨_, rfl⟩
  | leave =>
    obtain ⟨trail, ⟨c, ids, count, newest⟩⟩ := m
    cases ids with
    | nil =>
      obtain rfl : trail = [] := List.eq_nil_of_length_eq_zero h
      simp [Trail.next?] at he
    | cons id ids => exact ⟨_, rfl⟩

/-- From the next moment the walk goes on as it does from this one. -/
theorem InStep.run_rest {m : Moment} (h : m.InStep) (log : List Entry) : ∃ log',
    m.rest.run ⟨m.drawing, log⟩ = m.next.rest.run ⟨m.next.drawing, log'⟩ := by
  cases hn : m.trail.next? with
  | none => exact ⟨log, by rw [next_of_next?_eq_none hn]⟩
  | some r =>
    obtain ⟨e, up⟩ := r
    obtain ⟨entry, hstep⟩ := h.step?_eq_some hn
    have hrun := Drawing.run_tell e ⟨m.drawing, log⟩
    rw [hstep] at hrun
    refine ⟨entry :: log, ?_⟩
    rw [next_of_next? hn, rest, rest, Trail.run_eq_tellAll, Trail.run_eq_tellAll,
      Trail.events_of_next? hn, Visitor.tellAll_cons, bind_assoc, EStateM.run_bind, hrun]

theorem InStep.run_rest_iterate {m : Moment} (h : m.InStep) (k : Nat) (log : List Entry) :
    ∃ log', m.rest.run ⟨m.drawing, log⟩ =
      (Moment.next^[k] m).rest.run ⟨(Moment.next^[k] m).drawing, log'⟩ := by
  induction k with
  | zero => exact ⟨log, rfl⟩
  | succ k ih =>
    obtain ⟨log₁, h₁⟩ := ih
    obtain ⟨log₂, h₂⟩ := (inStep_iterate h k).run_rest log₁
    rw [Function.iterate_succ_apply']
    exact ⟨log₂, h₁.trans h₂⟩

/-- The moment at which the loop of a walk begins, if the drawing begins with the walk: the topmost
node has been entered. -/
def first (t : Tree) (c : Config) : Moment :=
  ⟨[t.children], (Drawing.create c).state.enter t.root⟩

theorem inStep_first (t : Tree) (c : Config) : (first t c).InStep := rfl

end Moment

/-- The moment before round `k` of the loop of a walk, if the drawing begins with the walk. -/
def Tree.moment (t : Tree) (c : Config) (k : Nat) : Moment := Moment.next^[k] (.first t c)

section

variable (t : Tree) (c : Config) (k : Nat)

theorem Tree.inStep_moment : (t.moment c k).InStep :=
  Moment.inStep_iterate (Moment.inStep_first t c) k

theorem Tree.trail_moment : (t.moment c k).trail = Trail.advance^[k] [t.children] :=
  Moment.trail_iterate _ k

/-- Before round `k`, one call more has been made: the topmost node was entered before the loop. -/
theorem Tree.drawing_moment :
    (t.moment c k).drawing = (Drawing.create c).state.calls (t.events.take (k + 1)) := by
  rw [moment, Moment.drawing_iterate, t.events_eq_cons, List.take_succ_cons]
  rfl

/-- What comes next at a moment is the call that is due. -/
theorem Tree.next?_moment : (t.moment c k).trail.next?.map Prod.fst = t.events[k + 1]? := by
  rw [t.trail_moment, ← Trail.head?_events, Trail.events_iterate, List.head?_drop,
    t.events_eq_cons, List.getElem?_cons_succ]

/-- The walk comes to each of its moments. -/
theorem Tree.run_walk_moment (log : List Entry) : ∃ log',
    (t.walk Drawing.visitor).run ⟨(Drawing.create c).state, log⟩ =
      (t.moment c k).rest.run ⟨(t.moment c k).drawing, log'⟩ :=
  (Moment.inStep_first t c).run_rest_iterate k (entering 0 t.root :: log)

theorem Tree.depth_moment_le : (t.moment c k).drawing.depth ≤ t.levels := by
  rw [← t.inStep_moment c k, t.trail_moment, ← t.reach_children]
  exact Trail.length_iterate_le _ k

theorem Tree.exists_depth_moment_eq : ∃ k, (t.moment c k).drawing.depth = t.levels := by
  obtain ⟨k, hk⟩ := Trail.exists_length_iterate_eq [t.children]
  rw [t.reach_children, ← t.trail_moment c, t.inStep_moment c k] at hk
  exact ⟨k, hk⟩

theorem Tree.depth_moment_eq_zero_iff :
    (t.moment c k).drawing.depth = 0 ↔ 2 * t.size - 1 ≤ k := by
  rw [← t.inStep_moment c k, t.trail_moment, List.length_eq_zero_iff,
    Trail.iterate_advance_eq_nil_iff, t.remaining_children]

end

/-! ## Nodes above -/

theorem Dot.Drawing.calls_forest_events (d : Drawing) (f : Forest) :
    d.calls (Forest.events f) = d.extend (Forest.visits d.openIds.head? d.nodeCount f) :=
  calls_of_steps? (Forest.steps?_events d f)

theorem Forest.enters_events (f : Forest) : enters (Forest.events f) = f.size := by
  have hcalls := congrArg Drawing.nodeCount
    (Drawing.calls_forest_events (Drawing.create {}).state f)
  rw [Drawing.nodeCount_calls, Drawing.nodeCount_extend, Forest.length_visits] at hcalls
  exact Nat.add_left_cancel hcalls

theorem Tree.enters_events (t : Tree) : enters t.events = t.size := by
  have hone := Forest.enters_events [t]
  rwa [Forest.events, Forest.events, List.append_nil, Forest.size, Forest.size, Nat.add_zero]
    at hone

/-- The beginnings of a way down, without the whole: the places above it, the topmost first. -/
theorem dropLast_inits_cons (k : Nat) (p : Tree.Place) :
    (k :: p).inits.dropLast = [] :: p.inits.dropLast.map (k :: ·) := by
  have hne : p.inits.map (k :: ·) ≠ [] := by
    cases p <;> simp
  rw [List.inits_cons, List.dropLast_cons_of_ne_nil hne, List.map_dropLast]

/-- The events of a tree contain those of each of its subtrees in one piece. Before them, as many
nodes are entered as the number of the place says, and of these, the ones above the place are
open. -/
theorem Tree.exists_events_eq_append {t s : Tree} {p : Tree.Place} (h : t.at? p = some s) :
    ∃ before after, t.events = before ++ (s.events ++ after) ∧ enters before = t.number p ∧
      ∀ d : Drawing, (d.calls before).openIds =
        (p.inits.dropLast.map fun q ↦ d.nodeCount + t.number q).reverse ++ d.openIds := by
  induction p generalizing t with
  | nil =>
    obtain rfl := Option.some.inj h
    exact ⟨[], [], (List.append_nil _).symm, t.number_nil.symm, fun d ↦ rfl⟩
  | cons k p ih =>
    rw [Tree.at?] at h
    obtain ⟨u, hu, hs⟩ := Option.bind_eq_some_iff.1 h
    obtain ⟨before, after, hevents, hnumber, hopen⟩ := ih hs
    have hnumbers : ∀ q, q <+: p → t.number (k :: q) =
        1 + Forest.size (t.children.take k) + u.number q := by
      rintro q ⟨r, rfl⟩
      exact Tree.number_cons hu (Tree.isSome_at?_of_append (Option.isSome_of_mem hs))
    let left := Forest.events (t.children.take k)
    refine ⟨.enter t.root :: left ++ before,
      after ++ (Forest.events (t.children.drop (k + 1)) ++ [.leave]), ?_, ?_, fun d ↦ ?_⟩
    · rw [t.events_eq, ← Forest.events_eq_flatMap, Forest.events_eq_append hu, hevents]
      simp only [left, List.cons_append, List.append_assoc]
    · have henters : enters (left ++ before) = enters left + enters before := List.countP_append
      rw [List.cons_append, enters_enter, henters, Forest.enters_events, hnumber,
        hnumbers p List.prefix_rfl]
      omega
    · have hcalls : d.calls (.enter t.root :: left ++ before) =
          ((d.enter t.root).calls left).calls before := Drawing.calls_append _ left before
      have habove : (p.inits.dropLast.map fun q ↦
            (d.enter t.root).nodeCount + Forest.size (t.children.take k) + u.number q) =
          p.inits.dropLast.map fun q ↦ d.nodeCount + t.number (k :: q) := by
        refine List.map_congr_left fun q hq ↦ ?_
        rw [hnumbers q ((List.mem_inits q p).1 (List.dropLast_subset _ hq)),
          Drawing.nodeCount_enter]
        omega
      rw [hcalls, Drawing.calls_forest_events, hopen, Drawing.openIds_extend,
        Drawing.nodeCount_extend, Forest.length_visits, habove, dropLast_inits_cons, List.map_cons,
        List.map_map, List.reverse_cons, t.number_nil, List.append_assoc, List.singleton_append,
        Drawing.openIds_enter]
      rfl

/-- When a node is entered, the nodes above it are open. -/
theorem Tree.exists_entering (t : Tree) (c : Config) (u : Fin t.size) : ∃ k s,
    t.at? (t.place u) = some s ∧ t.events[k]? = some (.enter s.root) ∧
      enters (t.events.take k) = u ∧
      ((Drawing.create c).state.calls (t.events.take k)).openIds.reverse =
        (t.place u).inits.dropLast.map t.number := by
  have hplace := t.getElem?_place u
  obtain ⟨s, hs⟩ := Option.isSome_iff_exists.1 (Tree.isSome_at?_of_getElem? hplace)
  obtain ⟨before, after, hevents, hnumber, hopen⟩ := Tree.exists_events_eq_append hs
  have htake : t.events.take before.length = before := by rw [hevents, List.take_left]
  refine ⟨before.length, s, hs, ?_, ?_, ?_⟩
  · rw [hevents, List.getElem?_append_right (Nat.le_refl _), Nat.sub_self, s.events_eq_cons]
    rfl
  · rw [htake, hnumber, Tree.number_of_getElem? hplace]
  · have hstart : (Drawing.create c).state.openIds = [] := rfl
    have hcount : (Drawing.create c).state.nodeCount = 0 := rfl
    rw [htake, hopen, hstart, hcount, List.append_nil, List.reverse_reverse]
    simp only [Nat.zero_add]

/-- **A walk and its drawing.** Walk a tree and begin a drawing with it. The walk comes to each
moment of its loop and goes on from there; when `k` rounds are over, the first `k + 1` calls have
been made, and what the trail tells next is the call after these. At every such moment the trail is
as long as there are open nodes. When a node is entered, the open nodes are those above it, the
topmost first. At most as many nodes are open as the tree has levels, and so many are open once.
And none is open exactly before the first call and after the last. -/
theorem walk_in_step (t : Tree) (c : Config) :
    let start := (Drawing.create c).state
    let after (k : Nat) : Drawing := start.calls (t.events.take k)
    (∀ k : Nat,
      (∀ log, ∃ log', (t.walk Drawing.visitor).run ⟨start, log⟩ =
        (t.moment c k).rest.run ⟨(t.moment c k).drawing, log'⟩) ∧
      (t.moment c k).drawing = after (k + 1) ∧
      (t.moment c k).trail.next?.map Prod.fst = t.events[k + 1]? ∧
      (t.moment c k).trail.length = (t.moment c k).drawing.depth) ∧
    (∀ u : Fin t.size, ∃ k s, t.at? (t.place u) = some s ∧
      t.events[k]? = some (.enter s.root) ∧ enters (t.events.take k) = u ∧
      (after k).openIds.reverse = (t.place u).inits.dropLast.map t.number) ∧
    (∀ k, (after k).depth ≤ t.levels) ∧
    (∃ k, (after k).depth = t.levels) ∧
    t.events.length = 2 * t.size ∧
    ∀ k ≤ 2 * t.size, (after k).depth = 0 ↔ k = 0 ∨ k = 2 * t.size := by
  intro start after
  have hstart : (after 0).depth = 0 := rfl
  have hafter : ∀ k, (after (k + 1)).depth = (t.moment c k).drawing.depth := fun k ↦ by
    rw [t.drawing_moment]
  refine ⟨fun k ↦ ⟨t.run_walk_moment c k, t.drawing_moment c k, t.next?_moment c k,
    t.inStep_moment c k⟩, t.exists_entering c, fun k ↦ ?_, ?_, t.length_events, fun k hk ↦ ?_⟩
  · cases k with
    | zero => exact Nat.zero_le _
    | succ k => exact hafter k ▸ t.depth_moment_le c k
  · obtain ⟨k, hk⟩ := t.exists_depth_moment_eq c
    exact ⟨k + 1, (hafter k).trans hk⟩
  · have hpos := t.size_pos
    cases k with
    | zero => simp [hstart]
    | succ k =>
      rw [hafter, t.depth_moment_eq_zero_iff]
      omega

end TreeDrawing
