import TreeDrawing.Proofs.Dot.Driven
import TreeDrawing.Tree.Pending

/-!
# Walks inserted between other calls

A drawing may be driven by single calls and by whole walks, in any order, and a call that fails is
passed over. This module compares two such runs that differ by one walk. The walk takes numbers
for the nodes of its tree, and it leaves open exactly what was open before; so whoever goes on
after it notices nothing, except that the numbers given from then on are higher.

The comparison is a simulation. The invariant is `Inserted`: the open nodes of the two drawings
are the same up to numbers, and of the numbers only those change that are given after the walk.
A stack of open nodes mixes both sorts, which is why the relation renumbers the whole stack and
does not cut it in two.

## Main results

* `Inserted.call` and `Inserted.statements_call`: one call keeps the relation, and writes the same
  up to numbers.
* `walk_inserted`: a walk only renumbers what comes after it.
-/

namespace TreeDrawing.Dot

open Log History

/-! ## Calls and walks -/

/-- What a driver may ask of a drawing. -/
inductive Action where
  /-- A single call. -/
  | tell (e : Event)
  /-- A walk over a whole tree. -/
  | walk (t : Tree)

/-- What the visitor of drawings does when it is asked. -/
def Action.perform : Action → Logging Unbalanced Drawing Unit
  | tell e => Drawing.visitor.tell e
  | walk t => t.walk Drawing.visitor

/-- The calls that are made. -/
def Action.events : Action → History
  | tell e => [e]
  | walk t => t.events

namespace Drawing

/-- Whether an action succeeds. -/
def allows (d : Drawing) (a : Action) : Bool :=
  match a.perform.run { state := d } with
  | .ok _ _ => true
  | .error _ _ => false

/-- The drawing after an action, whether it succeeds or not. -/
def act (d : Drawing) (a : Action) : Drawing := (Logging.after a.perform d).state

/-- The drawing after several actions. -/
def acts (d : Drawing) (as : List Action) : Drawing := as.foldl act d

/-- What a driver sees of several actions: of each, whether it succeeds and how many nodes are open
afterwards. -/
def observed (d : Drawing) : List Action → List (Bool × Nat)
  | [] => []
  | a :: as => (d.allows a, (d.act a).depth) :: (d.act a).observed as

/-- Whether the drawing could be finished now, and why not. -/
def verdict (d : Drawing) : Except Error Unit :=
  match finish.run { state := d } with
  | .ok _ _ => .ok ()
  | .error e _ => .error e

section

variable (d : Drawing)

theorem allows_walk (t : Tree) : d.allows (.walk t) = true := by
  rw [allows, Action.perform, t.run_walk]

theorem act_walk (t : Tree) :
    d.act (.walk t) = d.extend (t.visits d.openIds.head? d.nodeCount) := by
  rw [act, Action.perform, Logging.after, t.run_walk]

theorem verdict_eq :
    d.verdict = if d.depth = 0 then .ok () else .error (.incomplete d.depth) := by
  cases hd : d.openIds with
  | nil =>
    have hrun := run_finish_of_openIds_eq_nil (s := { state := d }) hd
    rw [verdict, hrun, depth, hd]
    rfl
  | cons id ids =>
    have hrun := run_finish_of_openIds_ne_nil (s := { state := d }) (by simp [hd])
    rw [verdict, hrun, depth, hd]
    rfl

end

/-- A call that succeeds leads to the same drawing whether failures are passed over or not. -/
theorem call_of_step? {d d' : Drawing} {e : Event} {entry : Entry}
    (h : d.step? e = some (entry, d')) : d.call e = d' := by
  have hrun := run_tell e { state := d }
  rw [h] at hrun
  rw [call, Logging.after, hrun]

theorem calls_of_steps? {d d' : Drawing} {es : List Event} {entries : List Entry}
    (h : d.steps? es = some (entries, d')) : d.calls es = d' := by
  induction es generalizing d entries with
  | nil =>
    simp only [steps?, Option.some.injEq, Prod.mk.injEq] at h
    exact h.2
  | cons e es ih =>
    cases he : d.step? e with
    | none => simp [steps?, he] at h
    | some r =>
      obtain ⟨entry, d₁⟩ := r
      rw [steps?_cons_of_step? he, Option.map_eq_some_iff] at h
      obtain ⟨⟨entries₁, d₂⟩, h₁, h₂⟩ := h
      rw [Prod.mk.injEq] at h₂
      obtain ⟨-, rfl⟩ := h₂
      rw [calls, List.foldl_cons, call_of_step? he, ← calls, ih h₁]

/-- An action does what its calls do. -/
theorem act_eq_calls (d : Drawing) (a : Action) : d.act a = d.calls a.events := by
  cases a with
  | tell e => rfl
  | walk t => rw [act_walk, Action.events, calls_of_steps? (t.steps?_events d)]

theorem acts_eq_calls (d : Drawing) (as : List Action) :
    d.acts as = d.calls (as.flatMap Action.events) := by
  induction as generalizing d with
  | nil => rfl
  | cons a as ih => rw [acts, List.foldl_cons, ← acts, ih, act_eq_calls, List.flatMap_cons,
      calls_append]

/-- What is open has been numbered before. -/
theorem lt_nodeCount_of_mem_openIds (c : Config) (as : List Action) :
    ∀ id ∈ ((create c).state.acts as).openIds, id < ((create c).state.acts as).nodeCount := by
  intro id hid
  rw [acts_eq_calls, openIds_calls_create, List.mem_reverse] at hid
  rw [acts_eq_calls, nodeCount_calls_create]
  have := (mem_unclosed hid).2
  omega

end Drawing

/-! ## Renumbering -/

/-- The number of a node when `k` further nodes have been numbered from `n` on. -/
def renumber (n k id : Nat) : Nat := if id < n then id else id + k

/-- A statement with other numbers. -/
def Statement.renumber (f : Nat → Nat) : Statement → Statement
  | edge parent child => edge (f parent) (f child)
  | node id style label => node (f id) style label

theorem renumber_of_lt {n k id : Nat} (h : id < n) : renumber n k id = id := if_pos h

theorem renumber_of_le {n k id : Nat} (h : n ≤ id) : renumber n k id = id + k :=
  if_neg (Nat.not_lt.2 h)

theorem Config.introduce_renumber (c : Config) (f : Nat → Nat) (parent? : Option Nat) (id : Nat)
    (n : Node) :
    c.introduce (parent?.map f) (f id) n =
      (c.introduce parent? id n).map (Statement.renumber f) := by
  cases parent? <;> rfl

/-! ## The simulation -/

/-- The second drawing is the first with `k` further nodes, which have been numbered from `n` on
and have all been left. -/
structure Inserted (n k : Nat) (d d' : Drawing) : Prop where
  config_eq : d'.config = d.config
  nodeCount_eq : d'.nodeCount = d.nodeCount + k
  openIds_eq : d'.openIds = d.openIds.map (renumber n k)
  le_nodeCount : n ≤ d.nodeCount

namespace Drawing

/-- What a call writes. -/
def writes (d : Drawing) : Event → List Statement
  | .enter a => (d.next a).statements d.config
  | .leave => []

theorem statements_call (d : Drawing) (e : Event) :
    (d.call e).statements = d.statements ++ d.writes e := by
  cases e with
  | enter a => rw [call_enter, statements_enter, writes]
  | leave => rw [call_leave, writes, List.append_nil, statements, statements]

end Drawing

namespace Inserted

variable {n k : Nat} {d d' : Drawing} (h : Inserted n k d d')

include h

theorem depth_eq : d'.depth = d.depth := by
  rw [Drawing.depth, h.openIds_eq, List.length_map, Drawing.depth]

theorem accepts_eq (e : Event) : d'.accepts e = d.accepts e := by
  cases e with
  | enter a => rfl
  | leave =>
    rw [Drawing.accepts_leave, Drawing.accepts_leave, h.openIds_eq, List.isEmpty_map]

/-- The next number is one that changes. -/
theorem nodeCount_eq_renumber : d'.nodeCount = renumber n k d.nodeCount := by
  rw [renumber_of_le h.le_nodeCount, h.nodeCount_eq]

/-- One call keeps the relation. -/
theorem call (e : Event) : Inserted n k (d.call e) (d'.call e) := by
  cases e with
  | enter a =>
    rw [Drawing.call_enter, Drawing.call_enter]
    refine ⟨h.config_eq, ?_, ?_, ?_⟩
    · rw [Drawing.nodeCount_enter, Drawing.nodeCount_enter, h.nodeCount_eq]
      omega
    · rw [Drawing.openIds_enter, Drawing.openIds_enter, List.map_cons, h.openIds_eq,
        h.nodeCount_eq_renumber]
    · rw [Drawing.nodeCount_enter]
      exact Nat.le_succ_of_le h.le_nodeCount
  | leave =>
    rw [Drawing.call_leave, Drawing.call_leave]
    refine ⟨h.config_eq, h.nodeCount_eq, ?_, h.le_nodeCount⟩
    rw [h.openIds_eq, List.map_tail]

/-- One call writes the same up to numbers. -/
theorem writes_eq (e : Event) :
    d'.writes e = (d.writes e).map (Statement.renumber (renumber n k)) := by
  cases e with
  | enter a =>
    simp only [Drawing.writes, Visit.statements, Drawing.next]
    rw [h.config_eq, h.openIds_eq, List.head?_map, h.nodeCount_eq_renumber,
      Config.introduce_renumber]
  | leave => rfl

/-- Any calls keep the relation, and write the same up to numbers. -/
theorem calls (es : History) :
    Inserted n k (d.calls es) (d'.calls es) ∧
      ∃ written, (d.calls es).statements = d.statements ++ written ∧
        (d'.calls es).statements =
          d'.statements ++ written.map (Statement.renumber (renumber n k)) := by
  induction es generalizing d d' with
  | nil => exact ⟨h, [], by simp [Drawing.calls], by simp [Drawing.calls]⟩
  | cons e es ih =>
    obtain ⟨hcalls, written, hd, hd'⟩ := ih (h.call e)
    refine ⟨hcalls, d.writes e ++ written, ?_, ?_⟩
    · rw [← List.append_assoc, ← Drawing.statements_call]
      exact hd
    · rw [List.map_append, ← h.writes_eq, ← List.append_assoc, ← Drawing.statements_call]
      exact hd'

theorem act (a : Action) : Inserted n k (d.act a) (d'.act a) := by
  rw [Drawing.act_eq_calls, Drawing.act_eq_calls]
  exact (h.calls a.events).1

theorem allows_eq (a : Action) : d'.allows a = d.allows a := by
  cases a with
  | tell e => exact h.accepts_eq e
  | walk t => rw [Drawing.allows_walk, Drawing.allows_walk]

/-- A driver sees the same. -/
theorem observed_eq (as : List Action) : d'.observed as = d.observed as := by
  induction as generalizing d d' with
  | nil => rfl
  | cons a as ih =>
    rw [Drawing.observed, Drawing.observed, h.allows_eq, (h.act a).depth_eq, ih (h.act a)]

theorem verdict_eq : d'.verdict = d.verdict := by
  rw [Drawing.verdict_eq, Drawing.verdict_eq, h.depth_eq]

end Inserted

/-- A walk is such an insertion, if what is open has been numbered before. -/
theorem Drawing.inserted_act_walk {d : Drawing} (h : ∀ id ∈ d.openIds, id < d.nodeCount)
    (t : Tree) : Inserted d.nodeCount t.size d (d.act (.walk t)) := by
  rw [act_walk]
  refine ⟨rfl, ?_, ?_, Nat.le_refl _⟩
  · rw [nodeCount_extend, Tree.length_visits]
  · have hkept : d.openIds.map (renumber d.nodeCount t.size) = d.openIds.map id :=
      List.map_congr_left fun id hid ↦ renumber_of_lt (h id hid)
    rw [openIds_extend, hkept, List.map_id]

/-- **A walk inserted.** Take a drawing after any actions, and make further ones with and without
walking a tree first. The walk succeeds, and then the same actions succeed, with the same number of
nodes open after each, and the drawing can be finished in both cases or in neither, for the same
reason. The statements that are added are the same too, except that the numbers of nodes that were
not there before the walk are higher by the number of nodes of the tree. -/
theorem walk_inserted (c : Config) (past : List Action) (t : Tree) (as : List Action) :
    let d := (Drawing.create c).state.acts past
    let d' := d.act (.walk t)
    d.allows (.walk t) = true ∧
    d'.observed as = d.observed as ∧
    (d'.acts as).verdict = (d.acts as).verdict ∧
    ∃ written, (d.acts as).statements = d.statements ++ written ∧
      (d'.acts as).statements = d'.statements ++
        written.map (Statement.renumber fun id ↦
          if id < d.nodeCount then id else id + t.nodeCount) := by
  intro d d'
  have h : Inserted d.nodeCount t.size d d' :=
    Drawing.inserted_act_walk (Drawing.lt_nodeCount_of_mem_openIds c past) t
  obtain ⟨hafter, written, hd, hd'⟩ := h.calls (as.flatMap Action.events)
  refine ⟨d.allows_walk t, h.observed_eq as, ?_, written, ?_, ?_⟩
  · rw [Drawing.acts_eq_calls, Drawing.acts_eq_calls, hafter.verdict_eq]
  · rw [Drawing.acts_eq_calls, hd]
  · rw [Drawing.acts_eq_calls, hd', t.nodeCount_eq_size]
    rfl

end TreeDrawing.Dot
