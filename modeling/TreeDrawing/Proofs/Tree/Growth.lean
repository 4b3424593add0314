import TreeDrawing.Proofs.Tree.Walk

/-!
# Trees from their events

A walk leaves nothing out: from what it tells, the trees can be put together again. A `Growth` is
what has been put together so far: the trees at the innermost level, and around them the nodes that
are still open. Entering a node opens a new level inside it, and leaving makes a tree of the node
and the level, which takes its place one level further out.

## Main results

* `Growth.told`: what must have been told to get to a growth. It is the invariant, since every step
  adds the event it is made for.
* `Forest.ofEvents?_eq_some_iff`: putting trees together and telling them are inverse to each other.
-/

namespace TreeDrawing

open Log

/-! ## Recorded events -/

/-- What a walk over a tree has recorded, oldest first. -/
def Tree.recorded (t : Tree) : List Event :=
  let recorder : Visitor (Logging Empty (List Event)) := Event.recorder
  (Logging.after (t.walk recorder) []).state.reverse

theorem Event.run_tellAll_recorder {ε : Type} (es : List Event) (s : Logged (List Event)) :
    ((Event.recorder : Visitor (Logging ε (List Event))).tellAll es).run s =
      .ok () { s with state := es.reverse ++ s.state } := by
  induction es generalizing s with
  | nil => rfl
  | cons e es ih =>
    have he : ((Event.recorder : Visitor (Logging ε (List Event))).tell e).run s =
        .ok () { s with state := e :: s.state } := by
      cases e <;> rfl
    rw [Visitor.tellAll_cons, EStateM.run_bind, he]
    simp only [ih, List.reverse_cons, List.append_assoc, List.singleton_append]

theorem Tree.recorded_eq_events (t : Tree) : t.recorded = t.events := by
  have hrun := Event.run_tellAll_recorder (ε := Empty) t.events { state := [] }
  rw [recorded, Logging.after, walk_eq_tellAll, EStateM.run_bind, hrun, List.append_nil]
  exact List.reverse_reverse t.events

theorem Forest.flatMap_recorded (f : Forest) : f.flatMap Tree.recorded = Forest.events f := by
  have hrecorded : Tree.recorded = Tree.events := funext Tree.recorded_eq_events
  rw [hrecorded, events_eq_flatMap]

/-! ## Growing -/

/-- Trees that are being put together. -/
structure Growth where
  /-- The trees at the innermost level, newest first. -/
  newest : Forest := []
  /-- The open nodes from the innermost out, each with the trees that stand before it at its level,
  newest first. -/
  opened : List (Node × Forest) := []

namespace Growth

/-- Grows by one event. A leave with nothing open leads nowhere. -/
def step? (g : Growth) : Event → Option Growth
  | .enter n => some { newest := [], opened := (n, g.newest) :: g.opened }
  | .leave =>
    match g.opened with
    | [] => none
    | (n, before) :: up => some { newest := .node n g.newest.reverse :: before, opened := up }

/-- Grows by several events. -/
def run? (g : Growth) : List Event → Option Growth
  | [] => some g
  | e :: es => (g.step? e).bind fun g' ↦ g'.run? es

/-- Puts whole trees behind those at the innermost level. -/
def add (g : Growth) (f : Forest) : Growth := { g with newest := f.reverse ++ g.newest }

theorem run?_cons_of_step? {g g' : Growth} {e : Event} (h : g.step? e = some g')
    (es : List Event) : g.run? (e :: es) = g'.run? es := by
  rw [run?, h, Option.bind_some]

theorem add_add (g : Growth) (f f' : Forest) : (g.add f).add f' = g.add (f ++ f') := by
  rw [add, add, add, List.reverse_append, List.append_assoc]

/-- What must have been told to open nodes, from the outermost in. -/
def toldAround : List (Node × Forest) → List Event
  | [] => []
  | (n, before) :: up => toldAround up ++ (Forest.events before.reverse ++ [.enter n])

/-- What must have been told to get to a growth. -/
def told (g : Growth) : List Event := toldAround g.opened ++ Forest.events g.newest.reverse

theorem told_of_step? {g g' : Growth} {e : Event} (h : g.step? e = some g') :
    g'.told = g.told ++ [e] := by
  cases e with
  | enter n =>
    obtain rfl := Option.some.inj h
    simp [told, toldAround, Forest.events]
  | leave =>
    rcases g with ⟨newest, _ | ⟨⟨n, before⟩, up⟩⟩
    · simp [step?] at h
    · obtain rfl := Option.some.inj h
      simp [told, toldAround, Forest.events_append, Forest.events, Tree.events]

theorem told_of_run? {g g' : Growth} {es : List Event} (h : g.run? es = some g') :
    g'.told = g.told ++ es := by
  induction es generalizing g with
  | nil =>
    obtain rfl := Option.some.inj h
    rw [List.append_nil]
  | cons e es ih =>
    obtain ⟨g₁, he, hes⟩ := Option.bind_eq_some_iff.1 h
    rw [ih hes, told_of_step? he, List.append_assoc, List.singleton_append]

end Growth

/-! ## Telling grows the same trees -/

mutual

/-- Whatever is open, the events of a tree add the tree. -/
theorem Tree.run?_events_append (g : Growth) (es : List Event) :
    ∀ t : Tree, g.run? (t.events ++ es) = (g.add [t]).run? es
  | .node n cs => by
    let inside : Growth := { newest := [], opened := (n, g.newest) :: g.opened }
    have henter : g.step? (.enter n) = some inside := rfl
    have hleave : (inside.add cs).step? .leave = some (g.add [.node n cs]) := by
      simp [inside, Growth.add, Growth.step?]
    have hchildren := Forest.run?_events_append inside (.leave :: es) cs
    have hsplit : (Tree.node n cs).events ++ es =
        .enter n :: (Forest.events cs ++ .leave :: es) := by
      rw [Tree.events, List.cons_append, List.cons_append, List.append_assoc,
        List.singleton_append]
    rw [hsplit, Growth.run?_cons_of_step? henter, hchildren, Growth.run?_cons_of_step? hleave]

theorem Forest.run?_events_append (g : Growth) (es : List Event) :
    ∀ f : Forest, g.run? (Forest.events f ++ es) = (g.add f).run? es
  | [] => rfl
  | t :: rest => by
    rw [Forest.events, List.append_assoc, Tree.run?_events_append g _ t,
      Forest.run?_events_append (g.add [t]) es rest, Growth.add_add, List.singleton_append]

end

/-- The trees that events tell of, if they tell of whole trees. -/
def Forest.ofEvents? (es : List Event) : Option Forest :=
  (Growth.run? {} es).bind fun g ↦ if g.opened.isEmpty then some g.newest.reverse else none

theorem Forest.ofEvents?_events (f : Forest) : Forest.ofEvents? (Forest.events f) = some f := by
  have hrun := Forest.run?_events_append {} [] f
  rw [List.append_nil] at hrun
  rw [ofEvents?, hrun]
  simp [Growth.run?, Growth.add]

theorem Forest.events_of_ofEvents? {es : List Event} {f : Forest} (h : ofEvents? es = some f) :
    Forest.events f = es := by
  obtain ⟨⟨newest, opened⟩, hrun, hf⟩ := Option.bind_eq_some_iff.1 h
  cases opened with
  | cons o up => simp at hf
  | nil =>
    obtain rfl := Option.some.inj hf
    have htold := Growth.told_of_run? hrun
    exact htold

/-- Putting trees together undoes telling them, and the other way round. -/
theorem Forest.ofEvents?_eq_some_iff {es : List Event} {f : Forest} :
    ofEvents? es = some f ↔ Forest.events f = es :=
  ⟨events_of_ofEvents?, fun h ↦ h ▸ ofEvents?_events f⟩

/-- The second leave finds nothing open, whatever comes after it. -/
example : Forest.ofEvents? [.enter {}, .leave, .leave, .enter {}] = none := by decide

end TreeDrawing
