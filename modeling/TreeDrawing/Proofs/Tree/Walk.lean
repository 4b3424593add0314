import TreeDrawing.Tree.Walk

/-!
# What a walk tells

`Tree.walk` follows a trail of half-visited forests. Here it is shown to tell exactly the events of
the tree, in the order of the recursion `Tree.events`, whatever the visitor does with them. The
invariant is `Trail.events`: what a trail still has to tell is, level by level from the innermost
out, what there is to tell about the forest of that level and then a leave.

Everything else that is said about walks starts from `Tree.walk_eq_tellAll`, and so never meets
the trail again.
-/

namespace TreeDrawing

open Log

/-! ## The order of a walk -/

mutual

/-- What the nodes of a tree carry, in the order in which they are entered. -/
def Tree.nodes : Tree → List Node
  | .node n cs => n :: Forest.nodes cs

/-- What the nodes of several trees carry, one tree after the other. -/
def Forest.nodes : Forest → List Node
  | [] => []
  | t :: rest => t.nodes ++ Forest.nodes rest

end

theorem Forest.events_eq_flatMap (f : Forest) : Forest.events f = f.flatMap Tree.events := by
  induction f with
  | nil => rfl
  | cons t rest ih => rw [Forest.events, ih, List.flatMap_cons]

theorem Forest.events_append (f g : Forest) :
    Forest.events (f ++ g) = Forest.events f ++ Forest.events g := by
  rw [events_eq_flatMap, List.flatMap_append, ← events_eq_flatMap, ← events_eq_flatMap]

/-- The events of a forest contain those of each of its trees in one piece. -/
theorem Forest.events_eq_append {f : Forest} {k : Nat} {u : Tree} (h : f[k]? = some u) :
    Forest.events f =
      Forest.events (f.take k) ++ (u.events ++ Forest.events (f.drop (k + 1))) := by
  obtain ⟨hk, rfl⟩ := List.getElem?_eq_some_iff.1 h
  rw [← Forest.events, ← List.drop_eq_getElem_cons hk, ← Forest.events_append,
    List.take_append_drop]

/-- A tree tells of its topmost node, of the trees below it in order, and of the node again. -/
theorem Tree.events_eq (t : Tree) :
    t.events = .enter t.root :: t.children.flatMap Tree.events ++ [.leave] := by
  cases t with
  | node n cs => rw [Tree.events, Forest.events_eq_flatMap, root_node, children_node]

mutual

/-- Every node is told of twice. -/
theorem Tree.length_events : ∀ t : Tree, t.events.length = 2 * t.size
  | .node n cs => by
    rw [Tree.events, Tree.size, List.length_append, List.length_cons, Forest.length_events cs,
      List.length_singleton]
    omega

theorem Forest.length_events : ∀ f : Forest, (Forest.events f).length = 2 * Forest.size f
  | [] => rfl
  | t :: rest => by
    rw [Forest.events, List.length_append, Tree.length_events t, Forest.length_events rest,
      Forest.size, Nat.mul_add]

end

/-! ## What is told -/

variable {m : Type → Type} [Monad m]

/-- Tells a visitor several events, one after the other. -/
def Visitor.tellAll (v : Visitor m) : List Event → m Unit
  | [] => pure ()
  | e :: es => do
    v.tell e
    v.tellAll es

namespace Visitor

variable (v : Visitor m)

@[simp] theorem tellAll_nil : v.tellAll [] = pure () := rfl

@[simp] theorem tellAll_cons (e : Event) (es : List Event) :
    v.tellAll (e :: es) = (do v.tell e; v.tellAll es) := rfl

end Visitor

namespace Trail

/-- What remains to be told on a trail. -/
def events : Trail → List Event
  | [] => []
  | f :: up => Forest.events f ++ .leave :: events up

/-- The next step of a trail takes the first of its events. -/
theorem events_of_next? {t up : Trail} {e : Event} (h : t.next? = some (e, up)) :
    t.events = e :: up.events := by
  match t, h with
  | [] :: up, h =>
    simp only [next?, Option.some.injEq, Prod.mk.injEq] at h
    obtain ⟨rfl, rfl⟩ := h
    rw [events, Forest.events, List.nil_append]
  | (.node n children :: rest) :: up, h =>
    simp only [next?, Option.some.injEq, Prod.mk.injEq] at h
    obtain ⟨rfl, rfl⟩ := h
    simp only [events, Forest.events, Tree.events, List.cons_append, List.append_assoc,
      List.nil_append]

theorem events_of_next?_eq_none {t : Trail} (h : t.next? = none) : t.events = [] := by
  match t, h with
  | [], _ => rfl
  | [] :: up, h => simp [next?] at h
  | (.node n children :: rest) :: up, h => simp [next?] at h

/-- The loop tells what remains on the trail, and nothing else. -/
theorem run_eq_tellAll (v : Visitor m) (t : Trail) : run v t = v.tellAll t.events := by
  fun_induction run v t with
  | case1 t h => rw [events_of_next?_eq_none h, Visitor.tellAll_nil]
  | case2 t e up h ih => rw [events_of_next? h, Visitor.tellAll_cons, ih]

end Trail

/-- When the topmost node has been entered, the rest of the events is on the trail. -/
theorem Tree.events_eq_cons (t : Tree) :
    t.events = .enter t.root :: Trail.events [t.children] := by
  cases t
  rfl

/-- A walk tells the events of the tree in order, and reports the end. -/
theorem Tree.walk_eq_tellAll [LawfulMonad m] [MonadLog m] (t : Tree) (v : Visitor m) :
    t.walk v = (do v.tellAll t.events; log .walkComplete) := by
  rw [Tree.walk, Trail.run_eq_tellAll, t.events_eq_cons, Visitor.tellAll_cons, bind_assoc,
    Visitor.tell]

end TreeDrawing
