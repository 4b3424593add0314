import TreeDrawing.Proofs.Dot.Call

/-!
# Walking a tree with a drawing

A walk over a tree adds to a drawing what the tree alone prescribes, wherever the drawing stands:
the visits of the tree, numbered on from the nodes entered so far and hung from the innermost open
node. It opens and closes as many nodes, so the open ones are left as they were.

The induction is on the tree and its list of children together. What carries it is that a forest
hangs all its trees from the same node, because each tree leaves the open nodes alone.
-/

namespace TreeDrawing

open Log Dot

/-! ## The visits of a tree -/

mutual

theorem Tree.length_visits (parent? : Option Nat) (id : Nat) :
    ∀ t : Tree, (t.visits parent? id).length = t.size
  | .node n children => by
    rw [Tree.visits, List.length_cons, Forest.length_visits (some id) (id + 1) children, Tree.size,
      Nat.add_comm]

theorem Forest.length_visits (parent? : Option Nat) (id : Nat) :
    ∀ f : Forest, (Forest.visits parent? id f).length = Forest.size f
  | [] => rfl
  | t :: rest => by
    rw [Forest.visits, List.length_append, Tree.length_visits parent? id t,
      Forest.length_visits parent? (id + t.size) rest, Forest.size]

end

mutual

theorem Tree.map_node_visits (parent? : Option Nat) (id : Nat) :
    ∀ t : Tree, (t.visits parent? id).map Visit.node = t.nodes
  | .node n cs => by
    rw [Tree.visits, List.map_cons, Forest.map_node_visits (some id) (id + 1) cs, Tree.nodes]

theorem Forest.map_node_visits (parent? : Option Nat) (id : Nat) :
    ∀ f : Forest, (Forest.visits parent? id f).map Visit.node = Forest.nodes f
  | [] => rfl
  | t :: ts => by
    rw [Forest.visits, List.map_append, Tree.map_node_visits parent? id t,
      Forest.map_node_visits parent? (id + t.size) ts, Forest.nodes]

end

mutual

/-- The visits of a tree are numbered on. -/
theorem Tree.map_id_visits (parent? : Option Nat) (id : Nat) :
    ∀ t : Tree, (t.visits parent? id).map Visit.id = List.range' id t.size
  | .node n cs => by
    rw [Tree.visits, List.map_cons, Forest.map_id_visits (some id) (id + 1) cs, Tree.size,
      Nat.add_comm 1, List.range'_succ]

theorem Forest.map_id_visits (parent? : Option Nat) (id : Nat) :
    ∀ f : Forest, (Forest.visits parent? id f).map Visit.id = List.range' id (Forest.size f)
  | [] => rfl
  | t :: rest => by
    rw [Forest.visits, List.map_append, Tree.map_id_visits parent? id t,
      Forest.map_id_visits parent? (id + t.size) rest, Forest.size, List.range'_append_1]

end

mutual

/-- What is reported of a tree whose topmost node has the number `id`: every node is entered,
then everything below it is reported, then it is left. -/
def Tree.reports (id : Nat) : Tree → List Entry
  | .node n children => entering id n :: Forest.reports (id + 1) children ++ [leaving id]

/-- What is reported of several trees, numbered from `id` on. -/
def Forest.reports (id : Nat) : Forest → List Entry
  | [] => []
  | t :: rest => t.reports id ++ Forest.reports (id + t.size) rest

end

namespace Dot.Drawing

/-- Adds visits of nodes that have all been left again. -/
def extend (d : Drawing) (vs : List Visit) : Drawing :=
  { d with
    nodeCount := d.nodeCount + vs.length
    newest := (vs.flatMap (Visit.statements d.config)).reverse ++ d.newest }

section

variable (d : Drawing) (vs ws : List Visit)

@[simp] theorem openIds_extend : (d.extend vs).openIds = d.openIds := rfl

@[simp] theorem nodeCount_extend : (d.extend vs).nodeCount = d.nodeCount + vs.length := rfl

theorem body_extend :
    (d.extend vs).body = d.body ++ String.join (vs.map (Visit.text d.config)) := by
  rw [body, statements, extend, List.reverse_append, List.reverse_reverse, Statement.texts_append,
    Statement.texts_flatMap_visits, body, statements]

theorem extend_extend : (d.extend vs).extend ws = d.extend (vs ++ ws) := by
  rcases d with ⟨c, ids, count, newest⟩
  simp [extend, Nat.add_assoc]

/-- Entering a node, adding visits and leaving the node adds the node and the visits. -/
theorem leave?_extend_enter (n : Node) :
    ((d.enter n).extend vs).leave? = some (d.nodeCount, d.extend (d.next n :: vs)) := by
  refine leave?_eq_some_iff.2 ⟨rfl, rfl, ?_, ?_⟩
  · simp only [nodeCount_extend, nodeCount_enter, List.length_cons]
    omega
  · simp [statements, extend, enter, Visit.statements, next]

end

end Dot.Drawing

/-! ## The induction -/

mutual

theorem Tree.steps?_events (d : Drawing) :
    ∀ t : Tree, d.steps? t.events =
      some (t.reports d.nodeCount, d.extend (t.visits d.openIds.head? d.nodeCount))
  | .node n children => by
    have he : d.step? (.enter n) = some (entering d.nodeCount n, d.enter n) := rfl
    have hf := Forest.steps?_events (d.enter n) children
    have hl : ((d.enter n).extend (Forest.visits (some d.nodeCount) (d.nodeCount + 1)
        children)).steps? [.leave] = some ([leaving d.nodeCount],
          d.extend ((Tree.node n children).visits d.openIds.head? d.nodeCount)) := by
      rw [Drawing.steps?, Drawing.step?, Drawing.leave?_extend_enter]
      rfl
    rw [Tree.events, List.cons_append, Drawing.steps?_cons_of_step? he,
      Drawing.steps?_append_of_steps? hf]
    simp only [Drawing.openIds_enter, Drawing.nodeCount_enter, List.head?_cons]
    rw [hl]
    rfl

theorem Forest.steps?_events (d : Drawing) :
    ∀ f : Forest, d.steps? (Forest.events f) =
      some (Forest.reports d.nodeCount f, d.extend (Forest.visits d.openIds.head? d.nodeCount f))
  | [] => rfl
  | t :: rest => by
    have ht := Tree.steps?_events d t
    have hf := Forest.steps?_events (d.extend (t.visits d.openIds.head? d.nodeCount)) rest
    rw [Drawing.extend_extend, Drawing.nodeCount_extend, Drawing.openIds_extend,
      Tree.length_visits] at hf
    rw [Forest.events, Drawing.steps?_append_of_steps? ht, hf]
    rfl

end

/-- A walk always succeeds, and adds the visits of the tree to the drawing and its reports to the
log. -/
theorem Tree.run_walk (t : Tree) (s : Logged Drawing) :
    (t.walk Drawing.visitor).run s = .ok ()
      { state := s.state.extend (t.visits s.state.openIds.head? s.state.nodeCount)
        newest := .walkComplete :: ((t.reports s.state.nodeCount).reverse ++ s.newest) } := by
  rw [Tree.walk_eq_tellAll, EStateM.run_bind, Drawing.run_tellAll (Tree.steps?_events s.state t)]
  rfl

/-! ## The document -/

theorem Dot.Drawing.document_eq (d : Drawing) :
    d.document = d.config.heading ++ d.body ++ "\x7d" := by
  rw [document, Config.document_eq, body]

/-- Finishing makes the document if no node is open. -/
theorem Dot.Drawing.run_finish_of_openIds_eq_nil {s : Logged Drawing} (h : s.state.openIds = []) :
    Drawing.finish.run s =
      .ok s.state.document { s with newest := rendering s.state.nodeCount :: s.newest } := by
  rcases s with ⟨⟨c, ids, count, newest⟩, log⟩
  subst h
  rfl

/-- Finishing is refused if nodes are open, and the drawing stays as it is. -/
theorem Dot.Drawing.run_finish_of_openIds_ne_nil {s : Logged Drawing} (h : s.state.openIds ≠ []) :
    Drawing.finish.run s = .error (.incomplete s.state.depth) s := by
  rcases s with ⟨⟨c, ids, count, newest⟩, log⟩
  cases ids with
  | nil => exact absurd rfl h
  | cons id ids => rfl

theorem Tree.block_eq_join (c : Config) (parent? : Option Nat) (id : Nat) (t : Tree) :
    t.block c parent? id = String.join ((t.visits parent? id).map (Visit.text c)) := by
  rw [Tree.block_eq_texts, Tree.statements_eq_flatMap, Statement.texts_flatMap_visits]

theorem toDotWith_eq_document (t : Tree) (c : Config) :
    toDotWith t c = (({ config := c } : Drawing).extend (t.visits none 0)).document := by
  rw [toDotWith, Logging.after, Tree.run_walk]
  rfl

theorem toDotWith_eq (t : Tree) (c : Config) :
    toDotWith t c = c.heading ++ t.block c none 0 ++ "\x7d" := by
  rw [toDotWith_eq_document, Drawing.document_eq, Drawing.body_extend, Drawing.body,
    Drawing.statements, List.reverse_nil, Statement.texts, List.map_nil, String.join_nil,
    String.empty_append, Tree.block_eq_join]
  rfl

/-- A block is an edge line, a node line, and the blocks of the children, each numbered by the
sizes of the children before it. -/
theorem Tree.block_eq (c : Config) (parent? : Option Nat) (id : Nat) (t : Tree) :
    t.block c parent? id =
      edgeLine parent? id ++ c.nodeLine id t.root ++
        String.join (t.children.mapIdx fun k u ↦
          u.block c (some id) (id + 1 + Forest.size (t.children.take k))) := by
  cases t with
  | node n f => rw [Tree.block, Forest.block_eq_join, root_node, children_node]

/-- **The drawing of a tree.** From any drawing a walk succeeds, keeps the choices and the open
nodes, counts the nodes of the tree and writes its block, which follows the tree alone. So the
document of a tree is the block of the tree in its frame, and finishing a drawing that has walked
the tree gives the same. -/
theorem walk_writes_block (t : Tree) :
    (∀ (c : Config) (parent? : Option Nat) (id : Nat),
      t.block c parent? id =
        edgeLine parent? id ++ c.nodeLine id t.root ++
          String.join (t.children.mapIdx fun k u ↦
            u.block c (some id) (id + 1 + Forest.size (t.children.take k)))) ∧
    (∀ s : Logged Drawing, ∃ s' : Logged Drawing,
      (t.walk Drawing.visitor).run s = .ok () s' ∧
        s'.state.config = s.state.config ∧
        s'.state.openIds = s.state.openIds ∧
        s'.state.nodeCount = s.state.nodeCount + t.size ∧
        s'.state.body =
          s.state.body ++ t.block s.state.config s.state.openIds.head? s.state.nodeCount) ∧
    ∀ c : Config,
      toDotWith t c =
        "# File auto-generated by " ++ c.toolName ++ "\n\ndigraph " ++ c.graphName ++ " \x7b\n"
          ++ t.block c none 0 ++ "\x7d" ∧
      ∃ s s' : Logged Drawing, (t.walk Drawing.visitor).run (Drawing.create c) = .ok () s ∧
        Drawing.finish.run s = .ok (toDotWith t c) s' := by
  refine ⟨fun c parent? id ↦ t.block_eq c parent? id,
    fun s ↦ ⟨_, t.run_walk s, rfl, rfl, ?_, ?_⟩, fun c ↦ ⟨toDotWith_eq t c, ?_⟩⟩
  · rw [Drawing.nodeCount_extend, Tree.length_visits]
  · rw [Drawing.body_extend, Tree.block_eq_join]
  · rw [toDotWith_eq_document]
    exact ⟨_, _, t.run_walk (Drawing.create c), Drawing.run_finish_of_openIds_eq_nil rfl⟩

end TreeDrawing
