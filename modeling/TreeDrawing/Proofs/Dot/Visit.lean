import TreeDrawing.Dot.Drawing

/-!
# Visits and their lines

What a drawing writes when a node is entered depends on three things: the innermost node that is
open, the number the node gets, and what the node carries. A `Visit` is the three together, and
`Visit.text` is what is written. The body of a drawing is always the text of some visits, one after
the other; which visits they are is the whole question, for a tree that is walked
(`Tree.visits`) as for calls in any other order.

What a node carries comes in by its *caption* and its style alone. Both are written out here for
every sort of node, and the drawing is shown to use them (`Config.text_declare`).

`Tree.statements` and `Tree.block` are the statements and the text of a tree, by recursion on the
tree and without any visits: a node is numbered before its descendants, and its children follow one
another, each numbered behind everything below the one before.
-/

namespace TreeDrawing

/-! ## What a node carries -/

/-- The text that stands in a node: its value, or else its token, or else what is given for a node
without either. -/
def Node.caption (n : Node) (missing : String) : String :=
  match n.value?, n.token? with
  | some value, _ => value
  | none, some token => token
  | none, none => missing

theorem Node.getD_label? (n : Node) (missing : String) :
    n.label?.getD missing = n.caption missing := by
  unfold caption
  cases hvalue : n.value? with
  | some value => rw [label?_of_value? hvalue, Option.getD_some]
  | none =>
    rw [label?_of_value?_eq_none hvalue]
    cases n.token? <;> rfl

namespace Dot

/-- The style of a node: without a value it is a leaf, and with one its kind decides. -/
def Palette.nodeStyle (p : Palette) (n : Node) : Style :=
  match n.value?, n.kind with
  | none, _ => ⟨p.leafFont, p.leafFill, "rect"⟩
  | some _, .capture => ⟨p.interiorFont, p.interiorFill, "rectangle"⟩
  | some _, .ordinary => ⟨p.interiorFont, p.interiorFill, "oval"⟩

theorem Palette.style_nodeClass (p : Palette) (n : Node) : p.style n.nodeClass = p.nodeStyle n := by
  unfold nodeStyle
  cases hvalue : n.value? with
  | none =>
    rw [Node.nodeClass_eq_leaf_iff.2 hvalue]
    rfl
  | some value =>
    have hne : n.value? ≠ none := by simp [hvalue]
    cases hkind : n.kind with
    | ordinary =>
      rw [Node.nodeClass_eq_interior_iff.2 ⟨hne, hkind⟩]
      rfl
    | capture =>
      rw [Node.nodeClass_eq_capture_iff.2 ⟨hne, hkind⟩]
      rfl

/-! ## Text -/

/-- The line of an edge, if there is a node to begin it. -/
def edgeLine (parent? : Option Nat) (id : Nat) : String :=
  match parent? with
  | none => ""
  | some parent => toString parent ++ " -> " ++ toString id ++ ";\n"

/-- The line of a node: its number, its style, and its caption. -/
def Config.nodeLine (c : Config) (id : Nat) (n : Node) : String :=
  "  " ++ toString id ++ " [fontcolor=\"" ++ (c.palette.nodeStyle n).fontColor
    ++ "\",style=\"filled\",fillcolor=\"" ++ (c.palette.nodeStyle n).fillColor
    ++ "\",shape=\"" ++ (c.palette.nodeStyle n).shape
    ++ "\",label=\"" ++ escapeLabel (n.caption c.missingLabel) ++ "\"];\n"

/-- Everything in front of the statements. -/
def Config.heading (c : Config) : String :=
  "# File auto-generated by " ++ c.toolName ++ "\n\ndigraph " ++ c.graphName ++ " \x7b\n"

/-- Statements as they are written one after the other. -/
def Statement.texts (ss : List Statement) : String := String.join (ss.map text)

theorem Statement.texts_cons (s : Statement) (ss : List Statement) :
    texts (s :: ss) = s.text ++ texts ss := by
  rw [texts, List.map_cons, String.join_cons, texts]

theorem Statement.texts_singleton (s : Statement) : texts [s] = s.text := by
  rw [texts_cons, texts, List.map_nil, String.join_nil, String.append_empty]

theorem Statement.texts_append (ss ts : List Statement) :
    texts (ss ++ ts) = texts ss ++ texts ts := by
  rw [texts, List.map_append, String.join_append, texts, texts]

theorem Statement.text_edge (parent child : Nat) :
    (edge parent child).text = edgeLine (some parent) child := rfl

theorem Config.text_declare (c : Config) (id : Nat) (n : Node) :
    (c.declare id n).text = c.nodeLine id n := by
  rw [declare, c.palette.style_nodeClass, n.getD_label?]
  rfl

theorem Statement.texts_introduce (c : Config) (parent? : Option Nat) (id : Nat) (n : Node) :
    texts (c.introduce parent? id n) = edgeLine parent? id ++ c.nodeLine id n := by
  cases parent? with
  | none =>
    simp only [Config.introduce, texts_singleton, Config.text_declare, edgeLine,
      String.empty_append]
  | some parent =>
    rw [Config.introduce, texts_cons, texts_singleton, text_edge, Config.text_declare]

private theorem foldl_append_text (ss : List Statement) (out : String) :
    ss.foldl (fun out s ↦ out ++ s.text) out = out ++ Statement.texts ss := by
  induction ss generalizing out with
  | nil => rw [List.foldl_nil, Statement.texts, List.map_nil, String.join_nil, String.append_empty]
  | cons s ss ih => rw [List.foldl_cons, ih, Statement.texts_cons, String.append_assoc]

theorem Config.document_eq (c : Config) (ss : List Statement) :
    c.document ss = c.heading ++ Statement.texts ss ++ "\x7d" := by
  unfold document heading
  rw [foldl_append_text]

/-! ## Visits -/

/-- A node as a drawing meets it. -/
structure Visit where
  /-- The innermost open node. -/
  parent? : Option Nat
  id : Nat
  node : Node

/-- The statements of a visit. -/
def Visit.statements (c : Config) (v : Visit) : List Statement :=
  c.introduce v.parent? v.id v.node

/-- The lines of a visit. -/
def Visit.text (c : Config) (v : Visit) : String :=
  edgeLine v.parent? v.id ++ c.nodeLine v.id v.node

theorem Statement.texts_flatMap_visits (c : Config) (vs : List Visit) :
    texts (vs.flatMap (Visit.statements c)) = String.join (vs.map (Visit.text c)) := by
  induction vs with
  | nil => rfl
  | cons v vs ih =>
    rw [List.flatMap_cons, texts_append, ih, List.map_cons, String.join_cons,
      Visit.statements, texts_introduce, Visit.text]

end Dot

open Dot

mutual

/-- The visits of a walk over a tree: its nodes in pre-order, numbered from `id` on. -/
def Tree.visits (parent? : Option Nat) (id : Nat) : Tree → List Visit
  | .node n children => ⟨parent?, id, n⟩ :: Forest.visits (some id) (id + 1) children

/-- The visits of walks over several trees, one after the other. -/
def Forest.visits (parent? : Option Nat) (id : Nat) : Forest → List Visit
  | [] => []
  | t :: rest => t.visits parent? id ++ Forest.visits parent? (id + t.size) rest

end

mutual

/-- The statements of a tree whose topmost node has the number `id` and hangs from `parent?`. -/
def Tree.statements (c : Config) (parent? : Option Nat) (id : Nat) : Tree → List Statement
  | .node n children =>
    c.introduce parent? id n ++ Forest.statements c id (id + 1) children

/-- The statements of the children of the node `parent`, numbered from `id` on. -/
def Forest.statements (c : Config) (parent id : Nat) : Forest → List Statement
  | [] => []
  | t :: rest =>
    t.statements c (some parent) id ++ Forest.statements c parent (id + t.size) rest

end

mutual

theorem Tree.statements_eq_flatMap (c : Config) (parent? : Option Nat) (id : Nat) :
    ∀ t : Tree, t.statements c parent? id = (t.visits parent? id).flatMap (Visit.statements c)
  | .node n children => by
    rw [Tree.statements, Tree.visits, List.flatMap_cons, Visit.statements,
      Forest.statements_eq_flatMap c id (id + 1) children]

theorem Forest.statements_eq_flatMap (c : Config) (parent id : Nat) :
    ∀ f : Forest,
      Forest.statements c parent id f = (f.visits (some parent) id).flatMap (Visit.statements c)
  | [] => rfl
  | t :: rest => by
    rw [Forest.statements, Forest.visits, List.flatMap_append,
      Tree.statements_eq_flatMap c (some parent) id t,
      Forest.statements_eq_flatMap c parent (id + t.size) rest]

end

/-! ## Blocks -/

mutual

/-- The text of a tree whose topmost node has the number `id` and hangs from `parent?`. -/
def Tree.block (c : Config) (parent? : Option Nat) (id : Nat) : Tree → String
  | .node n children =>
    edgeLine parent? id ++ c.nodeLine id n ++ Forest.block c id (id + 1) children

/-- The text of the children of `parent`, each numbered behind everything below those before. -/
def Forest.block (c : Config) (parent id : Nat) : Forest → String
  | [] => ""
  | t :: rest => t.block c (some parent) id ++ Forest.block c parent (id + t.size) rest

end

/-- Sibling by sibling: a child is numbered by the sizes of the children before it. -/
theorem Forest.block_eq_join (c : Config) (parent id : Nat) (f : Forest) :
    Forest.block c parent id f =
      String.join (f.mapIdx fun k t ↦ t.block c (some parent) (id + Forest.size (f.take k))) := by
  induction f generalizing id with
  | nil => rfl
  | cons t rest ih =>
    rw [Forest.block, ih, List.mapIdx_cons, String.join_cons]
    simp only [List.take_zero, List.take_succ_cons, Forest.size, Nat.add_zero, Nat.add_assoc]

mutual

theorem Tree.block_eq_texts (c : Config) (parent? : Option Nat) (id : Nat) :
    ∀ t : Tree, t.block c parent? id = Statement.texts (t.statements c parent? id)
  | .node n children => by
    rw [Tree.block, Tree.statements, Statement.texts_append, Statement.texts_introduce,
      Forest.block_eq_texts c id (id + 1) children]

theorem Forest.block_eq_texts (c : Config) (parent id : Nat) :
    ∀ f : Forest, Forest.block c parent id f = Statement.texts (Forest.statements c parent id f)
  | [] => rfl
  | t :: rest => by
    rw [Forest.block, Forest.statements, Statement.texts_append,
      Tree.block_eq_texts c (some parent) id t, Forest.block_eq_texts c parent (id + t.size) rest]

end

end TreeDrawing
