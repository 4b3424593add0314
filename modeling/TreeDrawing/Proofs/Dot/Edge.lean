import Mathlib.Data.List.Induction
import Mathlib.Logic.Relation
import TreeDrawing.Proofs.Dot.Decoding
import TreeDrawing.Proofs.Tree.Place

/-!
# The graph that is drawn

The edges of a drawing are written one at a time, each from whatever node is innermost at the
moment. For the drawing of a tree they are the edges of that tree: there is an edge from one number
to another exactly if the place of the second is one step below the place of the first. A path
along edges is then a way down in the tree, and so the numbers a node can reach are an interval.

The induction is on the tree and its list of children together, on the visits and the places at
once: both are listed in pre-order, so the visit and the place with the same index belong to the
same node.

## Main results

* `Tree.mem_edges_iff`: which edges are written.
* `Tree.reaches_iff_isPrefix`: which paths there are.
* `edges_form_tree`: the graph of a drawing is the tree.
-/

namespace TreeDrawing

open Log Dot

namespace Dot

/-- The two ends of an edge, if the statement is one. -/
def Statement.ends? : Statement → Option (Nat × Nat)
  | edge parent child => some (parent, child)
  | node .. => none

theorem Statement.ends?_eq_some_iff {s : Statement} {a b : Nat} :
    s.ends? = some (a, b) ↔ s = edge a b := by
  cases s <;> simp [ends?]

/-- The edges of a drawing, in the order in which they are written. -/
def Drawing.edges (d : Drawing) : List (Nat × Nat) := d.statements.filterMap Statement.ends?

theorem Drawing.mem_edges_iff {d : Drawing} {a b : Nat} :
    (a, b) ∈ d.edges ↔ .edge a b ∈ d.statements := by
  simp only [edges, List.mem_filterMap, Statement.ends?_eq_some_iff, exists_eq_right]

/-- The edge of a visit, if it has one. -/
def Visit.ends? (v : Visit) : Option (Nat × Nat) := v.parent?.map fun parent ↦ (parent, v.id)

theorem Visit.filterMap_ends?_statements (c : Config) (v : Visit) :
    (v.statements c).filterMap Statement.ends? = v.ends?.toList := by
  rcases v with ⟨_ | parent, id, n⟩ <;> rfl

theorem Visit.ends?_eq_some_iff {v : Visit} {a b : Nat} :
    v.ends? = some (a, b) ↔ v.parent? = some a ∧ v.id = b := by
  simp [ends?]

end Dot

/-! ## Visits and places -/

mutual

/-- The visit of a node in a place: the topmost node has the parent that is given, and any other
node the one that is one step above it. -/
theorem Tree.parent?_of_getElem? {parent? : Option Nat} {id k : Nat} {v : Visit}
    {p : Tree.Place} : ∀ t : Tree, (t.visits parent? id)[k]? = some v → t.places[k]? = some p →
      p = [] ∧ v.parent? = parent? ∨
        ∃ m q j, p = q ++ [j] ∧ t.places[m]? = some q ∧ v.parent? = some (id + m)
  | .node n cs, hv, hp => by
    rw [Tree.visits] at hv
    rw [Tree.places] at hp ⊢
    cases k with
    | zero =>
      obtain rfl := Option.some.inj hv
      obtain rfl := Option.some.inj hp
      exact .inl ⟨rfl, rfl⟩
    | succ k =>
      rw [List.getElem?_cons_succ] at hv hp
      refine .inr ?_
      obtain ⟨j, rfl, hparent⟩ | ⟨m, q, j, rfl, hq, hparent⟩ := Forest.parent?_of_getElem? cs hv hp
      · exact ⟨0, [], j, rfl, rfl, hparent⟩
      · refine ⟨m + 1, q, j, rfl, hq, ?_⟩
        rw [hparent, Nat.add_assoc, Nat.add_comm 1]

theorem Forest.parent?_of_getElem? {parent? : Option Nat} {id i k : Nat} {v : Visit}
    {p : Tree.Place} : ∀ f : Forest, (Forest.visits parent? id f)[k]? = some v →
      (Forest.places i f)[k]? = some p →
      (∃ j, p = [j] ∧ v.parent? = parent?) ∨
        ∃ m q j, p = q ++ [j] ∧ (Forest.places i f)[m]? = some q ∧ v.parent? = some (id + m)
  | [], hv, _ => by simp [Forest.visits] at hv
  | t :: rest, hv, hp => by
    rw [Forest.visits] at hv
    rw [Forest.places] at hp ⊢
    have hvisits := t.length_visits parent? id
    have hplaces : (t.places.map (i :: ·)).length = t.size := by
      rw [List.length_map, t.length_places]
    by_cases hk : k < t.size
    · rw [List.getElem?_append_left (by rwa [hvisits])] at hv
      rw [List.getElem?_append_left (by rwa [hplaces]), List.getElem?_map] at hp
      obtain ⟨p', hp', rfl⟩ := Option.map_eq_some_iff.1 hp
      obtain ⟨rfl, hparent⟩ | ⟨m, q, j, rfl, hq, hparent⟩ := Tree.parent?_of_getElem? t hv hp'
      · exact .inl ⟨i, rfl, hparent⟩
      · refine .inr ⟨m, i :: q, j, rfl, ?_, hparent⟩
        rw [List.getElem?_append_left (by rw [hplaces]; exact Tree.lt_size_of_getElem? hq),
          List.getElem?_map, hq, Option.map_some]
    · rw [List.getElem?_append_right (by rwa [hvisits, ← Nat.not_lt]), hvisits] at hv
      rw [List.getElem?_append_right (by rwa [hplaces, ← Nat.not_lt]), hplaces] at hp
      obtain hfirst | ⟨m, q, j, rfl, hq, hparent⟩ := Forest.parent?_of_getElem? rest hv hp
      · exact .inl hfirst
      · refine .inr ⟨t.size + m, q, j, rfl, ?_, ?_⟩
        · rw [List.getElem?_append_right (by rw [hplaces]; exact Nat.le_add_right _ _), hplaces,
            Nat.add_sub_cancel_left, hq]
        · rw [hparent, Nat.add_assoc]

end

/-! ## Edges -/

namespace Tree

variable (t : Tree)

/-- The edges of a tree, from its visits. -/
def edges : List (Nat × Nat) := (t.visits none 0).filterMap Visit.ends?

/-- The visit with the index of a place has its number, and is of the node there. -/
theorem exists_visit_of_place (parent? : Option Nat) (id : Nat) {k : Nat} {p : Place}
    (h : t.places[k]? = some p) : ∃ v, (t.visits parent? id)[k]? = some v ∧ v.id = id + k ∧
      (t.at? p).map root = some v.node := by
  have hk : k < (t.visits parent? id).length := by
    rw [t.length_visits]
    exact lt_size_of_getElem? h
  have hv := List.getElem?_eq_getElem hk
  refine ⟨_, hv, (t.getElem?_visits hv).1, ?_⟩
  have hroots := congrArg (fun l : List (Option Node) ↦ l[k]?) t.map_root_places
  simp only [← t.map_node_visits parent? id, List.getElem?_map, h, hv, Option.map_some,
    Option.some.injEq] at hroots
  exact hroots

/-- There is an edge from each node to those one step below it. -/
theorem mem_edges_iff {a b : Nat} :
    (a, b) ∈ t.edges ↔ ∃ q j, t.places[a]? = some q ∧ t.places[b]? = some (q ++ [j]) := by
  constructor
  · intro h
    obtain ⟨v, hv, hends⟩ := List.mem_filterMap.1 h
    obtain ⟨hparent, rfl⟩ := Visit.ends?_eq_some_iff.1 hends
    obtain ⟨k, hk⟩ := List.mem_iff_getElem?.1 hv
    obtain rfl : v.id = k := by rw [(t.getElem?_visits hk).1, Nat.zero_add]
    have hlt : v.id < t.places.length := by
      rw [t.length_places, ← t.length_visits none 0]
      exact (List.getElem?_eq_some_iff.1 hk).1
    have hplace := List.getElem?_eq_getElem hlt
    obtain ⟨-, hnone⟩ | ⟨m, q, j, hp, hq, hm⟩ := t.parent?_of_getElem? hk hplace
    · exact nomatch hparent.symm.trans hnone
    · obtain rfl : a = 0 + m := Option.some.inj (hparent.symm.trans hm)
      rw [Nat.zero_add]
      exact ⟨q, j, hq, hp ▸ hplace⟩
  · rintro ⟨q, j, ha, hb⟩
    obtain ⟨v, hv, hid, -⟩ := t.exists_visit_of_place none 0 hb
    rw [Nat.zero_add] at hid
    refine List.mem_filterMap.2 ⟨v, List.mem_of_getElem? hv, ?_⟩
    obtain ⟨hnil, -⟩ | ⟨m, q', j', hp, hq', hm⟩ := t.parent?_of_getElem? hv hb
    · simp at hnil
    · obtain ⟨rfl, -⟩ := List.append_inj' hp rfl
      rw [number_inj ha hq', Visit.ends?_eq_some_iff]
      exact ⟨by rw [hm, Nat.zero_add], hid⟩

/-- Every node but the first ends one edge. -/
theorem map_snd_edges : t.edges.map Prod.snd = List.range' 1 (t.size - 1) := by
  rcases t with ⟨n, cs⟩
  have hends : ∀ v ∈ Forest.visits (some 0) 1 cs,
      v.ends?.map Prod.snd = (some ∘ Visit.id) v := by
    intro v hv
    obtain ⟨k, hk⟩ := List.mem_iff_getElem?.1 hv
    obtain ⟨parent, hparent⟩ := Option.ne_none_iff_exists'.1 (Forest.getElem?_visits cs hk).2
    rw [Visit.ends?, hparent, Option.map_some, Option.map_some]
    rfl
  have htop : (Tree.node n cs).edges = (Forest.visits (some 0) 1 cs).filterMap Visit.ends? := rfl
  rw [htop, List.map_filterMap, List.filterMap_congr hends, List.filterMap_eq_map,
    Forest.map_id_visits, Tree.size, Nat.add_sub_cancel_left]

theorem exists_mem_edges_iff {b : Nat} : (∃ a, (a, b) ∈ t.edges) ↔ 0 < b ∧ b < t.size := by
  have hmem : (∃ a, (a, b) ∈ t.edges) ↔ b ∈ t.edges.map Prod.snd := by simp
  have hpos := t.size_pos
  rw [hmem, t.map_snd_edges, List.mem_range'_1]
  omega

theorem parent_unique {a a' b : Nat} (h : (a, b) ∈ t.edges) (h' : (a', b) ∈ t.edges) : a = a' := by
  obtain ⟨q, j, ha, hb⟩ := t.mem_edges_iff.1 h
  obtain ⟨q', j', ha', hb'⟩ := t.mem_edges_iff.1 h'
  obtain ⟨rfl, -⟩ := List.append_inj' (Option.some.inj (hb.symm.trans hb')) rfl
  exact number_inj ha ha'

/-- Every edge goes to a greater number. -/
theorem lt_of_mem_edges {a b : Nat} (h : (a, b) ∈ t.edges) : a < b := by
  obtain ⟨q, j, ha, hb⟩ := t.mem_edges_iff.1 h
  obtain ⟨s, hs⟩ := Option.isSome_iff_exists.1 (isSome_at?_of_getElem? ha)
  have hle := ((isPrefix_iff_number ha hb hs).1 (List.prefix_append q [j])).1
  refine Nat.lt_of_le_of_ne hle ?_
  rintro rfl
  simpa using ha.symm.trans hb

/-! ## Paths -/

/-- There is a path from one number to another, perhaps without any edges. -/
def Reaches (edges : List (Nat × Nat)) : Nat → Nat → Prop :=
  Relation.ReflTransGen fun a b ↦ (a, b) ∈ edges

/-- A path along edges is a way down. -/
theorem reaches_iff_isPrefix {u v : Nat} {p q : Place} (hu : t.places[u]? = some p)
    (hv : t.places[v]? = some q) : Reaches t.edges u v ↔ p <+: q := by
  constructor
  · intro h
    induction h generalizing q with
    | refl =>
      obtain rfl := Option.some.inj (hu.symm.trans hv)
      exact List.prefix_rfl
    | tail _ hedge ih =>
      obtain ⟨r, j, hb, hc⟩ := t.mem_edges_iff.1 hedge
      obtain rfl := Option.some.inj (hv.symm.trans hc)
      exact (ih hb).trans (List.prefix_append r [j])
  · rintro ⟨r, rfl⟩
    -- The last step of the way is an edge, and what is left without it is a place again.
    induction r using List.reverseRecOn generalizing v with
    | nil =>
      rw [List.append_nil] at hv
      rw [number_inj hu hv]
      exact .refl
    | append_singleton r j ih =>
      rw [← List.append_assoc] at hv
      have hmem : p ++ r ∈ t.places :=
        mem_places_iff.2 (isSome_at?_of_append (isSome_at?_of_getElem? hv))
      obtain ⟨w, hw⟩ := List.mem_iff_getElem?.1 hmem
      exact (ih hw).tail (t.mem_edges_iff.2 ⟨p ++ r, j, hw, hv⟩)

end Tree

/-! ## The drawing of a tree -/

namespace Dot

/-- The drawing that a walk over a tree makes. -/
def drawing (t : Tree) (c : Config) : Drawing :=
  (Logging.after (t.walk Drawing.visitor) { config := c }).state

theorem drawing_eq (t : Tree) (c : Config) :
    drawing t c = ({ config := c } : Drawing).extend (t.visits none 0) := by
  rw [drawing, Logging.after, t.run_walk]
  rfl

theorem config_drawing (t : Tree) (c : Config) : (drawing t c).config = c := by
  rw [drawing_eq]
  rfl

theorem statements_drawing (t : Tree) (c : Config) :
    (drawing t c).statements = (t.visits none 0).flatMap (Visit.statements c) := by
  rw [drawing_eq, Drawing.statements, Drawing.extend, List.append_nil, List.reverse_reverse]

theorem edges_drawing (t : Tree) (c : Config) : (drawing t c).edges = t.edges := by
  rw [Drawing.edges, statements_drawing, List.filterMap_flatMap, Tree.edges,
    List.filterMap_eq_flatMap_toList]
  simp only [Visit.filterMap_ends?_statements]

/-- The number of a place is declared with what the node there carries. -/
theorem declare_mem_visits {t s : Tree} {u : Nat} {p : Tree.Place} (c : Config)
    (parent? : Option Nat) (id : Nat) (hu : t.places[u]? = some p) (hs : t.at? p = some s) :
    c.declare (id + u) s.root ∈ (t.visits parent? id).flatMap (Visit.statements c) := by
  obtain ⟨v, hv, hid, hroot⟩ := t.exists_visit_of_place parent? id hu
  rw [hs, Option.map_some, Option.some.injEq] at hroot
  refine List.mem_flatMap.2 ⟨v, List.mem_of_getElem? hv, ?_⟩
  rw [Visit.statements, ← hid, hroot]
  cases v.parent? <;> simp [Config.introduce]

theorem declare_mem_drawing {t s : Tree} {u : Nat} {p : Tree.Place} (c : Config)
    (hu : t.places[u]? = some p) (hs : t.at? p = some s) :
    c.declare u s.root ∈ (drawing t c).statements := by
  have hmem := declare_mem_visits c none 0 hu hs
  rwa [Nat.zero_add, ← statements_drawing] at hmem

/-- **The graph of a drawing.** A document is its statements in a frame, and an edge is a statement
that is written as its line. In the drawing of a tree there is a path from one number to another
exactly if the node with the second lies in the subtree of the node with the first, which is so
exactly if the second number is among the first and those that follow it, as many as the subtree
has nodes. There is one edge less than there are nodes; each node but the first is the end of one
edge, which comes from a smaller number, the first node is the end of none, and it reaches every
node. -/
theorem edges_form_tree (t : Tree) (c : Config) :
    let d := drawing t c
    toDotWith t c = d.document ∧
    d.document = c.heading ++ Statement.texts d.statements ++ "\x7d" ∧
    (∀ a b, (a, b) ∈ d.edges ↔ .edge a b ∈ d.statements) ∧
    (∀ a b, (Statement.edge a b).text = edgeLine (some a) b) ∧
    (∀ u : Fin t.size, ∃ s : Tree, t.at? (t.place u) = some s ∧
      c.declare u s.root ∈ d.statements ∧
      ∀ v : Fin t.size,
        (Tree.Reaches d.edges u v ↔ t.place u <+: t.place v) ∧
        (t.place u <+: t.place v ↔ u.val ≤ v.val ∧ v.val < u.val + s.size)) ∧
    d.edges.Nodup ∧
    d.edges.length = t.size - 1 ∧
    (∀ i : Fin t.size, 0 < i.val → ∃ p < i.val, ∀ a, (a, i.val) ∈ d.edges ↔ a = p) ∧
    (∀ a, (a, 0) ∉ d.edges) ∧
    ∀ v : Fin t.size, Tree.Reaches d.edges 0 v := by
  intro d
  have hdocument : d.document = c.heading ++ Statement.texts d.statements ++ "\x7d" := by
    rw [Drawing.document_eq, config_drawing, Drawing.body]
  have hmem : ∀ a b, (a, b) ∈ d.edges ↔ .edge a b ∈ d.statements := fun _ _ ↦
    Drawing.mem_edges_iff
  have hedges : d.edges = t.edges := edges_drawing t c
  refine ⟨rfl, hdocument, hmem, Statement.text_edge, ?_⟩
  rw [hedges]
  refine ⟨fun u ↦ ?_, ?_, ?_, fun i hi ↦ ?_, fun a h ↦ ?_, fun v ↦ ?_⟩
  · have hu := t.getElem?_place u
    obtain ⟨s, hs⟩ := Option.isSome_iff_exists.1 (Tree.isSome_at?_of_getElem? hu)
    refine ⟨s, hs, declare_mem_drawing c hu hs, fun v ↦ ?_⟩
    have hv := t.getElem?_place v
    exact ⟨t.reaches_iff_isPrefix hu hv, Tree.isPrefix_iff_number hu hv hs⟩
  · apply List.Nodup.of_map Prod.snd
    rw [t.map_snd_edges]
    exact List.nodup_range'
  · rw [← List.length_map Prod.snd, t.map_snd_edges, List.length_range']
  · obtain ⟨p, hp⟩ := t.exists_mem_edges_iff.2 ⟨hi, i.isLt⟩
    refine ⟨p, t.lt_of_mem_edges hp, fun a ↦ ⟨fun ha ↦ t.parent_unique ha hp, ?_⟩⟩
    rintro rfl
    exact hp
  · exact Nat.not_lt_zero a (t.lt_of_mem_edges h)
  · have htop : t.places[0]? = some [] := by rw [t.places_eq_cons, List.getElem?_cons_zero]
    exact (t.reaches_iff_isPrefix htop (t.getElem?_place v)).2 List.nil_prefix

end Dot

end TreeDrawing
