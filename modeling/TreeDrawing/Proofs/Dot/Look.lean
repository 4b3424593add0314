import TreeDrawing.Proofs.Dot.Walk

/-!
# What can be seen of a tree

A drawing shows two things of a node, its class and its caption as written: its *look*. Two trees
are *alike* if they have the same shape and the same looks in the same places.

The visits of a tree are a flat list, in which the shape is present only as the number of the
parent. `alike_iff_shown_visits` says that nothing is lost: a forest of children ends where the next
visit hangs from a node further up, so the list can be cut up again from the front.
-/

namespace TreeDrawing

namespace Dot

/-- What a drawing shows of a node: its class, and its caption as it is written. -/
structure Look where
  nodeClass : NodeClass
  label : String
  deriving DecidableEq

/-- How a node looks. -/
def Config.look (c : Config) (n : Node) : Look :=
  ⟨n.nodeClass, escapeLabel (n.caption c.missingLabel)⟩

/-- Takes away what no drawing shows: the token of a node with a value, and the kind of a node
without one. -/
def bare (n : Node) : Node :=
  match n.value? with
  | some value => { kind := n.kind, value? := some value }
  | none => { token? := n.token? }

theorem look_bare (c : Config) (n : Node) : c.look (bare n) = c.look n := by
  rcases n with ⟨kind, value?, token?⟩
  cases value? <;> rfl

/-- What a drawing shows of a visit. -/
def Visit.shown (c : Config) (v : Visit) : Option Nat × Nat × Look :=
  (v.parent?, v.id, c.look v.node)

/-- The lines of a visit hold no more than what is shown of it. -/
theorem Visit.text_eq_of_shown_eq {c : Config} {v w : Visit} (h : v.shown c = w.shown c) :
    v.text c = w.text c := by
  rcases v with ⟨p, i, n⟩
  rcases w with ⟨q, j, m⟩
  simp only [shown, Config.look, Prod.mk.injEq, Look.mk.injEq] at h
  obtain ⟨rfl, rfl, hclass, hlabel⟩ := h
  unfold text Config.nodeLine
  dsimp only
  rw [← c.palette.style_nodeClass n, hclass, c.palette.style_nodeClass, hlabel]

end Dot

open Dot

mutual

/-- Whether two trees have the same shape and the same looks in the same places. -/
def Tree.Alike (c : Config) : Tree → Tree → Prop
  | .node n cs, .node m ds => c.look n = c.look m ∧ Forest.Alike c cs ds

/-- Whether two forests have equally many trees, which are alike one by one. -/
def Forest.Alike (c : Config) : Forest → Forest → Prop
  | [], [] => True
  | t :: ts, u :: us => t.Alike c u ∧ Forest.Alike c ts us
  | _, _ => False

end

mutual

/-- Changes what every node of a tree carries. -/
def Tree.mapNodes (f : Node → Node) : Tree → Tree
  | .node n cs => .node (f n) (Forest.mapNodes f cs)

/-- Changes what every node of a forest carries. -/
def Forest.mapNodes (f : Node → Node) : Forest → Forest
  | [] => []
  | t :: ts => t.mapNodes f :: Forest.mapNodes f ts

end

mutual

theorem Tree.alike_mapNodes {c : Config} {f : Node → Node} (hf : ∀ n, c.look (f n) = c.look n) :
    ∀ t : Tree, (t.mapNodes f).Alike c t
  | .node n cs => ⟨hf n, Forest.alike_mapNodes hf cs⟩

theorem Forest.alike_mapNodes {c : Config} {f : Node → Node}
    (hf : ∀ n, c.look (f n) = c.look n) : ∀ g : Forest, Forest.Alike c (Forest.mapNodes f g) g
  | [] => trivial
  | t :: ts => ⟨Tree.alike_mapNodes hf t, Forest.alike_mapNodes hf ts⟩

end

mutual

theorem Tree.Alike.size_eq {c : Config} : ∀ {t u : Tree}, t.Alike c u → t.size = u.size
  | .node _ cs, .node _ ds, h => by
    rw [Tree.size, Tree.size, Forest.Alike.size_eq (f := cs) (g := ds) h.2]

theorem Forest.Alike.size_eq {c : Config} :
    ∀ {f g : Forest}, Forest.Alike c f g → Forest.size f = Forest.size g
  | [], [], _ => rfl
  | [], _ :: _, h => h.elim
  | _ :: _, [], h => h.elim
  | t :: ts, u :: us, h => by
    rw [Forest.size, Forest.size, Tree.Alike.size_eq (t := t) (u := u) h.1,
      Forest.Alike.size_eq (f := ts) (g := us) h.2]

end

/-! ## From trees to visits -/

mutual

theorem Tree.Alike.shown_visits {c : Config} (parent? : Option Nat) (id : Nat) :
    ∀ {t u : Tree}, t.Alike c u →
      (t.visits parent? id).map (Visit.shown c) = (u.visits parent? id).map (Visit.shown c)
  | .node n cs, .node m ds, h => by
    rw [Tree.visits, Tree.visits, List.map_cons, List.map_cons, Visit.shown, Visit.shown, h.1,
      Forest.Alike.shown_visits (some id) (id + 1) (f := cs) (g := ds) h.2]

theorem Forest.Alike.shown_visits {c : Config} (parent? : Option Nat) (id : Nat) :
    ∀ {f g : Forest}, Forest.Alike c f g →
      (Forest.visits parent? id f).map (Visit.shown c) =
        (Forest.visits parent? id g).map (Visit.shown c)
  | [], [], _ => rfl
  | [], _ :: _, h => h.elim
  | _ :: _, [], h => h.elim
  | t :: ts, u :: us, h => by
    rw [Forest.visits, Forest.visits, List.map_append, List.map_append,
      Tree.Alike.shown_visits parent? id (t := t) (u := u) h.1,
      Tree.Alike.size_eq (t := t) (u := u) h.1,
      Forest.Alike.shown_visits parent? (id + u.size) (f := ts) (g := us) h.2]

end

/-! ## From visits to trees -/

/-- Whether what follows begins with a visit from above the node `id`, if with any. -/
def Dot.BeginsAbove (id : Nat) (rest : List (Option Nat × Nat × Look)) : Prop :=
  ∀ v ∈ rest.head?, ∀ parent, v.1 = some parent → parent < id

/-- Further children of `parent`, and then what lies above `parent`, all lie above the node
`id`. -/
theorem Dot.beginsAbove_visits {c : Config} {parent id k : Nat} (f : Forest)
    {rest : List (Option Nat × Nat × Look)} (hlt : parent < id) (h : BeginsAbove parent rest) :
    BeginsAbove id ((Forest.visits (some parent) k f).map (Visit.shown c) ++ rest) := by
  intro v hv q hq
  match f, hv with
  | [], hv => exact Nat.lt_trans (h v hv q hq) hlt
  | .node n cs :: ts, hv =>
    simp only [Forest.visits, Tree.visits, List.cons_append, List.map_cons, List.head?_cons,
      Option.mem_def, Option.some.injEq] at hv
    subst hv
    simp only [Visit.shown, Option.some.injEq] at hq
    exact hq ▸ hlt

mutual

theorem Tree.alike_of_shown_visits {c : Config} {parent? : Option Nat} {id : Nat}
    {rest rest' : List (Option Nat × Nat × Look)} (hr : BeginsAbove id rest)
    (hr' : BeginsAbove id rest') :
    ∀ {t u : Tree}, (t.visits parent? id).map (Visit.shown c) ++ rest =
      (u.visits parent? id).map (Visit.shown c) ++ rest' → t.Alike c u ∧ rest = rest'
  | .node n cs, .node m ds, h => by
    simp only [Tree.visits, List.map_cons, List.cons_append, List.cons.injEq, Visit.shown,
      Prod.mk.injEq, true_and] at h
    obtain ⟨hc, hrest⟩ := Forest.alike_of_shown_visits (f := cs) (g := ds)
      (Nat.lt_succ_self id) hr hr' h.2
    exact ⟨⟨h.1, hc⟩, hrest⟩

theorem Forest.alike_of_shown_visits {c : Config} {parent id : Nat}
    {rest rest' : List (Option Nat × Nat × Look)} (hlt : parent < id)
    (hr : BeginsAbove parent rest) (hr' : BeginsAbove parent rest') :
    ∀ {f g : Forest}, (Forest.visits (some parent) id f).map (Visit.shown c) ++ rest =
      (Forest.visits (some parent) id g).map (Visit.shown c) ++ rest' →
        Forest.Alike c f g ∧ rest = rest'
  | [], [], h => ⟨trivial, h⟩
  | [], .node m ds :: us, h => by
    -- the left list begins above `parent`, the right one below it
    replace h : rest = _ := h
    rw [h] at hr
    exact absurd (hr _ rfl parent rfl) (Nat.lt_irrefl parent)
  | .node n cs :: ts, [], h => by
    replace h : _ = rest' := h
    rw [← h] at hr'
    exact absurd (hr' _ rfl parent rfl) (Nat.lt_irrefl parent)
  | t :: ts, u :: us, h => by
    simp only [Forest.visits, List.map_append, List.append_assoc] at h
    obtain ⟨ht, hrest⟩ := Tree.alike_of_shown_visits (t := t) (u := u)
      (beginsAbove_visits ts hlt hr) (beginsAbove_visits us hlt hr') h
    rw [ht.size_eq] at hrest
    obtain ⟨hts, hrest⟩ := Forest.alike_of_shown_visits (f := ts) (g := us)
      (Nat.lt_of_lt_of_le hlt (Nat.le_add_right id u.size)) hr hr' hrest
    exact ⟨⟨ht, hts⟩, hrest⟩

end

/-- Trees are alike exactly if the same is shown of their visits. -/
theorem alike_iff_shown_visits {c : Config} {parent? : Option Nat} {id : Nat} {t u : Tree} :
    t.Alike c u ↔
      (t.visits parent? id).map (Visit.shown c) = (u.visits parent? id).map (Visit.shown c) := by
  have hnil : BeginsAbove id [] := fun v hv ↦ nomatch hv
  refine ⟨fun h ↦ h.shown_visits parent? id, fun h ↦ ?_⟩
  exact (Tree.alike_of_shown_visits hnil hnil (congrArg (· ++ []) h)).1

end TreeDrawing
