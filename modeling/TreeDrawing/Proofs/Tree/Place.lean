import Mathlib.Data.List.Nodup
import TreeDrawing.Proofs.Tree.Walk

/-!
# Places in a tree

A *place* tells the way down from the top of a tree: which of its children to go to, then which of
the children of that one, and so on. A node of a tree is known by its place, and not by the subtree
it is the top of, since the same subtree may stand in several places. One node lies below another
if the place of the second begins the place of the first.

Nodes are also known by numbers, in pre-order. `Tree.places` lists the places in this order, so a
number is an index into the list. The result of this module relates the two: the nodes in the
subtree at a place are those of an interval of numbers, as long as the subtree is large. What makes
it true is that the list of a tree contains the list of each of its subtrees in one piece
(`Tree.places_eq_append`).
-/

namespace TreeDrawing

/-- The way down to a node: which child to go to at each step. -/
abbrev Tree.Place := List Nat

/-- The subtree at a place, if the place is in the tree. -/
def Tree.at? (t : Tree) : Tree.Place → Option Tree
  | [] => some t
  | k :: p => t.children[k]?.bind fun u ↦ u.at? p

mutual

/-- The places of a tree in pre-order. -/
def Tree.places : Tree → List Tree.Place
  | .node _ cs => [] :: Forest.places 0 cs

/-- The places in several trees, of which the first is the child `k` of some node. -/
def Forest.places (k : Nat) : Forest → List Tree.Place
  | [] => []
  | t :: rest => t.places.map (k :: ·) ++ Forest.places (k + 1) rest

end

/-! ## Going down -/

theorem Tree.at?_append (t : Tree) (p q : Tree.Place) :
    t.at? (p ++ q) = (t.at? p).bind fun s ↦ s.at? q := by
  induction p generalizing t with
  | nil => rfl
  | cons k p ih =>
    rw [List.cons_append, Tree.at?, Tree.at?]
    cases t.children[k]? with
    | none => rfl
    | some u => exact ih u

/-- Above a node there are nodes all the way. -/
theorem Tree.isSome_at?_of_append {t : Tree} {p q : Tree.Place}
    (h : (t.at? (p ++ q)).isSome = true) : (t.at? p).isSome = true := by
  rw [Tree.at?_append] at h
  exact Option.isSome_of_isSome_bind h

/-! ## Trees by their places -/

mutual

/-- A tree is determined by what its nodes carry, place by place. -/
theorem Tree.ext_at? : ∀ {t u : Tree},
    (∀ p, (t.at? p).map Tree.root = (u.at? p).map Tree.root) → t = u
  | .node a cs, .node b ds, h => by
    have hroot : a = b := Option.some.inj (h [])
    have hchildren : cs = ds := Forest.ext_at? fun k p ↦ h (k :: p)
    rw [hroot, hchildren]

theorem Forest.ext_at? : ∀ {f g : Forest},
    (∀ (k : Nat) (p : Tree.Place), (f[k]?.bind fun t : Tree ↦ t.at? p).map Tree.root =
      (g[k]?.bind fun t : Tree ↦ t.at? p).map Tree.root) → f = g
  | [], [], _ => rfl
  | [], _ :: _, h => nomatch h 0 []
  | _ :: _, [], h => nomatch h 0 []
  | t :: f, u :: g, h => by
    have hfirst : t = u := Tree.ext_at? (h 0)
    have hrest : f = g := Forest.ext_at? fun k ↦ h (k + 1)
    rw [hfirst, hrest]

end

/-! ## The list of places -/

mutual

theorem Tree.length_places : ∀ t : Tree, t.places.length = t.size
  | .node n cs => by
    rw [Tree.places, List.length_cons, Forest.length_places 0 cs, Tree.size, Nat.add_comm]

theorem Forest.length_places (k : Nat) :
    ∀ f : Forest, (Forest.places k f).length = Forest.size f
  | [] => rfl
  | t :: rest => by
    rw [Forest.places, List.length_append, List.length_map, Tree.length_places t,
      Forest.length_places (k + 1) rest, Forest.size]

end

theorem Tree.places_eq_cons (t : Tree) : t.places = [] :: Forest.places 0 t.children := by
  cases t
  rfl

theorem Forest.mem_places_iff {k : Nat} {f : Forest} {p : Tree.Place} :
    p ∈ Forest.places k f ↔ ∃ j q u, p = (k + j) :: q ∧ f[j]? = some u ∧ q ∈ u.places := by
  induction f generalizing k with
  | nil => simp [Forest.places]
  | cons t rest ih =>
    rw [Forest.places, List.mem_append, List.mem_map, ih]
    constructor
    · rintro (⟨q, hq, rfl⟩ | ⟨j, q, u, rfl, hu, hq⟩)
      · exact ⟨0, q, t, rfl, rfl, hq⟩
      · exact ⟨j + 1, q, u, by rw [Nat.add_assoc, Nat.add_comm 1], hu, hq⟩
    · rintro ⟨_ | j, q, u, rfl, hu, hq⟩
      · obtain rfl := Option.some.inj hu
        exact .inl ⟨q, hq, rfl⟩
      · exact .inr ⟨j, q, u, by rw [Nat.add_assoc, Nat.add_comm 1], hu, hq⟩

/-- All the places of a tree are listed. -/
theorem Tree.mem_places_iff {t : Tree} {p : Tree.Place} :
    p ∈ t.places ↔ (t.at? p).isSome = true := by
  induction p generalizing t with
  | nil => simp [Tree.places_eq_cons, Tree.at?]
  | cons k p ih =>
    rw [Tree.places_eq_cons, List.mem_cons, Forest.mem_places_iff, Tree.at?]
    constructor
    · rintro (h | ⟨j, q, u, h, hu, hq⟩)
      · simp at h
      · obtain ⟨rfl, rfl⟩ := List.cons.inj h
        rw [Nat.zero_add, hu, Option.bind_some]
        exact ih.1 hq
    · intro h
      obtain ⟨s, hs⟩ := Option.isSome_iff_exists.1 h
      obtain ⟨u, hu, hp⟩ := Option.bind_eq_some_iff.1 hs
      exact .inr ⟨k, p, u, by rw [Nat.zero_add], hu, ih.2 (Option.isSome_of_eq_some hp)⟩

mutual

/-- Every place is listed once. -/
theorem Tree.nodup_places : ∀ t : Tree, t.places.Nodup
  | .node n cs => by
    rw [Tree.places, List.nodup_cons]
    refine ⟨fun h ↦ ?_, Forest.nodup_places 0 cs⟩
    obtain ⟨j, q, u, hnil, -⟩ := Forest.mem_places_iff.1 h
    exact List.cons_ne_nil _ _ hnil.symm

theorem Forest.nodup_places (k : Nat) : ∀ f : Forest, (Forest.places k f).Nodup
  | [] => List.nodup_nil
  | t :: rest => by
    rw [Forest.places, List.nodup_append]
    refine ⟨(Tree.nodup_places t).map (List.cons_injective), Forest.nodup_places (k + 1) rest, ?_⟩
    -- The places in different trees differ in their first step.
    rintro _ hp _ hq rfl
    obtain ⟨p, -, rfl⟩ := List.mem_map.1 hp
    obtain ⟨j, q, u, h, -⟩ := Forest.mem_places_iff.1 hq
    have hk := (List.cons.inj h).1
    omega

end

theorem Forest.places_eq_append {k j : Nat} {f : Forest} {u : Tree} (h : f[j]? = some u) :
    ∃ before after, Forest.places k f = before ++ (u.places.map ((k + j) :: ·) ++ after) := by
  induction f generalizing k j with
  | nil => simp at h
  | cons t rest ih =>
    rw [Forest.places]
    cases j with
    | zero =>
      obtain rfl := Option.some.inj h
      exact ⟨[], Forest.places (k + 1) rest, rfl⟩
    | succ j =>
      obtain ⟨before, after, hrest⟩ := ih (k := k + 1) h
      refine ⟨t.places.map (k :: ·) ++ before, after, ?_⟩
      rw [hrest, List.append_assoc, Nat.add_assoc, Nat.add_comm 1]

/-- The places in a subtree are listed in one piece, in the order they have in the subtree. -/
theorem Tree.places_eq_append {t s : Tree} {p : Tree.Place} (h : t.at? p = some s) :
    ∃ before after, t.places = before ++ (s.places.map (p ++ ·) ++ after) := by
  induction p generalizing t with
  | nil =>
    obtain rfl := Option.some.inj h
    exact ⟨[], [], by simp⟩
  | cons k p ih =>
    rw [Tree.at?] at h
    obtain ⟨u, hu, hs⟩ := Option.bind_eq_some_iff.1 h
    obtain ⟨before, after, hplaces⟩ := ih hs
    obtain ⟨before', after', hforest⟩ := Forest.places_eq_append (k := 0) hu
    refine ⟨[] :: (before' ++ before.map (k :: ·)), after.map (k :: ·) ++ after', ?_⟩
    rw [Tree.places_eq_cons, hforest, hplaces, Nat.zero_add]
    simp [Function.comp_def]

mutual

/-- The places are listed in the order in which a walk enters the nodes. -/
theorem Tree.map_root_places :
    ∀ t : Tree, t.places.map (fun p ↦ (t.at? p).map Tree.root) = t.nodes.map some
  | .node n cs => by
    have hcs := Forest.map_root_places n [] cs
    rw [List.length_nil, List.nil_append] at hcs
    rw [Tree.places, List.map_cons, hcs, Tree.nodes, List.map_cons, Tree.at?, Option.map_some,
      Tree.root_node]

theorem Forest.map_root_places (n : Node) (before : Forest) : ∀ f : Forest,
    (Forest.places before.length f).map
        (fun p ↦ ((Tree.node n (before ++ f)).at? p).map Tree.root) =
      (Forest.nodes f).map some
  | [] => rfl
  | t :: rest => by
    have hrest := Forest.map_root_places n (before ++ [t]) rest
    rw [List.length_append, List.length_singleton, List.append_assoc, List.singleton_append]
      at hrest
    have ht : ∀ p, (Tree.node n (before ++ t :: rest)).at? (before.length :: p) = t.at? p := by
      intro p
      rw [Tree.at?, Tree.children_node, List.getElem?_append_right (Nat.le_refl _), Nat.sub_self,
        List.getElem?_cons_zero, Option.bind_some]
    rw [Forest.places, List.map_append, hrest, List.map_map, Forest.nodes, List.map_append,
      ← Tree.map_root_places t]
    simp only [Function.comp_def, ht]

end

/-! ## Numbers -/

/-- The place of the node with a given number. -/
def Tree.place (t : Tree) (u : Fin t.size) : Tree.Place :=
  t.places.get (u.cast t.length_places.symm)

theorem Tree.getElem?_place (t : Tree) (u : Fin t.size) : t.places[u.val]? = some (t.place u) :=
  List.getElem?_eq_getElem (u.cast t.length_places.symm).isLt

theorem Tree.lt_size_of_getElem? {t : Tree} {u : Nat} {p : Tree.Place}
    (h : t.places[u]? = some p) : u < t.size := by
  rw [← t.length_places]
  exact (List.getElem?_eq_some_iff.1 h).1

theorem Tree.isSome_at?_of_getElem? {t : Tree} {u : Nat} {p : Tree.Place}
    (h : t.places[u]? = some p) : (t.at? p).isSome = true :=
  Tree.mem_places_iff.1 (List.mem_of_getElem? h)

/-- A place has one number. -/
theorem Tree.number_inj {t : Tree} {u v : Nat} {p : Tree.Place} (hu : t.places[u]? = some p)
    (hv : t.places[v]? = some p) : u = v :=
  (List.getElem?_inj (List.getElem?_eq_some_iff.1 hu).1 t.nodup_places).1 (hu.trans hv.symm)

/-- Numbers in a subtree continue the number of its topmost node. -/
theorem Tree.getElem?_places_add {t s : Tree} {u w : Nat} {p q : Tree.Place}
    (hu : t.places[u]? = some p) (hs : t.at? p = some s) (hw : s.places[w]? = some q) :
    t.places[u + w]? = some (p ++ q) := by
  obtain ⟨before, after, h⟩ := Tree.places_eq_append hs
  have hpiece : ∀ {w : Nat} {q : Tree.Place}, s.places[w]? = some q →
      t.places[before.length + w]? = some (p ++ q) := by
    intro w q hw
    have hlt := (List.getElem?_eq_some_iff.1 hw).1
    rw [h, List.getElem?_append_right (Nat.le_add_right _ _), Nat.add_sub_cancel_left,
      List.getElem?_append_left (by rwa [List.length_map]), List.getElem?_map, hw, Option.map_some]
  have htop : s.places[0]? = some [] := by rw [s.places_eq_cons, List.getElem?_cons_zero]
  have hbefore := hpiece htop
  rw [List.append_nil] at hbefore
  rw [Tree.number_inj hu hbefore]
  exact hpiece hw

/-- The number of a place: how many places are listed before it. -/
def Tree.number (t : Tree) (p : Tree.Place) : Nat := t.places.idxOf p

theorem Tree.number_of_getElem? {t : Tree} {u : Nat} {p : Tree.Place}
    (h : t.places[u]? = some p) : t.number p = u := by
  obtain ⟨hu, rfl⟩ := List.getElem?_eq_some_iff.1 h
  exact t.nodup_places.idxOf_getElem u hu

theorem Tree.getElem?_number {t : Tree} {p : Tree.Place} (h : (t.at? p).isSome = true) :
    t.places[t.number p]? = some p := List.getElem?_idxOf (Tree.mem_places_iff.2 h)

theorem Tree.number_nil (t : Tree) : t.number [] = 0 :=
  Tree.number_of_getElem? (by rw [t.places_eq_cons, List.getElem?_cons_zero])

theorem Forest.getElem?_places_add {i j w : Nat} {f : Forest} {u : Tree} {q : Tree.Place}
    (hu : f[j]? = some u) (hq : u.places[w]? = some q) :
    (Forest.places i f)[Forest.size (f.take j) + w]? = some ((i + j) :: q) := by
  induction f generalizing i j with
  | nil => simp at hu
  | cons t rest ih =>
    have hlength : (t.places.map (i :: ·)).length = t.size := by
      rw [List.length_map, t.length_places]
    rw [Forest.places]
    cases j with
    | zero =>
      obtain rfl := Option.some.inj hu
      have hw := Tree.lt_size_of_getElem? hq
      rw [List.take_zero, Forest.size, Nat.zero_add,
        List.getElem?_append_left (by rwa [hlength]), List.getElem?_map, hq]
      rfl
    | succ j =>
      have hrest := ih (i := i + 1) hu
      rw [List.take_succ_cons, Forest.size, Nat.add_assoc,
        List.getElem?_append_right (by rw [hlength]; exact Nat.le_add_right _ _), hlength,
        Nat.add_sub_cancel_left, hrest, Nat.add_assoc, Nat.add_comm 1]

/-- A place in a subtree comes behind the topmost node and the subtrees before. -/
theorem Tree.number_cons {t u : Tree} {k : Nat} {p : Tree.Place} (hu : t.children[k]? = some u)
    (hp : (u.at? p).isSome = true) :
    t.number (k :: p) = 1 + Forest.size (t.children.take k) + u.number p := by
  have hplace := Forest.getElem?_places_add (i := 0) hu (Tree.getElem?_number hp)
  apply Tree.number_of_getElem?
  rw [t.places_eq_cons, Nat.add_assoc, Nat.add_comm 1, List.getElem?_cons_succ, hplace,
    Nat.zero_add]

/-- **Intervals.** The nodes in the subtree at a place are those with the numbers that follow, as
many as the subtree has. -/
theorem Tree.isPrefix_iff_number {t s : Tree} {u v : Nat} {p q : Tree.Place}
    (hu : t.places[u]? = some p) (hv : t.places[v]? = some q) (hs : t.at? p = some s) :
    p <+: q ↔ u ≤ v ∧ v < u + s.size := by
  constructor
  · rintro ⟨r, rfl⟩
    have hr : r ∈ s.places := by
      have hq := Tree.isSome_at?_of_getElem? hv
      rw [Tree.at?_append, hs, Option.bind_some] at hq
      exact Tree.mem_places_iff.2 hq
    obtain ⟨w, hw⟩ := List.mem_iff_getElem?.1 hr
    have hlt := Tree.lt_size_of_getElem? hw
    obtain rfl := Tree.number_inj hv (Tree.getElem?_places_add hu hs hw)
    omega
  · rintro ⟨hle, hlt⟩
    have hw : v - u < s.places.length := by
      rw [s.length_places]
      omega
    have hplace := Tree.getElem?_places_add hu hs (List.getElem?_eq_getElem hw)
    rw [Nat.add_sub_cancel' hle, hv] at hplace
    exact ⟨_, (Option.some.inj hplace).symm⟩

end TreeDrawing
