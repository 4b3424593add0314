import TreeDrawing.Proofs.Dot.History
import TreeDrawing.Proofs.Tree.Growth

/-!
# Balanced histories

A history is balanced if its leaves never run ahead of its enters, and at the end there are equally
many. What walks over trees tell is always balanced, and nothing else is: from a balanced history
the trees can be put together again, and there is only one way to do it. So calls made by hand, if
they are balanced, are a walk over trees in disguise, and a drawing cannot tell the difference.

Both parts of the definition are read off the growth of the trees: a growth fails exactly where the
leaves run ahead of the enters, and it has as many nodes open as there are more enters than leaves.
-/

namespace TreeDrawing

open Log Dot Dot.History

/-- Whether every leave finds a node to close, and no node is open at the end. -/
structure Dot.History.Balanced (h : History) : Prop where
  leaves_le_enters : ∀ p, p <+: h → leaves p ≤ enters p
  leaves_eq_enters : leaves h = enters h

theorem Dot.History.balanced_iff {h : History} :
    Balanced h ↔ excess h ≤ 0 ∧ leaves h = enters h := by
  rw [excess_le_iff]
  exact ⟨fun hb ↦ ⟨hb.leaves_le_enters, hb.leaves_eq_enters⟩, fun hb ↦ ⟨hb.1, hb.2⟩⟩

/-! ## Open nodes of a growth -/

namespace Growth

/-- Growing fails exactly if the leaves are in excess of the nodes that are open. -/
theorem isSome_run?_iff {g : Growth} {es : List Event} :
    (g.run? es).isSome = true ↔ excess es ≤ g.opened.length := by
  induction es generalizing g with
  | nil => simp [run?, excess]
  | cons e es ih =>
    rcases g with ⟨newest, opened⟩
    cases e with
    | enter n =>
      rw [run?_cons_of_step? rfl, ih, excess]
      exact Nat.sub_le_iff_le_add.symm
    | leave =>
      cases opened with
      | nil => simp [run?, step?, excess]
      | cons o up =>
        rw [run?_cons_of_step? rfl, ih, excess]
        exact Nat.add_le_add_iff_right.symm

/-- Every event that is told opens a node or closes one. -/
theorem length_opened_of_run? {g g' : Growth} {es : List Event} (h : g.run? es = some g') :
    g'.opened.length + leaves es = g.opened.length + enters es := by
  induction es generalizing g with
  | nil =>
    obtain rfl := Option.some.inj h
    rfl
  | cons e es ih =>
    rcases g with ⟨newest, opened⟩
    cases e with
    | enter n =>
      have := ih h
      simp only [List.length_cons, leaves_enter, enters_enter] at this ⊢
      omega
    | leave =>
      cases opened with
      | nil => simp [run?, step?] at h
      | cons o up =>
        have := ih h
        simp only [List.length_cons, leaves_leave, enters_leave] at this ⊢
        omega

end Growth

/-- Events tell of whole trees exactly if they are balanced. -/
theorem Forest.exists_ofEvents?_iff {es : List Event} :
    (∃ f, Forest.ofEvents? es = some f) ↔ Balanced es := by
  rw [balanced_iff]
  constructor
  · rintro ⟨f, hf⟩
    obtain ⟨g, hrun, hg⟩ := Option.bind_eq_some_iff.1 hf
    have hexcess := Growth.isSome_run?_iff.1 (Option.isSome_of_mem hrun)
    have hlength := Growth.length_opened_of_run? hrun
    have hopened : g.opened = [] := by
      by_contra hne
      rw [if_neg (by simpa using hne)] at hg
      exact Option.some_ne_none f hg.symm
    rw [hopened] at hlength
    simp only [List.length_nil, Nat.zero_add] at hlength
    exact ⟨hexcess, hlength⟩
  · rintro ⟨hexcess, hequal⟩
    obtain ⟨g, hrun⟩ := Option.isSome_iff_exists.1 (Growth.isSome_run?_iff (g := {}).2 hexcess)
    have hlength := Growth.length_opened_of_run? hrun
    rw [hequal, List.length_nil, Nat.add_right_cancel_iff, List.length_eq_zero_iff] at hlength
    refine ⟨g.newest.reverse, ?_⟩
    rw [ofEvents?, hrun, Option.bind_some, hlength]
    rfl

theorem Forest.exists_events_iff {es : List Event} :
    (∃ f, Forest.events f = es) ↔ Balanced es := by
  rw [← exists_ofEvents?_iff]
  exact exists_congr fun f ↦ ofEvents?_eq_some_iff.symm

theorem Forest.balanced_events (f : Forest) : Balanced (Forest.events f) :=
  exists_events_iff.1 ⟨f, rfl⟩

/-- Forests that tell the same are the same. -/
theorem Forest.events_injective : Function.Injective Forest.events := by
  intro f g h
  have hf := ofEvents?_events f
  rw [h, ofEvents?_events] at hf
  exact (Option.some.inj hf).symm

theorem Forest.events_singleton (t : Tree) : Forest.events [t] = t.events := by
  rw [events, events, List.append_nil]

/-! ## Single trees -/

/-- While a tree is being walked, its topmost node is open. -/
theorem Tree.leaves_lt_enters {t : Tree} {p : List Event} (hp : p <+: t.events) (hnil : p ≠ [])
    (hne : p ≠ t.events) : leaves p < enters p := by
  cases t with
  | node n cs =>
    rw [Tree.events, List.cons_append] at hp hne
    obtain rfl | ⟨q, rfl, hq⟩ := List.prefix_cons_iff.1 hp
    · exact absurd rfl hnil
    · obtain rfl | hq := List.prefix_concat_iff.1 hq
      · exact absurd rfl hne
      · have hle := (Forest.balanced_events cs).leaves_le_enters q hq
        rw [leaves_enter, enters_enter]
        exact Nat.lt_succ_of_le hle

/-- A forest is a single tree exactly if something is open at every moment in between. -/
theorem Forest.length_eq_one_iff {f : Forest} :
    f.length = 1 ↔ Forest.events f ≠ [] ∧
      ∀ p, p <+: Forest.events f → p ≠ [] → p ≠ Forest.events f → leaves p < enters p := by
  constructor
  · intro h
    obtain ⟨t, rfl⟩ := List.length_eq_one_iff.1 h
    rw [events_singleton]
    refine ⟨?_, fun p ↦ Tree.leaves_lt_enters⟩
    rw [t.events_eq]
    exact List.cons_ne_nil _ _
  · rintro ⟨hne, hp⟩
    cases f with
    | nil => exact absurd rfl hne
    | cons t rest =>
      -- Behind the first tree nothing is open, so this is the end.
      have hsettled := (balanced_events [t]).leaves_eq_enters
      have hprefix : Forest.events [t] <+: Forest.events (t :: rest) := by
        rw [events, events, events, List.append_nil]
        exact List.prefix_append _ _
      have hnil : Forest.events [t] ≠ [] := by
        rw [events_singleton, t.events_eq]
        exact List.cons_ne_nil _ _
      have hall : Forest.events [t] = Forest.events (t :: rest) := by
        by_contra hproper
        have := hp _ hprefix hnil hproper
        omega
      rw [← events_injective hall]
      rfl

/-! ## Drawings -/

/-- Walks over trees, one after the other. -/
def Forest.walk {m : Type → Type} [Monad m] [MonadLog m] (v : Visitor m) : Forest → m Unit
  | [] => pure ()
  | t :: rest => do
    t.walk v
    Forest.walk v rest

/-- Such walks add the visits of all the trees. -/
theorem Forest.run_walk (f : Forest) (s : Logged Drawing) :
    ∃ newest, (Forest.walk Drawing.visitor f).run s = .ok ()
      { state := s.state.extend (Forest.visits s.state.openIds.head? s.state.nodeCount f)
        newest } := by
  induction f generalizing s with
  | nil => exact ⟨s.newest, rfl⟩
  | cons t rest ih =>
    have hwalk := t.run_walk s
    obtain ⟨newest, hrest⟩ := ih
      { state := s.state.extend (t.visits s.state.openIds.head? s.state.nodeCount)
        newest := .walkComplete :: ((t.reports s.state.nodeCount).reverse ++ s.newest) }
    refine ⟨newest, ?_⟩
    rw [Forest.walk, EStateM.run_bind, hwalk]
    simp only [hrest, Drawing.extend_extend, Drawing.openIds_extend, Drawing.nodeCount_extend,
      Tree.length_visits]
    rfl

/-- **Balanced histories.** A history is what walks over trees record, one after the other, exactly
if it is balanced. The trees are then determined by it; there is one of them exactly if the history
is not empty and something is open at every moment before its end; and from any drawing, making the
calls by hand leads to the same drawing as walking the trees. In particular no two trees have the
same record. -/
theorem balanced_iff_recorded (es : History) :
    ((∃ f : Forest, f.flatMap Tree.recorded = es) ↔ Balanced es) ∧
    (∀ f g : Forest, f.flatMap Tree.recorded = es → g.flatMap Tree.recorded = es → f = g) ∧
    (∀ f : Forest, f.flatMap Tree.recorded = es →
      (f.length = 1 ↔
        es ≠ [] ∧ ∀ p, p <+: es → p ≠ [] → p ≠ es → leaves p < enters p)) ∧
    (∀ f : Forest, f.flatMap Tree.recorded = es → ∀ s : Logged Drawing, ∃ s₁ s₂ : Logged Drawing,
      (Drawing.visitor.tellAll es).run s = .ok () s₁ ∧
      (Forest.walk Drawing.visitor f).run s = .ok () s₂ ∧ s₁.state = s₂.state) ∧
    Function.Injective Tree.recorded := by
  simp only [Forest.flatMap_recorded]
  refine ⟨Forest.exists_events_iff, ?_, ?_, ?_, ?_⟩
  · rintro f g rfl hg
    exact Forest.events_injective hg.symm
  · rintro f rfl
    exact Forest.length_eq_one_iff
  · rintro f rfl s
    obtain ⟨newest, hwalks⟩ := Forest.run_walk f s
    exact ⟨_, _, Drawing.run_tellAll (Forest.steps?_events s.state f), hwalks, rfl⟩
  · intro t u htu
    rw [t.recorded_eq_events, u.recorded_eq_events, ← Forest.events_singleton,
      ← Forest.events_singleton] at htu
    exact List.singleton_inj.1 (Forest.events_injective htu)

end TreeDrawing
