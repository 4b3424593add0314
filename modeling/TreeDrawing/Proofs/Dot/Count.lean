import TreeDrawing.Proofs.Dot.Balanced
import TreeDrawing.Proofs.Dot.Descent
import TreeDrawing.Proofs.Tree.Pending

/-!
# Counting nodes and counting calls

The nodes of a tree are counted by taking pending trees apart, in an order of their own, and without
a visitor. A walk goes through them in pre-order, by a loop over a trail. The two numbers are the
same because either loop does what the structure of the tree prescribes: the one ends after as many
rounds as the tree has nodes, and the other tells of every node twice, once as it is entered and
once as it is left.
-/

namespace TreeDrawing

open Log Dot Dot.History

theorem Forest.size_eq_sum (f : Forest) : f.size = (f.map Tree.size).sum := by
  induction f with
  | nil => rfl
  | cons t rest ih => rw [Forest.size, ih, List.map_cons, List.sum_cons]

theorem Tree.size_eq (t : Tree) : t.size = 1 + (t.children.map Tree.size).sum := by
  cases t with
  | node n cs => rw [Tree.size, Forest.size_eq_sum, children_node]

/-- As many nodes are left as are entered. -/
theorem Tree.leaves_events (t : Tree) : leaves t.events = t.size := by
  have hbalanced := (Forest.balanced_events [t]).leaves_eq_enters
  rwa [Forest.events_singleton, t.enters_events] at hbalanced

/-- Either a walk ends and has made the calls of the tree, or a call fails and ends the walk. -/
theorem Tree.walk_ends_or_fails {ε σ : Type} (t : Tree) (v : Visitor (Logging ε σ)) (s : Logged σ) :
    (∃ s', (t.walk v).run s = .ok () s' ∧
      (t.walk v.noting).run (s.noted []) = .ok () (s'.noted t.events)) ∨
    ∃ e ∈ t.events, ∃ s₁ x s₂,
      (v.tell e).run s₁ = .error x s₂ ∧ (t.walk v).run s = .error x s₂ := by
  obtain ⟨s₁, hleads⟩ | ⟨before, e, after, s₁, x, s₂, ht, hleads, he⟩ := v.leads_or_fails t.events s
  · exact .inl ⟨_, Tree.run_walk_of_leads hleads, Tree.run_walk_of_leads (hleads.noting [])⟩
  · have hmem : e ∈ t.events := by
      rw [ht]
      exact List.mem_append_cons_self
    exact .inr ⟨e, hmem, s₁, x, s₂, he, Tree.run_walk_of_fails ht hleads he⟩

/-- **Counting.** The loop over pending trees ends after one round for every node, and counts what
the structure of the tree says. A walk makes as many calls to enter a node and as many to leave one,
whatever the visitor does, unless one of its calls fails and ends the walk; and a drawing, wherever
it stands, has counted as many nodes more after it. -/
theorem nodeCount_eq_calls (t : Tree) :
    t.nodeCount = t.size ∧
    t.size = 1 + (t.children.map Tree.size).sum ∧
    (∀ k, Forest.advance^[k] (Forest.addAll [t] []) = [] ↔ t.nodeCount ≤ k) ∧
    (∀ {ε σ : Type} (v : Visitor (Logging ε σ)) (s : Logged σ),
      (∃ (s' : Logged σ) (made : List Event), (t.walk v).run s = .ok () s' ∧
        (t.walk v.noting).run (s.noted []) = .ok () (s'.noted made) ∧
        enters made = t.nodeCount ∧ leaves made = t.nodeCount) ∨
      ∃ e ∈ t.events, ∃ (s₁ : Logged σ) (x : ε) (s₂ : Logged σ),
        (v.tell e).run s₁ = .error x s₂ ∧ (t.walk v).run s = .error x s₂) ∧
    ∀ s : Logged Drawing, ∃ s' : Logged Drawing, (t.walk Drawing.visitor).run s = .ok () s' ∧
      s'.state.nodeCount = s.state.nodeCount + t.nodeCount := by
  have hcount := t.nodeCount_eq_size
  have henters : enters t.events = t.nodeCount := by rw [t.enters_events, hcount]
  have hleaves : leaves t.events = t.nodeCount := by rw [t.leaves_events, hcount]
  have hpending : (Forest.addAll [t] []).size = t.nodeCount := by
    rw [Forest.size_addAll, hcount]
    simp [Forest.size]
  refine ⟨hcount, t.size_eq, fun k ↦ ?_, fun v s ↦ ?_, fun s ↦ ⟨_, t.run_walk s, ?_⟩⟩
  · rw [Forest.iterate_advance_eq_nil_iff, hpending]
  · obtain ⟨s', hrun, hnoting⟩ | hfails := t.walk_ends_or_fails v s
    · exact .inl ⟨s', t.events, hrun, hnoting, henters, hleaves⟩
    · exact .inr hfails
  · rw [Drawing.nodeCount_extend, t.length_visits, hcount]

end TreeDrawing
