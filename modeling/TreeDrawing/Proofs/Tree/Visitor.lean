import Mathlib.Logic.Function.Iterate
import TreeDrawing.Proofs.Tree.Walk

/-!
# Visitors that may fail

Entering and leaving are whatever a visitor makes of them: they change its state, and either of them
may fail, which ends the walk. So it matters not only where a walk over a tree leads, but also which
calls it has made when it stops. This module compares the walk with the calls of the tree, made one
after the other.

## Counting rounds

The loop of a walk ends because its trail gets shorter, and `Trail.remaining` is the number of its
rounds: `Trail.iterate_advance_eq_nil_iff`.

## Making calls

`Visitor.Leads` says of calls that all of them succeed. `Visitor.leads_or_fails` is the only
alternative: there is a first call that fails. The visitor cannot be asked which calls were made,
since its state is unknown, so `Visitor.noting` writes down every call beside that state before the
call is made.
-/

namespace TreeDrawing

open Log

/-! ## The rounds of the loop -/

namespace Trail

/-- What one round of the loop leaves of a trail; at its end a trail stays as it is. -/
def advance (t : Trail) : Trail :=
  match t.next? with
  | none => t
  | some (_, up) => up

theorem remaining_eq_zero_iff {t : Trail} : t.remaining = 0 ↔ t = [] := by
  cases t with
  | nil => simp [remaining]
  | cons f up =>
    refine iff_of_false ?_ (List.cons_ne_nil f up)
    rw [remaining]
    omega

theorem next?_eq_none_iff {t : Trail} : t.next? = none ↔ t = [] := by
  match t with
  | [] => simp [next?]
  | [] :: up => simp [next?]
  | (.node n cs :: rest) :: up => simp [next?]

theorem remaining_advance (t : Trail) : t.advance.remaining = t.remaining - 1 := by
  unfold advance
  split
  · next h =>
    rw [next?_eq_none_iff] at h
    rw [h, remaining]
  · next e up h => rw [remaining_of_next? h, Nat.add_sub_cancel]

theorem remaining_iterate_advance (t : Trail) (k : Nat) :
    (advance^[k] t).remaining = t.remaining - k := by
  induction k with
  | zero => rfl
  | succ k ih => rw [Function.iterate_succ_apply', remaining_advance, ih, Nat.sub_sub]

/-- The loop is at the end of a trail after as many rounds as there are events on it, and not
before. -/
theorem iterate_advance_eq_nil_iff {t : Trail} {k : Nat} :
    advance^[k] t = [] ↔ t.remaining ≤ k := by
  rw [← remaining_eq_zero_iff, remaining_iterate_advance, Nat.sub_eq_zero_iff_le]

end Trail

theorem Tree.remaining_children (t : Tree) : Trail.remaining [t.children] = 2 * t.size - 1 := by
  cases t with
  | node n cs =>
    rw [Trail.remaining, Trail.remaining, children_node, Tree.size]
    omega

/-! ## Calls up to the first that fails -/

namespace Visitor

variable {ε σ : Type}

/-- From the first state all of the calls succeed, one after the other, and lead to the last. -/
inductive Leads (v : Visitor (Logging ε σ)) : Logged σ → List Event → Logged σ → Prop
  | nil (s : Logged σ) : Leads v s [] s
  | cons {s s₁ s₂ : Logged σ} {e : Event} {es : List Event} (he : (v.tell e).run s = .ok () s₁)
      (hes : Leads v s₁ es s₂) : Leads v s (e :: es) s₂

variable {v : Visitor (Logging ε σ)} {s s' s₁ s₂ : Logged σ} {e : Event} {es : List Event} {x : ε}

theorem Leads.run_tellAll_append (h : v.Leads s es s') (fs : List Event) :
    (v.tellAll (es ++ fs)).run s = (v.tellAll fs).run s' := by
  induction h with
  | nil s => rfl
  | cons he hes ih => rw [List.cons_append, tellAll_cons, EStateM.run_bind, he, ← ih]

theorem Leads.run_tellAll (h : v.Leads s es s') : (v.tellAll es).run s = .ok () s' := by
  have := h.run_tellAll_append []
  rwa [List.append_nil] at this

/-- The calls end with the first that fails, whatever would have come after it. -/
theorem Leads.run_tellAll_of_fails (h : v.Leads s es s₁) (he : (v.tell e).run s₁ = .error x s₂)
    (fs : List Event) : (v.tellAll (es ++ e :: fs)).run s = .error x s₂ := by
  rw [h.run_tellAll_append, tellAll_cons, EStateM.run_bind, he]

/-- Either all calls succeed, or there is a first that fails. -/
theorem leads_or_fails (v : Visitor (Logging ε σ)) (es : List Event) (s : Logged σ) :
    (∃ s', v.Leads s es s') ∨ ∃ before e after s₁ x s₂, es = before ++ e :: after ∧
      v.Leads s before s₁ ∧ (v.tell e).run s₁ = .error x s₂ := by
  induction es generalizing s with
  | nil => exact .inl ⟨s, .nil s⟩
  | cons e es ih =>
    cases he : (v.tell e).run s with
    | error x s₂ => exact .inr ⟨[], e, es, s, x, s₂, rfl, .nil s, he⟩
    | ok u s₁ =>
      obtain ⟨s', hs'⟩ | ⟨before, e', after, s₂, x, s₃, rfl, hbefore, he'⟩ := ih s₁
      · exact .inl ⟨s', .cons he hs'⟩
      · exact .inr ⟨e :: before, e', after, s₂, x, s₃, rfl, .cons he hbefore, he'⟩

end Visitor

/-! ## Noting the calls that are made -/

/-- Puts notes beside a state. -/
def Log.Logged.noted {σ : Type} (s : Logged σ) (made : List Event) : Logged (List Event × σ) where
  state := (made, s.state)
  newest := s.newest

namespace Visitor

variable {ε σ : Type}

/-- Makes a note of a call, and makes it. The note stays if the call fails. -/
def note (v : Visitor (Logging ε σ)) (e : Event) : Logging ε (List Event × σ) Unit := fun s ↦
  match (v.tell e).run { state := s.state.2, newest := s.newest } with
  | .ok _ s' => .ok () (s'.noted (s.state.1 ++ [e]))
  | .error x s' => .error x (s'.noted (s.state.1 ++ [e]))

/-- The visitor that does the same and makes a note of every call. -/
def noting (v : Visitor (Logging ε σ)) : Visitor (Logging ε (List Event × σ)) where
  enter n := v.note (.enter n)
  leave := v.note .leave

variable {v : Visitor (Logging ε σ)} {s s' s₁ s₂ : Logged σ} {e : Event} {es made : List Event}
  {x : ε}

theorem tell_noting (v : Visitor (Logging ε σ)) (e : Event) : v.noting.tell e = v.note e := by
  cases e <;> rfl

theorem run_note (v : Visitor (Logging ε σ)) (e : Event) (s : Logged σ) (made : List Event) :
    (v.note e).run (s.noted made) =
      match (v.tell e).run s with
      | .ok _ s' => .ok () (s'.noted (made ++ [e]))
      | .error x s' => .error x (s'.noted (made ++ [e])) := rfl

theorem run_noting_of_ok (h : (v.tell e).run s = .ok () s') (made : List Event) :
    (v.noting.tell e).run (s.noted made) = .ok () (s'.noted (made ++ [e])) := by
  rw [tell_noting, run_note, h]

theorem run_noting_of_error (h : (v.tell e).run s = .error x s') (made : List Event) :
    (v.noting.tell e).run (s.noted made) = .error x (s'.noted (made ++ [e])) := by
  rw [tell_noting, run_note, h]

theorem Leads.noting (h : v.Leads s es s') (made : List Event) :
    v.noting.Leads (s.noted made) es (s'.noted (made ++ es)) := by
  induction h generalizing made with
  | nil s =>
    rw [List.append_nil]
    exact .nil _
  | @cons s s₁ s₂ e es he hes ih =>
    have hrest := ih (made ++ [e])
    rw [List.append_assoc, List.singleton_append] at hrest
    exact .cons (run_noting_of_ok he made) hrest

end Visitor

/-! ## The walk -/

section

variable {ε σ : Type} {t : Tree} {v : Visitor (Logging ε σ)} {s s' s₁ s₂ : Logged σ} {x : ε}

theorem Tree.run_walk_of_leads (h : v.Leads s t.events s') :
    (t.walk v).run s = .ok () { s' with newest := .walkComplete :: s'.newest } := by
  rw [Tree.walk_eq_tellAll, EStateM.run_bind, h.run_tellAll]
  rfl

theorem Tree.run_walk_of_fails {before after : List Event} {e : Event}
    (ht : t.events = before ++ e :: after) (h : v.Leads s before s₁)
    (he : (v.tell e).run s₁ = .error x s₂) : (t.walk v).run s = .error x s₂ := by
  rw [Tree.walk_eq_tellAll, ht, EStateM.run_bind, h.run_tellAll_of_fails he]

end

/-- **The calls of a walk.** Whatever a visitor does and wherever it stands, the loop of a walk ends
after one round for every event behind the first, and the walk makes the calls of the tree in their
order: all of them, if they succeed, and then reports the end; or else those up to the first that
fails, in whose state it stops. -/
theorem walk_makes_calls {ε σ : Type} (t : Tree) (v : Visitor (Logging ε σ)) (s : Logged σ) :
    t.events = .enter t.root :: t.children.flatMap Tree.events ++ [.leave] ∧
    (∀ k, Trail.advance^[k] [t.children] = [] ↔ 2 * t.size - 1 ≤ k) ∧
    ((∃ s' s'' : Logged σ, v.Leads s t.events s' ∧
        s'' = { s' with newest := .walkComplete :: s'.newest } ∧
        (t.walk v).run s = .ok () s'' ∧
        (t.walk v.noting).run (s.noted []) = .ok () (s''.noted t.events)) ∨
      ∃ (before after : List Event) (e : Event) (s₁ s₂ : Logged σ) (x : ε),
        t.events = before ++ e :: after ∧ v.Leads s before s₁ ∧
        (v.tell e).run s₁ = .error x s₂ ∧
        (t.walk v).run s = .error x s₂ ∧
        (t.walk v.noting).run (s.noted []) = .error x (s₂.noted (before ++ [e]))) := by
  refine ⟨t.events_eq, fun k ↦ ?_, ?_⟩
  · rw [Trail.iterate_advance_eq_nil_iff, t.remaining_children]
  · obtain ⟨s', h⟩ | ⟨before, e, after, s₁, x, s₂, ht, h, he⟩ := v.leads_or_fails t.events s
    · have hnoting := h.noting []
      exact .inl ⟨s', _, h, rfl, Tree.run_walk_of_leads h, Tree.run_walk_of_leads hnoting⟩
    · have hnoting := h.noting []
      exact .inr ⟨before, after, e, s₁, s₂, x, ht, h, he, Tree.run_walk_of_fails ht h he,
        Tree.run_walk_of_fails ht hnoting (Visitor.run_noting_of_error he before)⟩

end TreeDrawing
