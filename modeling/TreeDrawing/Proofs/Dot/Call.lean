import TreeDrawing.Proofs.Dot.Visit
import TreeDrawing.Proofs.Tree.Walk

/-!
# Calls on a drawing

`Drawing.visitor` is a computation that keeps a log and may fail. Here one call of it is described
as a function on drawings, `Drawing.step?`, together with what it reports, and a whole sequence of
calls as `Drawing.steps?`. The lemmas on `enter` and `leave?` say what either does to each part of
a drawing, so that nothing below needs to open them.
-/

namespace TreeDrawing.Dot

open Log

namespace Drawing

/-! ## The two steps -/

/-- What is written so far. -/
def body (d : Drawing) : String := Statement.texts d.statements

/-- The visit of a node that is entered next. -/
def next (d : Drawing) (n : Node) : Visit := ⟨d.openIds.head?, d.nodeCount, n⟩

section

variable (d : Drawing) (n : Node)

@[simp] theorem openIds_enter : (d.enter n).openIds = d.nodeCount :: d.openIds := rfl

@[simp] theorem nodeCount_enter : (d.enter n).nodeCount = d.nodeCount + 1 := rfl

@[simp] theorem statements_enter :
    (d.enter n).statements = d.statements ++ (d.next n).statements d.config := by
  rw [statements, enter, List.reverse_append, List.reverse_reverse, statements, Visit.statements,
    next]

end

/-- Leaving closes the innermost open node, and changes nothing else. -/
theorem leave?_eq_some_iff {d d' : Drawing} {id : Nat} :
    d.leave? = some (id, d') ↔
      d.openIds = id :: d'.openIds ∧ d'.config = d.config ∧ d'.nodeCount = d.nodeCount ∧
        d'.statements = d.statements := by
  rcases d with ⟨c, ids, count, newest⟩
  rcases d' with ⟨c', ids', count', newest'⟩
  cases ids with
  | nil => simp [leave?]
  | cons i ids =>
    simp only [leave?, Option.some.injEq, Prod.mk.injEq, mk.injEq, List.cons.injEq, statements,
      List.reverse_inj]
    constructor
    · rintro ⟨rfl, rfl, rfl, rfl, rfl⟩
      exact ⟨⟨rfl, rfl⟩, rfl, rfl, rfl⟩
    · rintro ⟨⟨rfl, rfl⟩, rfl, rfl, rfl⟩
      exact ⟨rfl, rfl, rfl, rfl, rfl⟩

/-! ## Calls -/

/-- One call: the report and the drawing it leads to, if it succeeds. -/
def step? (d : Drawing) : Event → Option (Entry × Drawing)
  | .enter n => some (entering d.nodeCount n, d.enter n)
  | .leave => d.leave?.map fun (id, d') ↦ (leaving id, d')

/-- A call that succeeds makes its report; one that fails changes nothing and reports nothing. -/
theorem run_tell (e : Event) (s : Logged Drawing) :
    (visitor.tell e).run s =
      match s.state.step? e with
      | none => .error .leave s
      | some (entry, d) => .ok () { state := d, newest := entry :: s.newest } := by
  cases e with
  | enter n => rfl
  | leave =>
    rcases s with ⟨⟨c, ids, count, newest⟩, log⟩
    cases ids <;> rfl

/-- Several calls, all of which have to succeed. -/
def steps? (d : Drawing) : List Event → Option (List Entry × Drawing)
  | [] => some ([], d)
  | e :: es =>
    match d.step? e with
    | none => none
    | some (entry, d) => (d.steps? es).map fun (entries, d) ↦ (entry :: entries, d)

theorem steps?_cons_of_step? {d d' : Drawing} {e : Event} {entry : Entry}
    (h : d.step? e = some (entry, d')) (es : List Event) :
    d.steps? (e :: es) = (d'.steps? es).map fun (entries, d) ↦ (entry :: entries, d) := by
  rw [steps?, h]

theorem steps?_append_of_steps? {d d' : Drawing} {es : List Event} {entries : List Entry}
    (h : d.steps? es = some (entries, d')) (fs : List Event) :
    d.steps? (es ++ fs) = (d'.steps? fs).map fun (further, d) ↦ (entries ++ further, d) := by
  induction es generalizing d entries with
  | nil =>
    simp only [steps?, Option.some.injEq, Prod.mk.injEq] at h
    obtain ⟨rfl, rfl⟩ := h
    simp
  | cons e es ih =>
    cases he : d.step? e with
    | none => simp [steps?, he] at h
    | some r =>
      obtain ⟨entry, d₁⟩ := r
      rw [steps?_cons_of_step? he, Option.map_eq_some_iff] at h
      obtain ⟨⟨entries₁, d₂⟩, h₁, h₂⟩ := h
      rw [Prod.mk.injEq] at h₂
      obtain ⟨rfl, rfl⟩ := h₂
      rw [List.cons_append, steps?_cons_of_step? he, ih h₁, Option.map_map]
      rfl

/-- Calls that all succeed lead where `steps?` says, and log what it says. -/
theorem run_tellAll {es : List Event} {entries : List Entry} {s : Logged Drawing} {d : Drawing}
    (h : s.state.steps? es = some (entries, d)) :
    (visitor.tellAll es).run s = .ok () { state := d, newest := entries.reverse ++ s.newest } := by
  induction es generalizing s entries with
  | nil =>
    simp only [steps?, Option.some.injEq, Prod.mk.injEq] at h
    obtain ⟨rfl, rfl⟩ := h
    rfl
  | cons e es ih =>
    cases he : s.state.step? e with
    | none => simp [steps?, he] at h
    | some r =>
      obtain ⟨entry, d₁⟩ := r
      rw [steps?_cons_of_step? he, Option.map_eq_some_iff] at h
      obtain ⟨⟨entries₁, d₂⟩, h₁, h₂⟩ := h
      rw [Prod.mk.injEq] at h₂
      obtain ⟨rfl, rfl⟩ := h₂
      have hrun := run_tell e s
      rw [he] at hrun
      rw [Visitor.tellAll_cons, EStateM.run_bind, hrun]
      simp only [ih (s := ⟨d₁, entry :: s.newest⟩) h₁, List.reverse_cons, List.append_assoc,
        List.singleton_append]

end Drawing

end TreeDrawing.Dot
