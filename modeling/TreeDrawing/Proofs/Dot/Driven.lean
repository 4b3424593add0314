import TreeDrawing.Proofs.Dot.History

/-!
# Drawings driven by hand

What a history of calls leads to, when a call that fails is passed over. `Drawing.call` is one call
and `Drawing.calls` a history of them, both taken from the visitor itself: the drawing that is
there afterwards, whether the call has succeeded or not.

A drawing never forgets what it has written and never closes a node but the innermost. So the
state after a history can be read off the history.
-/

namespace TreeDrawing.Dot

open Log History

namespace Drawing

/-- Whether a call succeeds. -/
def accepts (d : Drawing) (e : Event) : Bool :=
  match (visitor.tell e).run { state := d } with
  | .ok _ _ => true
  | .error _ _ => false

/-- The drawing after a call, whether it succeeds or not. -/
def call (d : Drawing) (e : Event) : Drawing := (Logging.after (visitor.tell e) d).state

/-- The drawing after a history of calls. -/
def calls (d : Drawing) (h : History) : Drawing := h.foldl call d

/-- How many leaves of a history succeed. -/
def closed (d : Drawing) : History → Nat
  | [] => 0
  | .enter a :: h => (d.call (.enter a)).closed h
  | .leave :: h => (if d.accepts .leave then 1 else 0) + (d.call .leave).closed h

/-! ## One call -/

section

variable (d : Drawing) (a : Node)

theorem call_enter : d.call (.enter a) = d.enter a := rfl

theorem call_leave : d.call .leave = { d with openIds := d.openIds.tail } := by
  rcases d with ⟨c, ids, count, newest⟩
  cases ids <;> rfl

theorem accepts_enter : d.accepts (.enter a) = true := rfl

theorem accepts_leave : d.accepts .leave = !d.openIds.isEmpty := by
  rcases d with ⟨c, ids, count, newest⟩
  cases ids <;> rfl

theorem accepts_leave_eq_false_iff : d.accepts .leave = false ↔ d.depth = 0 := by
  rw [accepts_leave, Bool.not_eq_false', List.isEmpty_iff, depth, List.length_eq_zero_iff]

/-- A call that fails leaves the drawing as it is. -/
theorem call_of_accepts_eq_false {e : Event} (h : d.accepts e = false) : d.call e = d := by
  cases e with
  | enter a => simp [accepts_enter] at h
  | leave =>
    rw [accepts_leave_eq_false_iff, depth, List.length_eq_zero_iff] at h
    rw [call_leave, h, List.tail_nil, ← h]

end

/-! ## A history of calls -/

section

variable (d : Drawing) (h k : History)

theorem calls_append : d.calls (h ++ k) = (d.calls h).calls k := List.foldl_append

@[simp] theorem config_calls : (d.calls h).config = d.config := by
  induction h generalizing d with
  | nil => rfl
  | cons e h ih =>
    rw [calls, List.foldl_cons, ← calls, ih]
    cases e with
    | enter a => rfl
    | leave => rw [call_leave]

theorem nodeCount_calls : (d.calls h).nodeCount = d.nodeCount + enters h := by
  induction h generalizing d with
  | nil => rfl
  | cons e h ih =>
    rw [calls, List.foldl_cons, ← calls, ih]
    cases e with
    | enter a => rw [call_enter, nodeCount_enter, enters_enter, Nat.add_assoc, Nat.add_comm 1]
    | leave => rw [call_leave, enters_leave]

/-- A history closes as many of the nodes already open as it has leaves in excess, and puts its own
unclosed enters on top of the rest. -/
theorem openIds_calls :
    (d.calls h).openIds = (unclosed d.nodeCount h).reverse ++ d.openIds.drop (excess h) := by
  induction h generalizing d with
  | nil => rfl
  | cons e h ih =>
    rw [calls, List.foldl_cons, ← calls, ih]
    cases e with
    | enter a =>
      rw [call_enter, openIds_enter, nodeCount_enter, unclosed, excess]
      cases hx : excess h with
      | zero => simp [staysOpen_enter_iff.2 hx]
      | succ x =>
        have hopen : ¬staysOpen (.enter a :: h) = true := by
          rw [staysOpen_enter_iff, hx]
          exact Nat.succ_ne_zero x
        rw [if_neg hopen, List.drop_succ_cons, Nat.add_sub_cancel]
    | leave => rw [call_leave, unclosed, excess, List.drop_tail]

/-- Every node entered has been left by now or is still open. -/
theorem depth_calls_add_closed : (d.calls h).depth + d.closed h = d.depth + enters h := by
  induction h generalizing d with
  | nil => rfl
  | cons e h ih =>
    rw [calls, List.foldl_cons, ← calls]
    cases e with
    | enter a =>
      rw [closed, ih, call_enter, depth, openIds_enter, List.length_cons, enters_enter, depth]
      omega
    | leave =>
      have := ih (d.call .leave)
      rw [call_leave] at this
      rw [closed, call_leave, enters_leave, accepts_leave]
      cases hd : d.openIds with
      | nil => simp_all [depth]
      | cons id ids =>
        simp only [depth, hd, List.tail_cons, List.isEmpty_cons, Bool.not_false, if_true,
          List.length_cons] at this ⊢
        omega

end

/-! ## What is written -/

section

variable (c : Config) (past h : History)

/-- What is open after a history that begins with nothing open. -/
theorem openIds_calls_create :
    ((create c).state.calls h).openIds = (unclosed 0 h).reverse := by
  rw [openIds_calls]
  exact (congrArg _ List.drop_nil).trans (List.append_nil _)

theorem nodeCount_calls_create : ((create c).state.calls h).nodeCount = enters h := by
  rw [nodeCount_calls]
  exact Nat.zero_add _

theorem next_calls_create (a : Node) :
    ((create c).state.calls h).next a = ⟨(unclosed 0 h).getLast?, enters h, a⟩ := by
  rw [next, openIds_calls_create, nodeCount_calls_create, List.head?_reverse]

/-- A further history adds its visits, whatever has become of the earlier ones. -/
theorem statements_calls_append :
    ((create c).state.calls (past ++ h)).statements =
      ((create c).state.calls past).statements ++
        (visits past h).flatMap (Visit.statements c) := by
  induction h generalizing past with
  | nil => rw [List.append_nil, visits, List.flatMap_nil, List.append_nil]
  | cons e h ih =>
    have hsplit : past ++ e :: h = (past ++ [e]) ++ h := by
      rw [List.append_assoc, List.singleton_append]
    rw [hsplit, ih, calls_append, calls, List.foldl_cons, List.foldl_nil]
    cases e with
    | enter a =>
      rw [call_enter, statements_enter, next_calls_create, config_calls, visits,
        List.flatMap_cons, List.append_assoc]
      rfl
    | leave => rw [call_leave, visits, statements, statements]

theorem body_calls_append :
    ((create c).state.calls (past ++ h)).body =
      ((create c).state.calls past).body ++ String.join ((visits past h).map (Visit.text c)) := by
  rw [body, statements_calls_append, Statement.texts_append, Statement.texts_flatMap_visits, body]

theorem body_calls_create :
    ((create c).state.calls h).body = String.join ((visits [] h).map (Visit.text c)) := by
  have hnil : ((create c).state.calls []).body = "" := String.join_nil
  have := body_calls_append c [] h
  rwa [List.nil_append, hnil, String.empty_append] at this

end

end Drawing

/-! ## Edges -/

/-- Whether every edge comes from a node that is declared by then, to one with a greater number. -/
def Statement.EdgesFollow (declared : List Nat) : List Statement → Prop
  | [] => True
  | .node id _ _ :: ss => EdgesFollow (id :: declared) ss
  | .edge parent child :: ss =>
    parent < child ∧ parent ∈ declared ∧ EdgesFollow declared ss

/-- Every enter hangs from one before it, so its edge finds the node declared. -/
theorem edgesFollow_visits (c : Config) {past h : History} {declared : List Nat}
    (hd : ∀ id < enters past, id ∈ declared) :
    Statement.EdgesFollow declared ((visits past h).flatMap (Visit.statements c)) := by
  induction h generalizing past declared with
  | nil => exact trivial
  | cons e h ih =>
    have henters : enters (past ++ [e]) = enters past + enters [e] := List.countP_append
    cases e with
    | leave => exact ih fun id hid ↦ hd id (by simpa [henters] using hid)
    | enter a =>
      have hnext : ∀ id < enters (past ++ [.enter a]), id ∈ enters past :: declared := by
        intro id hid
        rw [henters, enters_enter, enters_nil] at hid
        rcases Nat.lt_succ_iff_lt_or_eq.1 hid with hid | rfl
        · exact List.mem_cons_of_mem _ (hd id hid)
        · exact List.mem_cons_self
      rw [visits, List.flatMap_cons, Visit.statements]
      cases hp : (unclosed 0 past).getLast? with
      | none => exact ih hnext
      | some parent =>
        have hlt : parent < enters past := by
          have := (mem_unclosed (List.mem_of_getLast? hp)).2
          rwa [Nat.zero_add] at this
        exact ⟨hlt, hd parent hlt, ih hnext⟩

/-! ## The whole state -/

/-- Finishing after a history makes the document if no enter stays open, and is refused with their
number otherwise. -/
theorem Drawing.run_finish_calls_create (c : Config) (h : History) (log : List Entry) :
    ∃ log', Drawing.finish.run ⟨(create c).state.calls h, log⟩ =
      if unclosed 0 h = [] then
        .ok (c.heading ++ ((create c).state.calls h).body ++ "\x7d")
          ⟨(create c).state.calls h, log'⟩
      else .error (.incomplete (unclosed 0 h).length) ⟨(create c).state.calls h, log'⟩ := by
  have hopen := openIds_calls_create c h
  by_cases hu : unclosed 0 h = []
  · rw [hu, List.reverse_nil] at hopen
    refine ⟨rendering ((create c).state.calls h).nodeCount :: log,
      (run_finish_of_openIds_eq_nil hopen).trans ?_⟩
    rw [if_pos hu, document_eq, config_calls]
    rfl
  · have hne : ((create c).state.calls h).openIds ≠ [] := by
      rwa [hopen, ne_eq, List.reverse_eq_nil_iff]
    refine ⟨log, (run_finish_of_openIds_ne_nil hne).trans ?_⟩
    rw [if_neg hu, depth, hopen, List.length_reverse]

/-- **Any order of calls.** After every history of calls on a new drawing: a call that fails has
changed nothing, entering never fails, and leaving fails exactly if every enter has been left; the
nodes are counted; the open nodes are the unclosed enters; the body is the lines of the enters in
order, and grows only at its end; every edge comes from an earlier node; and finishing gives the
document or the number of open nodes. -/
theorem driven_drawing (c : Config) (h : History) :
    let start := (Drawing.create c).state
    let d := start.calls h
    (∀ e : Event, d.accepts e = false → d.call e = d) ∧
    (∀ a : Node, d.accepts (.enter a) = true) ∧
    (d.accepts .leave = false ↔ start.closed h = enters h) ∧
    d.nodeCount = enters h ∧
    d.openIds.reverse = unclosed 0 h ∧
    d.openIds.reverse.Pairwise (· < ·) ∧
    (∀ id ∈ d.openIds, id < d.nodeCount) ∧
    d.openIds.length = d.depth ∧
    d.body = String.join ((visits [] h).map (Visit.text c)) ∧
    (∀ k : History, ∃ more, (start.calls (h ++ k)).body = d.body ++ more) ∧
    Statement.EdgesFollow [] d.statements ∧
    ∀ log, ∃ log', Drawing.finish.run ⟨d, log⟩ =
      if unclosed 0 h = [] then .ok (c.heading ++ d.body ++ "\x7d") ⟨d, log'⟩
      else .error (.incomplete (unclosed 0 h).length) ⟨d, log'⟩ := by
  intro start d
  have hopen : d.openIds.reverse = unclosed 0 h := by
    rw [Drawing.openIds_calls_create, List.reverse_reverse]
  have hcount : d.nodeCount = enters h := Drawing.nodeCount_calls_create c h
  refine ⟨fun e ↦ d.call_of_accepts_eq_false, d.accepts_enter, ?_, hcount, hopen, ?_, ?_, rfl,
    Drawing.body_calls_create c h, fun k ↦ ⟨_, Drawing.body_calls_append c h k⟩, ?_,
    Drawing.run_finish_calls_create c h⟩
  · have : d.depth + start.closed h = 0 + enters h := start.depth_calls_add_closed h
    rw [Drawing.accepts_leave_eq_false_iff]
    omega
  · rw [hopen]
    exact pairwise_unclosed 0 h
  · intro id hid
    rw [← List.mem_reverse, hopen] at hid
    have := (mem_unclosed hid).2
    omega
  · have hstatements := Drawing.statements_calls_append c [] h
    rw [List.nil_append] at hstatements
    rw [hstatements]
    exact edgesFollow_visits c fun id hid ↦ absurd hid (Nat.not_lt_zero id)

end TreeDrawing.Dot
