import TreeDrawing.Dot.Drawing

/-!
# Sessions

A session drives one drawing by hand: it enters and leaves nodes, walks trees from wherever the
drawing stands, and looks at the result in between. Copies of the drawing can be put aside and taken
up again.
-/

namespace TreeDrawing.Dot

open Log

/-- One call of a session. -/
inductive Call where
  | enter (n : Node)
  | leave
  /-- Walks a whole tree. -/
  | walk (t : Tree)
  /-- Makes a document of whatever is there. -/
  | render
  /-- Finishes a copy of the drawing. -/
  | finish
  | config
  /-- Puts a copy of the drawing aside. -/
  | save
  /-- Takes up the copy put aside last. -/
  | restore

/-- What a call answers, besides its effect on the drawing. -/
inductive Reply where
  | done
  | document (text : String)
  | config (c : Config)
  | unbalanced (u : Unbalanced)
  | refused (e : Error)

/-- A drawing and the copies put aside, the newest first. -/
structure Session where
  drawing : Drawing
  saved : List Drawing := []

/-- The reply to a computation on a drawing. -/
private def Reply.of {ε α : Type} (failure : ε → Reply) (success : α → Reply) :
    EStateM.Result ε (Logged Drawing) α → Reply × Logged Drawing
  | .ok a s => (success a, s)
  | .error e s => (failure e, s)

/-- Makes a call of a session, with an empty log. There is no answer if a copy is to be taken up
and none is there. -/
def Session.call (s : Session) (c : Call) : Option (Reply × Logged Session) :=
  let start : Logged Drawing := { state := s.drawing }
  let onDrawing (r : Reply × Logged Drawing) : Option (Reply × Logged Session) :=
    some (r.1, { r.2 with state := { s with drawing := r.2.state } })
  let step (x : Logging Unbalanced Drawing Unit) : Option (Reply × Logged Session) :=
    onDrawing (Reply.of .unbalanced (fun _ ↦ .done) (x.run start))
  match c with
  | .enter n => step (Drawing.visitor.enter n)
  | .leave => step Drawing.visitor.leave
  | .walk t => step (t.walk Drawing.visitor)
  | .render => onDrawing (Reply.of .refused .document (Drawing.render.run start))
  | .finish => onDrawing (Reply.of .refused .document (Drawing.finish.run start))
  | .config => onDrawing (.config s.drawing.config, start)
  | .save => some (.done, { state := { s with saved := s.drawing :: s.saved } })
  | .restore =>
    match s.saved with
    | [] => none
    | d :: saved => some (.done, { state := { drawing := d, saved } })

end TreeDrawing.Dot
