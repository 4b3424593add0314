/-!
# Keeping a log

Some steps of the library report what they do. A report is an `Entry`, and a monad that can take
one has an instance of `MonadLog`. `Logging ε σ` is the monad used throughout: a computation over a
state `σ` that keeps a log beside it and may stop with an `ε`, without losing either.
-/

namespace TreeDrawing.Log

/-- How closely one has to look to see an entry. -/
inductive Level where
  | debug
  | trace
  deriving DecidableEq

/-- The name of a level. -/
def Level.name : Level → String
  | debug => "DEBUG"
  | trace => "TRACE"

/-- One report. -/
structure Entry where
  level : Level
  text : String
  deriving DecidableEq

/-- An entry as one line. -/
def Entry.line (e : Entry) : String := e.level.name ++ " " ++ e.text

/-- The monads in which reports can be made. -/
class MonadLog (m : Type → Type) where
  log : Entry → m Unit

export MonadLog (log)

/-- A state together with the log kept beside it. -/
structure Logged (σ : Type) where
  state : σ
  /-- The entries so far, newest first. -/
  newest : List Entry := []

/-- The entries so far, oldest first. -/
def Logged.entries {σ : Type} (s : Logged σ) : List Entry := s.newest.reverse

/-- Computations that keep a log. -/
abbrev Logging (ε σ : Type) := EStateM ε (Logged σ)

variable {ε σ : Type}

instance : MonadLog (Logging ε σ) where
  log e := modify fun s ↦ { s with newest := e :: s.newest }

/-- Changes the state beside the log. -/
def Logging.update (f : σ → σ) : Logging ε σ Unit :=
  modify fun s ↦ { s with state := f s.state }

/-- Runs a computation from a state and an empty log. What it leaves behind is there even if it
stopped. -/
def Logging.after {α : Type} (x : Logging ε σ α) (s : σ) : Logged σ :=
  match x.run { state := s } with
  | .ok _ s => s
  | .error _ s => s

end TreeDrawing.Log
