import Outline.Drag

/-!
# Drag sessions

A session follows one drag gesture from pick-up to drop or cancellation and remembers every stage it
went through.
-/

namespace Outline

/-- Where a drop is in its course. -/
inductive Stage where
  | idle
  | classifying
  | rejected
  | computing
  | committing
  | committed
  | failed
  deriving DecidableEq, Inhabited

namespace Stage

/-- The name of a stage. -/
def text : Stage → String
  | .idle => "idle"
  | .classifying => "classifying"
  | .rejected => "rejected"
  | .computing => "computing"
  | .committing => "committing"
  | .committed => "committed"
  | .failed => "failed"

/-- The stage that a text names. -/
def ofText? : String → Option Stage
  | "idle" => some .idle
  | "classifying" => some .classifying
  | "rejected" => some .rejected
  | "computing" => some .computing
  | "committing" => some .committing
  | "committed" => some .committed
  | "failed" => some .failed
  | _ => none

@[simp] theorem ofText?_text (stage : Stage) : ofText? stage.text = some stage := by
  cases stage <;> rfl

/-- Whether a drop ends in the stage. -/
def isTerminal : Stage → Bool
  | .rejected | .committed | .failed => true
  | _ => false

end Stage

/-- One drag gesture: what is dragged, the stage it is in, and the stages gone through, latest
last. -/
structure Session where
  payload : Payload
  stage : Stage
  history : List Stage
  deriving DecidableEq, Inhabited

namespace Session

/-- A drag that has just begun. -/
def start (payload : Payload) : Session where
  payload := payload
  stage := .idle
  history := [.idle]

/-- The terminal stage reached last, if any. -/
def outcome? (session : Session) : Option Stage :=
  session.history.reverse.find? Stage.isTerminal

/-- The session in its next stage. -/
def enter (session : Session) (stage : Stage) : Session :=
  { session with stage, history := session.history ++ [stage] }

/-- The session idle again after ending in a stage. -/
def finish (session : Session) (terminal : Stage) : Session :=
  (session.enter terminal).enter .idle

/-- The session idle again without a drop. -/
def cancel (session : Session) : Session :=
  session.enter .idle

@[simp] theorem payload_enter (session : Session) (stage : Stage) :
    (session.enter stage).payload = session.payload := rfl

theorem getLast?_history_enter (session : Session) (stage : Stage) :
    (session.enter stage).history.getLast? = some (session.enter stage).stage := by
  simp [enter]

end Session

end Outline
