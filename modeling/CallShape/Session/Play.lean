import CallShape.Session.Command

set_option autoImplicit false

namespace CallShape.Session

open Trace (Record Filter)

/-- What a step brought: its answer, what was reported and the warnings that hooks took. -/
structure Report where
  answer : Except Failure Answer
  notices : List Notice
  warnings : List (TableChoice × Warning)

def warningsOf (state : State) (notices : List Notice) : List (TableChoice × Warning) :=
  notices.filterMap fun notice =>
    match notice with
    | .delivered id warning => some (state.choiceOf id, warning)
    | _ => none

def play : List Line → State → List Report
  | [], _ => []
  | line :: rest, state =>
      let outcome := line.command.perform line.keep state
      ⟨outcome.answer, outcome.notices, warningsOf outcome.state outcome.notices⟩ ::
        play rest outcome.state

structure Transcript where
  /-- What was reported before the first step. -/
  opening : List Notice
  reports : List Report

/-- A session starts with one table of the default configuration, or with none. -/
def run (withTable : Bool) (lines : List Line) : Transcript :=
  if withTable then
    let opening := (Command.openTable {}).perform none {}
    ⟨opening.notices, play lines opening.state⟩
  else ⟨[], play lines {}⟩

/-- What the log shows of a whole session. -/
def Transcript.log (transcript : Transcript) (filter : Filter) : List String :=
  filter.lines
    (Record.ofNotices (transcript.opening ++ transcript.reports.flatMap Report.notices))

end CallShape.Session
