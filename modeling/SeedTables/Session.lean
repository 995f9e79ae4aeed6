import SeedTables.Run

namespace SeedTables

structure Session where
  config : Config
  source : Source
  tree : FileTree
  recorder : Recorder

inductive Session.Step where
  | plan
  | run
  | executed
  | clear
  | failOn (fragment : String)
  | execute (statement : Statement)
  | write (entries : List (String × Entry))
  | remove (path : String)

inductive Session.Answer where
  | planned (plan : Except Error Plan)
  /-- The report of a run, and whether the output directory is there afterwards. -/
  | ran (report : Except Error RunReport) (outputDirExists : Bool)
  | record (executed : List String)
  | failed (e : Error)
  | done

namespace Session

def step (s : Session) : Step → Session × Answer
  | .plan => (s, .planned (Plan.ofSource s.config s.tree s.source))
  | .run =>
    let result := SeedTables.run Recorder.execute s.config s.source s.tree s.recorder
    ({ s with tree := result.tree, recorder := result.executor },
      .ran result.report (result.tree.isDirectory s.config.outputDir))
  | .executed => (s, .record s.recorder.executed)
  | .clear =>
    let recorder := s.recorder.clear
    ({ s with recorder }, .record recorder.executed)
  | .failOn fragment => ({ s with recorder := s.recorder.failOn fragment }, .done)
  | .execute statement =>
    let (recorder, failure) := Recorder.execute s.recorder statement
    ({ s with recorder }, match failure with | some e => .failed e | none => .done)
  | .write entries =>
    ({ s with tree := entries.foldl (fun t e => t.place e.1 e.2) s.tree }, .done)
  | .remove path => ({ s with tree := s.tree.remove path }, .done)

def steps (s : Session) : List Step → Session × List Answer
  | [] => (s, [])
  | x :: xs =>
    let (s, answer) := s.step x
    let (s, answers) := steps s xs
    (s, answer :: answers)

end Session
end SeedTables
