import ManagedDebugger.Server

/-!
The program: request lines on the standard input; answers and events as lines on the standard output.
It knows no network, so that every agent is out of reach.
-/

namespace ManagedDebugger

/-- Answers one line, and then tells the events. -/
def answerLine (line : String) : StateM (Server Unit) (List Json) := do
  let response ← Server.receive Network.offline line
  let events ← Server.takeEvents
  return response.toList.map Response.json ++ events.map SessionEvent.json

partial def serveStream (input output : IO.FS.Stream) (server : Server Unit) : IO Unit := do
  let line ← input.getLine
  if line.isEmpty then return
  let (answers, server) := (answerLine line).run server
  for answer in answers do
    output.putStrLn answer.text
  output.flush
  serveStream input output server

end ManagedDebugger

def main : IO Unit := do
  ManagedDebugger.serveStream (← IO.getStdin) (← IO.getStdout) (ManagedDebugger.Server.start ())
