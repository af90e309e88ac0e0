import ManagedDebugger.Json.Reader
import ManagedDebugger.Server.Response
import ManagedDebugger.Session.Machine
import ManagedDebugger.Text.Blank
import ManagedDebugger.Text.Utf8

/-!
The server: it answers the lines of a front end, one after the other, and holds the session that the
last launch or attach has opened. A line is answered before the next one is looked at. A request that
has to wait for a notification goes on when that comes.
-/

namespace ManagedDebugger

/-- How targets are reached: who answers at an endpoint, and what a connected target answers. -/
structure Network (τ : Type) where
  connect : Endpoint → τ → Bool × τ
  backend : Backend τ
  /-- The steps after which a run counts as endless. -/
  fuel : Nat

/-- Nobody answers anywhere. -/
def Network.offline : Network Unit where
  connect _ t := (false, t)
  backend := ⟨fun _ t => (.error .connectionClosed, [], t), true⟩
  fuel := 0

abbrev SessionMachine := Machine SessionState SessionEvent

/-- What a request works on. -/
inductive Place where
  /-- The current session, which is not kept if it is new and the request fails. -/
  | current (isNew : Bool)
  /-- A session that is not the current one any more. -/
  | left (session : SessionMachine)

/-- A request that has begun, and where it stands. -/
structure Ongoing where
  id : Json
  place : Place
  task : Task SessionState SessionEvent (Except EngineError Json)

/-- A session that was replaced, where it stands on the way to its end, and the request for which the
new one was opened. That waits for the end. -/
structure Closing where
  session : SessionMachine
  task : Task SessionState SessionEvent Unit
  id : Json
  work : SessionWork Json

structure Server (τ : Type) where
  target : τ
  session : Option SessionMachine
  /-- The request that waits for something to happen in its session. -/
  ongoing : Option Ongoing
  /-- The session that has to come to its end before a request begins. -/
  closing : Option Closing
  /-- The lines that have come since then. -/
  unread : List String
  /-- What the sessions told and the front end has not been told yet. -/
  events : List SessionEvent

namespace Server

variable {τ : Type}

abbrev Serving (τ : Type) := StateM (Server τ)

def start (target : τ) : Server τ := ⟨target, none, none, none, [], []⟩

/-- No request is under way. -/
def isIdle (s : Server τ) : Bool := s.ongoing.isNone && s.closing.isNone

def setSession (session : Option SessionMachine) : Serving τ Unit :=
  modify fun s => { s with session }

/-- Works on a session until nothing more can happen in it. -/
def run {α : Type} (net : Network τ) (m : SessionMachine)
    (request : Task SessionState SessionEvent α) :
    Serving τ (Task SessionState SessionEvent α × SessionMachine) := fun s =>
  let (request, m, target) := m.work net.backend (some Session.handle) net.fuel request s.target
  let (told, m) := m.takeEmitted
  ((request, m), { s with target, events := s.events ++ told })

/-- Puts a session back to where it was taken from. -/
def putBack (o : Ongoing) (m : SessionMachine) : Serving τ Unit :=
  match o.place with
  | .current _ => modify fun s => { s with session := some m, ongoing := some o }
  | .left _ => modify fun s => { s with ongoing := some { o with place := .left m } }

/-- Answers a request that has come to its end. -/
def finish (o : Ongoing) (m : SessionMachine) (result : Except EngineError Json) :
    Serving τ Response := do
  modify fun s => { s with ongoing := none }
  match o.place, result with
  | .current true, .error _ => setSession none
  | .current _, _ => setSession (some m)
  | .left _, _ => pure ()
  return ⟨o.id, result.mapError .engine⟩

/-- Goes on with a request in a session, and answers it if it comes to its end. -/
def proceed (net : Network τ) (o : Ongoing) (m : SessionMachine) :
    Serving τ (Option Response) := do
  let (task, m) ← run net m o.task
  match task.result? with
  | some result => some <$> finish o m result
  | none => do
    putBack { o with task } m
    return none

/-- Begins the request for which the current session was opened. -/
def beginWork (net : Network τ) (id : Json) (work : SessionWork Json) :
    Serving τ (Option Response) := do
  match (← get).session with
  | none => return none
  | some m => proceed net ⟨id, .current true, .ready work.run⟩ m

/-- Goes on with the end of a session that was replaced. The request begins when that is done. -/
def close (net : Network τ) (c : Closing) : Serving τ (Option Response) := do
  let (task, session) ← run net c.session c.task
  match task.result? with
  | some () => do
    modify fun s => { s with closing := none }
    beginWork net c.id c.work
  | none => do
    modify fun s => { s with closing := some { c with session, task } }
    return none

/-- Opens a session at an endpoint for its first request. It takes the place of the current session,
which leaves its process running and is closed before. -/
def connect (net : Network τ) (id : Json) (agent : Endpoint) (config : SessionConfig)
    (work : SessionWork Json) : Serving τ (Option Response) := do
  let s ← get
  let (reached, target) := net.connect agent s.target
  set { s with target }
  if !reached then return some ⟨id, .error (.unreachable agent)⟩
  setSession (some (.start (.start config)))
  match s.session with
  | none => beginWork net id work
  | some previous => close net ⟨previous, .ready (Session.disconnect false), id, work⟩

def disconnect (net : Network τ) (id : Json) (kill : Bool) : Serving τ (Option Response) := do
  match (← get).session with
  | none => return some ⟨id, .error .nothingToDisconnect⟩
  | some m => do
    setSession none
    let job := (fun _ => .ok doneJson) <$> Session.disconnect kill
    proceed net ⟨id, .left m, .ready job⟩ m

def perform (net : Network τ) (id : Json) : Request → Serving τ (Option Response)
  | .capabilities => return some ⟨id, .ok serverInfo⟩
  | .launch agent config request =>
    connect net id agent config (pidJson <$> Session.launch request)
  | .attach agent config pid =>
    connect net id agent config ((fun _ => pidJson pid) <$> Session.attach pid)
  | .disconnect kill => disconnect net id kill
  | .session request => do
    match (← get).session with
    | none => return some ⟨id, .error .noSession⟩
    | some m => proceed net ⟨id, .current false, .ready request.work.run⟩ m

/-- Does what a line asks for, and answers it if that comes to its end. The parameters are read before
anything is done. -/
def respond (net : Network τ) (line : String) : Serving τ (Option Response) :=
  match Json.parse? line with
  | none => return some ⟨.null, .error .notJson⟩
  | some j =>
    match Message.read? j with
    | none => return some ⟨.null, .error .notARequest⟩
    | some m =>
      match m.request with
      | .error refusal => return some ⟨m.id, .error refusal⟩
      | .ok request => perform net m.id request

/-- Takes a line in. Blank lines have no answer, and a line that comes while a request is under way
has to wait. -/
def receive (net : Network τ) (line : String) : Serving τ (Option Response) := do
  if !(← get).isIdle then
    modify fun s => { s with unread := s.unread ++ [line] }
    return none
  else if Text.allBlank line then return none
  else respond net (Text.trim line)

/-- The answers to a number of lines. -/
def serve (net : Network τ) (lines : List String) : Serving τ (List Response) := do
  return (← lines.mapM (receive net)).filterMap id

/-- Takes in the lines that had to wait. -/
def catchUp (net : Network τ) : Serving τ (List Response) := do
  let lines := (← get).unread
  modify fun s => { s with unread := [] }
  serve net lines

/-- After an answer, the lines are taken in that had to wait for it. -/
def answering (net : Network τ) (p : Serving τ (Option Response)) : Serving τ (List Response) := do
  match ← p with
  | none => return []
  | some response => return response :: (← catchUp net)

/-- Notifications of the target reach the newest session, as long as it is in use. They may bring a
request to its end. -/
def notify (net : Network τ) (events : List NativeEvent) : Serving τ (List Response) := do
  let s ← get
  match s.ongoing, s.session with
  | none, none => return []
  | none, some m => do
    let (_, m) ← run net (m.raise events) (.finished ())
    setSession (some m)
    return []
  | some o, session => do
    let m? := match o.place with
      | .current _ => session
      | .left m => some m
    match m? with
    | none => return []
    | some m => answering net (proceed net o (m.raise events))

/-- Notifications reach a session that was replaced as well, until it comes to its end. -/
def notifyReplaced (net : Network τ) (events : List NativeEvent) : Serving τ (List Response) := do
  match (← get).closing with
  | none => return []
  | some c => answering net (close net { c with session := c.session.raise events })

/-- Takes what the front end is to be told. -/
def takeEvents : Serving τ (List SessionEvent) := fun s =>
  (s.events, { s with events := [] })

end Server

/-- The lines of an input; reading ends before one that is not text. -/
def textLines (input : List UInt8) : List String :=
  let pieces := input.splitOn 0x0A
  let lines := if pieces.getLast? = some [] then pieces.dropLast else pieces
  let texts := lines.map fun line => (Text.decodeUtf8 line).toOption
  (texts.takeWhile Option.isSome).filterMap fun t => t.map String.ofList

end ManagedDebugger
