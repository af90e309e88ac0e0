import ManagedDebugger.Proofs.Trace
import ManagedDebugger.Proofs.Wire.EventPackets
import ManagedDebugger.Proofs.Wire.Framing
import ManagedDebugger.Wire.EventLoop

/-!
# Who gets which reply

Commands are queued and written, bytes are read, packets are looked at, and the stream ends, all in
any order. The loop keeps the ids of the commands that were written and have no reply yet, and
nothing else decides to whom a reply goes. As long as no two commands have the same id, each of them
is told one thing at most: the first reply with its id that the loop finds after it was written, that
it could not be written, or that the loop has ended.
-/

namespace ManagedDebugger.Wire

/-- What the sender of a command is told: code and payload of the reply, or why there is none. -/
abbrev Verdict := Except NativeError (UInt16 × Bytes)

/-- The end of the wait for the reply to an id. -/
def Delivery.verdict? (id : UInt32) : Delivery → Option Verdict
  | .reply n code payload => if n = id then some (.ok (code, payload)) else none
  | .lost n => if n = id then some (.error .connectionClosed) else none
  | .notified _ => none

/-- What can happen between an agent and those who talk to it, with what the loop makes of it. -/
inductive Happening where
  | submitted (command : Packet) (admission : Admission)
  /-- The oldest command was to be written. -/
  | written (command : Packet) (result : Except NativeError Packet)
  | read (bytes : Bytes)
  /-- The reader has come to the end of the stream. -/
  | stopped
  | taken (p : Packet) (deliveries : List Delivery)
  /-- The end of the loop. -/
  | ended (deliveries : List Delivery)

namespace Happening

def submittedId? : Happening → Option UInt32
  | submitted command _ => some command.id
  | written .. | read _ | stopped | taken .. | ended _ => none

def queued? : Happening → Option Packet
  | submitted command .queued => some command
  | submitted .. | written .. | read _ | stopped | taken .. | ended _ => none

def written? : Happening → Option Packet
  | written command _ => some command
  | submitted .. | read _ | stopped | taken .. | ended _ => none

def taken? : Happening → Option Packet
  | taken p _ => some p
  | submitted .. | written .. | read _ | stopped | ended _ => none

def bytes : Happening → Bytes
  | read bs => bs
  | submitted .. | written .. | stopped | taken .. | ended _ => []

def deliveries : Happening → List Delivery
  | taken _ ds | ended ds => ds
  | submitted .. | written .. | read _ | stopped => []

def isEnd : Happening → Bool
  | ended _ => true
  | submitted .. | written .. | read _ | stopped | taken .. => false

/-- What the sender of the command of an id is told. -/
def told (id : UInt32) : Happening → List Verdict
  | submitted command .closed => if command.id = id then [.error .connectionClosed] else []
  | written command (.error e) => if command.id = id then [.error e] else []
  | taken _ ds | ended ds => ds.filterMap (Delivery.verdict? id)
  | submitted .. | written .. | read _ | stopped => []

/-- What there is to tell the sender of a command that waits for its reply. -/
def settles? (id : UInt32) : Happening → Option Verdict
  | taken ⟨n, .reply code, payload⟩ _ => if n = id then some (.ok (code, payload)) else none
  | ended _ => some (.error .connectionClosed)
  | submitted .. | written .. | read _ | stopped | taken .. => none

end Happening

/-- What the sender of a command in the queue is told, given what happens after that: that it could
not be written, or else the first reply to it behind that, or that the loop has ended. -/
def result? (id : UInt32) : List Happening → Option Verdict
  | [] => none
  | .written command result :: after =>
    if command.id = id then match result with
      | .ok _ => after.findSome? (Happening.settles? id)
      | .error e => some (.error e)
    else result? id after
  | .ended _ :: _ => some (.error .connectionClosed)
  | .submitted .. :: after | .read _ :: after | .stopped :: after | .taken .. :: after =>
    result? id after

/-- What the sender of a command is told. Nobody waits to be told that a command finds no room. -/
def verdict? (id : UInt32) (admission : Admission) (after : List Happening) : Option Verdict :=
  match admission with
  | .queued => result? id after
  | .full => none
  | .closed => some (.error .connectionClosed)

theorem result?_eq_error {id : UInt32} {hs : List Happening} {e : NativeError}
    (failed : result? id hs = some (.error e)) :
    e = .connectionClosed ∨ ∃ command, command.id = id ∧ .written command (.error e) ∈ hs := by
  have lost {after : List Happening}
      (found : after.findSome? (Happening.settles? id) = some (.error e)) :
      e = .connectionClosed := by
    obtain ⟨h, -, settles⟩ := List.exists_of_findSome?_eq_some found
    unfold Happening.settles? at settles
    split at settles
    · split at settles
      · cases settles
      · cases settles
    · cases settles
      rfl
    all_goals cases settles
  induction hs with
  | nil => cases failed
  | cons h hs inductionHypothesis =>
      have later (failed : result? id hs = some (.error e)) : e = .connectionClosed ∨
          ∃ command, command.id = id ∧ .written command (.error e) ∈ h :: hs := by
        rcases inductionHypothesis failed with closed | ⟨command, same, among⟩
        · exact Or.inl closed
        · exact Or.inr ⟨command, same, List.mem_cons_of_mem h among⟩
      cases h with
      | written command result =>
          by_cases here : command.id = id
          · cases result with
            | ok p => exact Or.inl (lost (by simpa [result?, here] using failed))
            | error e' =>
                obtain rfl : e' = e := by simpa [result?, here] using failed
                exact Or.inr ⟨command, here, List.mem_cons_self⟩
          · cases result with
            | ok p => exact later (by simpa [result?, here] using failed)
            | error e' => exact later (by simpa [result?, here] using failed)
      | ended ds =>
          cases failed
          exact Or.inl rfl
      | _ => exact later failed

/-! ## How far a command has come -/

inductive Stage where
  | unsent | queued | awaiting
  | settled (verdict : Verdict)

namespace Stage

def next (id : UInt32) : Stage → Happening → Stage
  | unsent, .submitted command .queued => if command.id = id then queued else unsent
  | unsent, .submitted command .closed =>
    if command.id = id then settled (.error .connectionClosed) else unsent
  | queued, .written command result =>
    if command.id = id then match result with
      | .ok _ => awaiting
      | .error e => settled (.error e)
    else queued
  | queued, .ended _ => settled (.error .connectionClosed)
  | awaiting, h => match h.settles? id with
    | some verdict => settled verdict
    | none => awaiting
  | stage, _ => stage

def verdict? : Stage → Option Verdict
  | settled verdict => some verdict
  | unsent | queued | awaiting => none

variable {id : UInt32} {trace hs : List Happening} {v : Verdict}

/-- Nobody is told two things. -/
theorem foldl_settled : hs.foldl (next id) (settled v) = settled v := by
  induction hs with
  | nil => rfl
  | cons h hs inductionHypothesis => exact inductionHypothesis

theorem foldl_awaiting :
    (hs.foldl (next id) awaiting).verdict? = hs.findSome? (Happening.settles? id) := by
  induction hs with
  | nil => rfl
  | cons h hs inductionHypothesis =>
      rw [List.foldl_cons, List.findSome?_cons, next]
      cases h.settles? id with
      | none => exact inductionHypothesis
      | some v => simp [foldl_settled, verdict?]

theorem foldl_queued : (hs.foldl (next id) queued).verdict? = result? id hs := by
  induction hs with
  | nil => rfl
  | cons h hs inductionHypothesis =>
      cases h with
      | written command result =>
          rw [List.foldl_cons]
          by_cases here : command.id = id
          · cases result with
            | ok p => simp [next, result?, here, foldl_awaiting]
            | error e => simp [next, result?, here, foldl_settled, verdict?]
          · simp [next, result?, here, inductionHypothesis]
      | ended ds => simp [next, result?, foldl_settled, verdict?]
      | _ => exact inductionHypothesis

theorem foldl_unsent (absent : id ∉ hs.filterMap Happening.submittedId?) :
    hs.foldl (next id) unsent = unsent := by
  induction hs with
  | nil => rfl
  | cons h hs inductionHypothesis =>
      rw [List.foldl_cons]
      have same : unsent.next id h = unsent := by
        cases h with
        | submitted command admission =>
            have other : command.id ≠ id := by
              rintro rfl
              simp [Happening.submittedId?] at absent
            cases admission <;> simp [next, other]
        | _ => rfl
      rw [same]
      apply inductionHypothesis
      intro later
      apply absent
      simp only [List.mem_filterMap, List.mem_cons] at later ⊢
      obtain ⟨h', isThere, named⟩ := later
      exact ⟨h', Or.inr isThere, named⟩

/-- Where a command is after all that has happened. -/
def after (id : UInt32) (trace : List Happening) : Stage := trace.foldl (next id) unsent

theorem after_concat (id : UInt32) (trace : List Happening) (h : Happening) :
    after id (trace ++ [h]) = (after id trace).next id h := by
  simp [after]

theorem after_of_absent (absent : id ∉ trace.filterMap Happening.submittedId?) :
    after id trace = unsent :=
  foldl_unsent absent

/-- What a command comes to is what happens behind the place where it was submitted. -/
theorem verdict?_after {before hs : List Happening} {command : Packet} {admission : Admission}
    (distinct : (trace.filterMap Happening.submittedId?).Nodup)
    (split : trace = before ++ .submitted command admission :: hs) :
    (after command.id trace).verdict? = Wire.verdict? command.id admission hs := by
  subst split
  rw [List.filterMap_append, List.nodup_append] at distinct
  obtain ⟨-, later, apart⟩ := distinct
  have submitted : Happening.submittedId? (.submitted command admission) = some command.id := rfl
  rw [List.filterMap_cons_some submitted] at later apart
  have before_unsent : before.foldl (next command.id) unsent = unsent := by
    apply foldl_unsent
    intro earlier
    exact apart _ earlier _ List.mem_cons_self rfl
  rw [after, List.foldl_append, before_unsent, List.foldl_cons]
  cases admission with
  | queued => simpa [next, Wire.verdict?] using foldl_queued
  | full =>
      have unsent_after := foldl_unsent (List.nodup_cons.mp later).1
      simp [next, Wire.verdict?, unsent_after, verdict?]
  | closed => simp [next, Wire.verdict?, foldl_settled, verdict?]

end Stage

/-! ## One step -/

namespace Connection

theorem verdict?_lost (id : UInt32) {ids : List UInt32} (nodup : ids.Nodup) :
    (ids.map Delivery.lost).filterMap (Delivery.verdict? id) =
      if id ∈ ids then [.error .connectionClosed] else [] := by
  induction ids with
  | nil => rfl
  | cons n ids inductionHypothesis =>
      obtain ⟨fresh, nodup⟩ := List.nodup_cons.mp nodup
      rw [List.map_cons, List.filterMap_cons, inductionHypothesis nodup]
      by_cases here : n = id
      · subst here
        simp [Delivery.verdict?, fresh]
      · simp [Delivery.verdict?, here, Ne.symm here]

/-- A packet ends the wait for the reply with its id, and no other. -/
theorem accept_eq (c : Connection) (p : Packet) (ds : List Delivery) (id : UInt32) :
    (c.accept p).1.isOpen = c.isOpen ∧ (c.accept p).1.buffer = c.buffer ∧
      (c.accept p).1.pending.Sublist c.pending ∧
      (id ∈ (c.accept p).1.pending ↔
        id ∈ c.pending ∧ (Happening.taken p ds).settles? id = none) ∧
      (c.accept p).2.filterMap (Delivery.verdict? id) =
        if id ∈ c.pending then ((Happening.taken p ds).settles? id).toList else [] := by
  obtain ⟨n, kind, payload⟩ := p
  cases kind with
  | reply code =>
      by_cases awaited : n ∈ c.pending
      · simp only [accept, List.contains_iff_mem, if_pos awaited, List.mem_filter, bne_iff_ne,
          Happening.settles?]
        refine ⟨trivial, trivial, List.filter_sublist, ?_, ?_⟩
        · by_cases same : n = id
          · simp [same]
          · simp [same, Ne.symm same]
        · by_cases same : n = id
          · subst same
            simp [Delivery.verdict?, awaited]
          · simp [Delivery.verdict?, same]
      · simp only [accept, List.contains_iff_mem, if_neg awaited, Happening.settles?]
        refine ⟨trivial, trivial, List.Sublist.refl _, ?_, ?_⟩
        · by_cases same : n = id
          · subst same
            simp [awaited]
          · simp [same]
        · by_cases same : n = id
          · subst same
            simp [awaited]
          · simp [same]
  | command set number =>
      -- An event packet is passed on, and all else is dropped.
      have quiet : (c.accept ⟨n, .command set number, payload⟩).1 = c ∧
          (c.accept ⟨n, .command set number, payload⟩).2.filterMap (Delivery.verdict? id) = [] := by
        unfold accept
        split
        · cases ‹_ = PacketKind.reply _›
        · split <;> exact ⟨rfl, rfl⟩
        · exact ⟨rfl, rfl⟩
      obtain ⟨kept, silent⟩ := quiet
      simp [kept, silent, Happening.settles?]

end Connection

namespace EventLoop

variable {l l' : EventLoop} {h : Happening} {trace : List Happening} {id : UInt32}

theorem write?_eq_some_iff {takes : Bool} {command : Packet} {result : Except NativeError Packet} :
    l.write? takes = some (command, result, l') ↔
      ∃ others, l.commands = command :: others ∧ (l.connection.post command takes).2 = result ∧
        l' = { l with connection := (l.connection.post command takes).1, commands := others } := by
  unfold write?
  cases l.commands with
  | nil => simp
  | cons first others =>
      simp only [Option.some.injEq, Prod.mk.injEq, List.cons.injEq]
      constructor
      · rintro ⟨rfl, rfl, rfl⟩
        exact ⟨others, ⟨rfl, rfl⟩, rfl, rfl⟩
      · rintro ⟨_, ⟨rfl, rfl⟩, rfl, rfl⟩
        exact ⟨rfl, rfl, rfl⟩

theorem take?_eq_some_iff {p : Packet} {ds : List Delivery} :
    l.take? = some (p, ds, l') ↔
      ∃ others, l.packets = p :: others ∧ (l.connection.accept p).2 = ds ∧
        l' = { l with connection := (l.connection.accept p).1, packets := others } := by
  unfold take?
  cases l.packets with
  | nil => simp
  | cons first others =>
      simp only [Option.some.injEq, Prod.mk.injEq, List.cons.injEq]
      constructor
      · rintro ⟨rfl, rfl, rfl⟩
        exact ⟨others, ⟨rfl, rfl⟩, rfl, rfl⟩
      · rintro ⟨_, ⟨rfl, rfl⟩, rfl, rfl⟩
        exact ⟨rfl, rfl, rfl⟩

/-- What can happen at any time, in whatever order. The loop ends when all packets that were read
have been looked at and no more can come. -/
inductive Happens : EventLoop → Happening → EventLoop → Prop where
  | submitted (l : EventLoop) (command : Packet) :
      Happens l (.submitted command (l.submit command).2) (l.submit command).1
  | written {l l' : EventLoop} {command : Packet} {result : Except NativeError Packet}
      (isOpen : l.connection.isOpen = true) (takes : Bool)
      (wrote : l.write? takes = some (command, result, l')) :
      Happens l (.written command result) l'
  | read {l : EventLoop} (isReading : l.isReading = true) (bytes : Bytes) :
      Happens l (.read bytes) (l.read bytes)
  | stopped {l : EventLoop} (isReading : l.isReading = true) : Happens l .stopped l.stop
  | taken {l l' : EventLoop} {p : Packet} {ds : List Delivery}
      (isOpen : l.connection.isOpen = true) (took : l.take? = some (p, ds, l')) :
      Happens l (.taken p ds) l'
  | ended {l : EventLoop} (isOpen : l.connection.isOpen = true) (drained : l.packets = [])
      (silent : l.isReading = false) : Happens l (.ended l.finish.2) l.finish.1

/-- One thing after another, from a loop that was started just now. -/
inductive Runs : List Happening → EventLoop → Prop where
  | start : Runs [] .start
  /-- An id is handed out for a command. -/
  | numbered {trace : List Happening} {l : EventLoop} (runs : Runs trace l) (n : UInt32) :
      Runs trace { l with connection.nextId := n }
  | next {trace : List Happening} {h : Happening} {l l' : EventLoop} :
      Runs trace l → l.Happens h l' → Runs (trace ++ [h]) l'

/-- The queue and the ids that are waited for show how far the command of an id has come. -/
def Shows (l : EventLoop) (id : UInt32) (stage : Stage) : Prop :=
  (id ∈ l.commands.map (·.id) ↔ stage = .queued) ∧ (id ∈ l.connection.pending ↔ stage = .awaiting)

/-- No two commands have the same id. -/
def Distinct (l : EventLoop) : Prop :=
  (l.commands.map (·.id)).Nodup ∧ l.connection.pending.Nodup

/-- What a step makes of the command of an id. -/
def Proceeds (h : Happening) (l' : EventLoop) (id : UInt32) (stage : Stage) : Prop :=
  l'.Shows id (stage.next id h) ∧
    stage.verdict?.toList ++ h.told id = (stage.next id h).verdict?.toList

/-- Nothing that changes nobody's place matters to anybody. -/
theorem Shows.proceeds_same {stage : Stage} (shown : l.Shows id stage)
    (commands : l'.commands = l.commands)
    (pending : l'.connection.pending = l.connection.pending) (same : stage.next id h = stage)
    (silent : h.told id = []) : Proceeds h l' id stage := by
  constructor
  · rw [Shows, commands, pending, same]
    exact shown
  · rw [silent, same, List.append_nil]

theorem proceeds_submit {stage : Stage} (command : Packet) (shown : l.Shows id stage)
    (new : command.id = id → stage = .unsent) :
    Proceeds (.submitted command (l.submit command).2) (l.submit command).1 id stage := by
  by_cases here : command.id = id
  · obtain rfl := new here
    obtain ⟨queued, pending⟩ := shown
    unfold submit
    split
    · simp_all [Proceeds, Shows, Stage.next, Stage.verdict?, Happening.told]
    · split
      · simp_all [Proceeds, Shows, Stage.next, Stage.verdict?, Happening.told]
      · simp_all [Proceeds, Shows, Stage.next, Stage.verdict?, Happening.told]
  · have same (admission : Admission) : stage.next id (.submitted command admission) = stage := by
      cases stage <;> cases admission <;> simp [Stage.next, here, Happening.settles?]
    have silent (admission : Admission) : (Happening.submitted command admission).told id = [] := by
      cases admission <;> simp [Happening.told, here]
    unfold submit
    split
    · exact shown.proceeds_same rfl rfl (same _) (silent _)
    · split
      · constructor
        · rw [same]
          simpa [Shows, Ne.symm here] using shown
        · rw [same, silent, List.append_nil]
      · exact shown.proceeds_same rfl rfl (same _) (silent _)

theorem proceeds_write {stage : Stage} {takes : Bool} {command : Packet}
    {result : Except NativeError Packet} (distinct : l.Distinct)
    (isOpen : l.connection.isOpen = true) (wrote : l.write? takes = some (command, result, l'))
    (shown : l.Shows id stage) : Proceeds (.written command result) l' id stage := by
  obtain ⟨others, oldest, rfl, rfl⟩ := write?_eq_some_iff.mp wrote
  obtain ⟨unique, -⟩ := distinct
  obtain ⟨queued, pending⟩ := shown
  rw [oldest, List.map_cons, List.nodup_cons] at unique
  rw [oldest, List.map_cons, List.mem_cons] at queued
  by_cases here : command.id = id
  · subst here
    obtain rfl : stage = .queued := queued.mp (Or.inl rfl)
    cases takes with
    | true => simp_all [Proceeds, Shows, Connection.post, Stage.next, Stage.verdict?, Happening.told]
    | false => simp_all [Proceeds, Shows, Connection.post, Stage.next, Stage.verdict?, Happening.told]
  · have same (result : Except NativeError Packet) :
        stage.next id (.written command result) = stage := by
      cases stage <;> simp [Stage.next, here, Happening.settles?]
    have silent (result : Except NativeError Packet) :
        (Happening.written command result).told id = [] := by
      cases result <;> simp [Happening.told, here]
    constructor
    · rw [same]
      cases takes <;> simp_all [Shows, Connection.post, Ne.symm here]
    · rw [same, silent, List.append_nil]

theorem proceeds_take {stage : Stage} {p : Packet} {ds : List Delivery}
    (took : l.take? = some (p, ds, l')) (shown : l.Shows id stage) :
    Proceeds (.taken p ds) l' id stage := by
  obtain ⟨others, oldest, rfl, rfl⟩ := take?_eq_some_iff.mp took
  obtain ⟨-, -, -, pending, told⟩ := l.connection.accept_eq p (l.connection.accept p).2 id
  obtain ⟨queued, awaiting⟩ := shown
  have tells : (Happening.taken p (l.connection.accept p).2).told id =
      (l.connection.accept p).2.filterMap (Delivery.verdict? id) := rfl
  simp only [Proceeds, Shows, pending, tells, told, queued, awaiting]
  cases stage with
  | awaiting =>
      cases settles : (Happening.taken p (l.connection.accept p).2).settles? id with
      | none => simp_all [Stage.next, Stage.verdict?]
      | some v => simp_all [Stage.next, Stage.verdict?]
  | unsent => simp_all [Stage.next]
  | queued => simp_all [Stage.next]
  | settled v => simp_all [Stage.next]

theorem proceeds_finish {stage : Stage} (distinct : l.Distinct) (shown : l.Shows id stage) :
    Proceeds (.ended l.finish.2) l.finish.1 id stage := by
  obtain ⟨queued, awaiting⟩ := shown
  have tells : (Happening.ended l.finish.2).told id =
      (if id ∈ l.connection.pending then [.error .connectionClosed] else []) ++
        if id ∈ l.commands.map (·.id) then [.error .connectionClosed] else [] := by
    have late := Connection.verdict?_lost id distinct.1
    rw [List.map_map] at late
    rw [← Connection.verdict?_lost id distinct.2, ← late, ← List.filterMap_append]
    rfl
  rw [Proceeds, Shows, tells]
  cases stage <;>
    simp_all [Stage.next, Stage.verdict?, finish, Connection.finish, Happening.settles?]

/-- Each command goes its way, whatever happens to the others. -/
theorem Happens.proceeds {stage : Stage} (happens : l.Happens h l') (distinct : l.Distinct)
    (shown : l.Shows id stage) (new : h.submittedId? = some id → stage = .unsent) :
    Proceeds h l' id stage := by
  cases happens with
  | submitted command =>
      apply proceeds_submit command shown
      rintro rfl
      exact new rfl
  | written isOpen takes wrote => exact proceeds_write distinct isOpen wrote shown
  | read isReading bytes =>
      apply shown.proceeds_same rfl rfl
      · cases stage <;> rfl
      · rfl
  | stopped isReading =>
      apply shown.proceeds_same rfl rfl
      · cases stage <;> rfl
      · rfl
  | taken isOpen took => exact proceeds_take took shown
  | ended isOpen drained silent => exact proceeds_finish distinct shown

/-! ## The queues -/

theorem post_keeps (c : Connection) (p : Packet) (takes : Bool) :
    (c.post p takes).1.isOpen = c.isOpen ∧ (c.post p takes).1.buffer = c.buffer := by
  unfold Connection.post
  split
  · exact ⟨rfl, rfl⟩
  · split
    · exact ⟨rfl, rfl⟩
    · exact ⟨rfl, rfl⟩

theorem Happens.isOpen (happens : l.Happens h l') :
    l'.connection.isOpen = true ↔ l.connection.isOpen = true ∧ h.isEnd = false := by
  cases happens with
  | submitted command =>
      unfold submit
      split
      · simp [Happening.isEnd]
      · split <;> simp [Happening.isEnd]
  | written isOpen takes wrote =>
      obtain ⟨others, -, rfl, rfl⟩ := write?_eq_some_iff.mp wrote
      simp [post_keeps, Happening.isEnd]
  | read isReading bytes => simp [EventLoop.read, Happening.isEnd]
  | stopped isReading => simp [EventLoop.stop, Happening.isEnd]
  | taken isOpen took =>
      obtain ⟨others, -, rfl, rfl⟩ := take?_eq_some_iff.mp took
      simp [l.connection.accept_eq _ [] 0, Happening.isEnd]
  | ended isOpen drained silent => simp [EventLoop.finish, Connection.finish, Happening.isEnd]

theorem Runs.isOpen_iff (runs : Runs trace l) :
    l.connection.isOpen = true ↔ ∀ h ∈ trace, h.isEnd = false := by
  induction runs with
  | start => simp [EventLoop.start, Connection.start]
  | numbered _ _ inductionHypothesis => exact inductionHypothesis
  | next _ happens inductionHypothesis =>
      rw [happens.isOpen, inductionHypothesis]
      simp [or_imp, forall_and]

/-- The queue gives up its commands in the order in which it got them, and it gets none when the
loop has ended. -/
theorem Happens.queue (happens : l.Happens h l') :
    (l'.connection.isOpen = true →
      l.commands ++ h.queued?.toList = h.written?.toList ++ l'.commands) ∧
    (l'.connection.isOpen = false → h.queued? = none ∧ h.written? = none) := by
  cases happens with
  | submitted command =>
      unfold submit
      split
      · next closed => simp [closed, Happening.queued?, Happening.written?]
      · split
        · simp_all [Happening.queued?, Happening.written?]
        · simp_all [Happening.queued?, Happening.written?]
  | written isOpen takes wrote =>
      obtain ⟨others, oldest, rfl, rfl⟩ := write?_eq_some_iff.mp wrote
      simp [oldest, post_keeps, isOpen, Happening.queued?, Happening.written?]
  | read isReading bytes => simp [EventLoop.read, Happening.queued?, Happening.written?]
  | stopped isReading => simp [EventLoop.stop, Happening.queued?, Happening.written?]
  | taken isOpen took =>
      obtain ⟨others, -, rfl, rfl⟩ := take?_eq_some_iff.mp took
      simp [Happening.queued?, Happening.written?]
  | ended isOpen drained silent =>
      simp [EventLoop.finish, Connection.finish, Happening.queued?, Happening.written?]

theorem Runs.queue (runs : Runs trace l) :
    ∃ left, trace.filterMap Happening.queued? = trace.filterMap Happening.written? ++ left ∧
      (l.connection.isOpen = true → left = l.commands) := by
  induction runs with
  | start => exact ⟨[], rfl, fun _ => rfl⟩
  | numbered _ _ inductionHypothesis => exact inductionHypothesis
  | @next trace h l l' _ happens inductionHypothesis =>
      obtain ⟨left, order, waiting⟩ := inductionHypothesis
      obtain ⟨going, ended⟩ := happens.queue
      rw [filterMap_concat, filterMap_concat, order]
      cases still : l'.connection.isOpen with
      | true =>
          obtain rfl := waiting (happens.isOpen.mp still).1
          refine ⟨l'.commands, ?_, fun _ => rfl⟩
          rw [List.append_assoc, going still, List.append_assoc]
      | false =>
          obtain ⟨noQueued, noWritten⟩ := ended still
          exact ⟨left, by simp [noQueued, noWritten], fun isOpen => nomatch isOpen⟩

theorem Runs.length_commands_le (runs : Runs trace l) : l.commands.length ≤ commandQueue := by
  induction runs with
  | start => exact Nat.zero_le _
  | numbered _ _ inductionHypothesis => exact inductionHypothesis
  | next _ happens inductionHypothesis =>
      cases happens with
      | submitted command =>
          unfold submit
          split
          · exact inductionHypothesis
          · split
            · next room =>
              rw [List.length_append]
              exact room
            · exact inductionHypothesis
      | written isOpen takes wrote =>
          obtain ⟨others, oldest, -, rfl⟩ := write?_eq_some_iff.mp wrote
          rw [oldest, List.length_cons] at inductionHypothesis
          exact Nat.le_of_succ_le inductionHypothesis
      | read isReading bytes => exact inductionHypothesis
      | stopped isReading => exact inductionHypothesis
      | taken isOpen took =>
          obtain ⟨others, -, -, rfl⟩ := take?_eq_some_iff.mp took
          exact inductionHypothesis
      | ended isOpen drained silent => exact Nat.zero_le _

theorem submit_eq_queued_iff (command : Packet) :
    (l.submit command).2 = .queued ↔
      l.connection.isOpen = true ∧ l.commands.length < commandQueue := by
  unfold submit
  split
  · simp_all
  · split <;> simp_all

theorem submit_eq_closed_iff (command : Packet) :
    (l.submit command).2 = .closed ↔ l.connection.isOpen = false := by
  unfold submit
  split
  · simp_all
  · split <;> simp_all

/-- What a queue makes of a command, given what happened before. -/
def Admits (before : List Happening) (admission : Admission) : Prop :=
  (admission = .closed ↔ ∃ h ∈ before, h.isEnd = true) ∧
    (admission = .queued ↔ (∀ h ∈ before, h.isEnd = false) ∧
      (before.filterMap Happening.queued?).length <
        (before.filterMap Happening.written?).length + commandQueue)

theorem Runs.admits_submit (runs : Runs trace l) (command : Packet) :
    Admits trace (l.submit command).2 := by
  have isOpen := runs.isOpen_iff
  constructor
  · rw [submit_eq_closed_iff, ← Bool.not_eq_true, isOpen]
    simp
  · rw [submit_eq_queued_iff, ← isOpen]
    apply and_congr_right
    intro going
    obtain ⟨left, order, waiting⟩ := runs.queue
    rw [order, waiting going, List.length_append]
    omega

theorem Runs.admits (runs : Runs trace l) :
    ∀ before command admission after, trace = before ++ .submitted command admission :: after →
      Admits before admission := by
  induction runs with
  | start =>
      intro before command admission after split
      simp at split
  | numbered _ _ inductionHypothesis => exact inductionHypothesis
  | next runs happens inductionHypothesis =>
      intro before command admission after split
      rcases concat_eq_split_iff.mp split with ⟨rfl, here, -⟩ | ⟨rest, -, earlier⟩
      · cases happens with
        | submitted other =>
            cases here
            exact runs.admits_submit command
        | _ => cases here
      · exact inductionHypothesis before command admission rest earlier

/-- Packets are looked at in the order in which they stand in the stream. -/
theorem Runs.received (runs : Runs trace l) :
    (packetsOf (trace.flatMap Happening.bytes)).1 =
        trace.filterMap Happening.taken? ++ l.packets ∧
      (l.isReading = true →
        (packetsOf (trace.flatMap Happening.bytes)).2 = (l.connection.buffer, true)) := by
  have nothing : packetsOf [] = ([], [], true) := by
    rw [packetsOf, nextPacket, if_pos (by decide)]
  induction runs with
  | start => simp [EventLoop.start, Connection.start, nothing]
  | numbered _ _ inductionHypothesis => exact inductionHypothesis
  | @next trace h l l' _ happens inductionHypothesis =>
      obtain ⟨all, reading⟩ := inductionHypothesis
      rw [List.flatMap_append, filterMap_concat, List.flatMap_singleton]
      cases happens with
      | submitted command =>
          have kept : (l.submit command).1.packets = l.packets ∧
              (l.submit command).1.isReading = l.isReading ∧
              (l.submit command).1.connection = l.connection := by
            unfold submit
            split
            · simp
            · split <;> simp
          simpa [kept, Happening.bytes, Happening.taken?] using ⟨all, reading⟩
      | written isOpen takes wrote =>
          obtain ⟨others, -, rfl, rfl⟩ := write?_eq_some_iff.mp wrote
          simpa [post_keeps, Happening.bytes, Happening.taken?] using ⟨all, reading⟩
      | read isReading bytes =>
          have before : packetsOf (trace.flatMap Happening.bytes) =
              (trace.filterMap Happening.taken? ++ l.packets, l.connection.buffer, true) :=
            Prod.ext all (reading isReading)
          have now := packetsOf_append before bytes
          simp only [Happening.bytes, Happening.taken?, Option.toList_none, List.append_nil, now]
          constructor
          · simp [EventLoop.read]
          · intro still
            exact Prod.ext rfl still
      | stopped isReading => simpa [Happening.bytes, Happening.taken?, EventLoop.stop] using all
      | taken isOpen took =>
          obtain ⟨others, oldest, rfl, rfl⟩ := take?_eq_some_iff.mp took
          simp only [Happening.bytes, Happening.taken?, List.append_nil, Option.toList_some,
            List.append_assoc, List.singleton_append, ← oldest]
          refine ⟨all, fun still => ?_⟩
          rw [reading still, (l.connection.accept_eq _ [] 0).2.1]
      | ended isOpen drained silent =>
          simp_all [Happening.bytes, Happening.taken?, EventLoop.finish]

/-! ## What everybody learns -/

theorem Runs.notified (runs : Runs trace l) :
    notifications (trace.flatMap Happening.deliveries) =
      (trace.filterMap Happening.taken?).flatMap Packet.passed := by
  induction runs with
  | start => rfl
  | numbered _ _ inductionHypothesis => exact inductionHypothesis
  | @next trace h l l' _ happens inductionHypothesis =>
      have here : notifications h.deliveries = h.taken?.toList.flatMap Packet.passed := by
        cases happens with
        | submitted command => rfl
        | written isOpen takes wrote => rfl
        | read isReading bytes => rfl
        | stopped isReading => rfl
        | taken isOpen took =>
            obtain ⟨others, -, rfl, -⟩ := take?_eq_some_iff.mp took
            simp [Happening.deliveries, Happening.taken?, Connection.notifications_accept]
        | ended isOpen drained silent =>
            have late : notifications (l.commands.map fun command => .lost command.id) = [] := by
              rw [← notifications_lost (l.commands.map (·.id)), List.map_map]
              rfl
            simp [Happening.deliveries, Happening.taken?, EventLoop.finish, Connection.finish, late]
      rw [List.flatMap_append, notifications_append, inductionHypothesis, List.flatMap_singleton,
        here, filterMap_concat, List.flatMap_append]

/-- How a loop stands to what has happened. -/
structure Tracks (trace : List Happening) (l : EventLoop) : Prop where
  distinct : l.Distinct
  shown : ∀ id, l.Shows id (Stage.after id trace)
  told : ∀ id, trace.flatMap (·.told id) = (Stage.after id trace).verdict?.toList

theorem tracks_start : Tracks [] start where
  distinct := by simp [EventLoop.start, Connection.start, Distinct]
  shown := by simp [EventLoop.start, Connection.start, Shows, Stage.after]
  told := by simp [Stage.after, Stage.verdict?]

theorem Tracks.next (tracks : Tracks trace l) (happens : l.Happens h l')
    (nodup : ((trace ++ [h]).filterMap Happening.submittedId?).Nodup) :
    Tracks (trace ++ [h]) l' := by
  have new (id : UInt32) (submitted : h.submittedId? = some id) :
      Stage.after id trace = .unsent := by
    apply Stage.after_of_absent
    rw [List.filterMap_append, List.nodup_append] at nodup
    intro earlier
    exact nodup.2.2 id earlier id (by simp [submitted]) rfl
  have proceeds (id : UInt32) : Proceeds h l' id (Stage.after id trace) :=
    happens.proceeds tracks.distinct (tracks.shown id) (new id)
  constructor
  case shown =>
    intro id
    rw [Stage.after_concat]
    exact (proceeds id).1
  case told =>
    intro id
    rw [Stage.after_concat, List.flatMap_append, tracks.told, List.flatMap_singleton]
    exact (proceeds id).2
  case distinct =>
    obtain ⟨commands, pending⟩ := tracks.distinct
    cases happens with
    | submitted command =>
        have absent : command.id ∉ l.commands.map (·.id) := by
          rw [(tracks.shown command.id).1, new command.id rfl]
          simp
        unfold submit
        split
        · exact tracks.distinct
        · split
          · refine ⟨?_, pending⟩
            rw [List.map_append, List.map_singleton]
            exact List.nodup_append.mpr ⟨commands, by simp, by
              rintro _ isThere _ single rfl
              exact absent (List.mem_singleton.mp single ▸ isThere)⟩
          · exact tracks.distinct
    | @written _ command result isOpen takes wrote =>
        obtain ⟨others, oldest, rfl, rfl⟩ := write?_eq_some_iff.mp wrote
        have absent : command.id ∉ l.connection.pending := by
          have queued : Stage.after command.id trace = .queued := by
            rw [← (tracks.shown command.id).1, oldest]
            simp
          rw [(tracks.shown command.id).2, queued]
          simp
        rw [oldest, List.map_cons, List.nodup_cons] at commands
        refine ⟨commands.2, ?_⟩
        cases takes with
        | true =>
            simp only [Connection.post, isOpen, Bool.true_eq_false, if_false]
            exact List.nodup_append.mpr ⟨pending, by simp, by
              rintro _ isThere _ single rfl
              exact absent (List.mem_singleton.mp single ▸ isThere)⟩
        | false => simpa [Connection.post, isOpen] using pending
    | read isReading bytes => exact tracks.distinct
    | stopped isReading => exact tracks.distinct
    | taken isOpen took =>
        obtain ⟨others, -, rfl, rfl⟩ := take?_eq_some_iff.mp took
        exact ⟨commands, pending.sublist (l.connection.accept_eq _ [] 0).2.2.1⟩
    | ended isOpen drained silent => exact ⟨List.nodup_nil, List.nodup_nil⟩

theorem Runs.tracks (runs : Runs trace l)
    (nodup : (trace.filterMap Happening.submittedId?).Nodup) : Tracks trace l := by
  induction runs with
  | start => exact tracks_start
  | numbered _ _ inductionHypothesis =>
      obtain ⟨distinct, shown, told⟩ := inductionHypothesis nodup
      exact ⟨distinct, shown, told⟩
  | next _ happens inductionHypothesis =>
      have others := (List.nodup_append.mp (List.filterMap_append ▸ nodup)).1
      exact (inductionHypothesis others).next happens nodup

/-- A packet for which nobody waits changes nothing for those who do. -/
theorem Tracks.untouched (tracks : Tracks trace l) {p : Packet} {ds : List Delivery}
    (happens : l.Happens (.taken p ds) l')
    (unawaited : ∀ code, p.kind = .reply code → Stage.after p.id trace ≠ .awaiting) :
    l'.connection = l.connection ∧ l'.commands = l.commands := by
  cases happens with
  | taken isOpen took =>
      obtain ⟨others, -, -, rfl⟩ := take?_eq_some_iff.mp took
      refine ⟨?_, rfl⟩
      change (l.connection.accept p).1 = l.connection
      unfold Connection.accept
      split
      case h_1 code reply =>
        have absent : p.id ∉ l.connection.pending :=
          mt (tracks.shown p.id).2.mp (unawaited code reply)
        simp [absent]
      case h_2 => split <;> rfl
      case h_3 => rfl

theorem Runs.failed (runs : Runs trace l) {command : Packet} {e : NativeError}
    (failed : .written command (.error e) ∈ trace) : e = .io := by
  induction runs with
  | start => cases failed
  | numbered _ _ inductionHypothesis => exact inductionHypothesis failed
  | next _ happens inductionHypothesis =>
      rcases List.mem_append.mp failed with earlier | now
      · exact inductionHypothesis earlier
      · obtain rfl := List.mem_singleton.mp now
        cases happens with
        | written isOpen takes wrote =>
            obtain ⟨others, -, result, -⟩ := write?_eq_some_iff.mp wrote
            cases takes with
            | true => simp [Connection.post, isOpen] at result
            | false => simpa [Connection.post, isOpen, eq_comm] using result

/-! ## A connection with nothing on its way -/

end EventLoop

namespace Connection

open EventLoop

variable {c : Connection} {trace : List Happening}

/-- Commands are written and packets looked at as soon as they are there. -/
def alone (c : Connection) : EventLoop := ⟨c, [], [], c.isOpen⟩

/-- What happens when a call is sent. -/
def sendings (c : Connection) (call : NativeCall) : List Happening :=
  if c.isOpen then
    [.submitted (call.packet c.nextId) .queued,
      .written (call.packet c.nextId) (.ok (call.packet c.nextId))]
  else [.submitted (call.packet c.nextId) .closed]

theorem runs_send (runs : Runs trace c.alone) (call : NativeCall) :
    Runs (trace ++ c.sendings call) (c.send call).1.alone ∧
      (c.sendings call).filterMap Happening.written? = (c.send call).2.toList := by
  have numbered := (runs.numbered (c.nextId + 1)).next (.submitted _ (call.packet c.nextId))
  cases isOpen : c.isOpen with
  | true =>
      simp only [alone, submit, isOpen, commandQueue, Bool.true_eq_false, if_false,
        List.length_nil, Nat.zero_lt_succ, if_true, List.nil_append] at numbered
      have written := numbered.next (.written rfl true rfl)
      rw [List.append_assoc] at written
      constructor
      · simpa [alone, send, sendings, post, isOpen] using written
      · have sent : (c.send call).2 = some (call.packet c.nextId) := by
          simp [send, post, isOpen, Except.toOption]
        rw [sent, sendings, if_pos isOpen]
        rfl
  | false =>
      simp only [alone, submit, isOpen, if_true] at numbered
      constructor
      · simpa [alone, send, sendings, post, isOpen] using numbered
      · simp [send, sendings, post, isOpen, Happening.written?, Except.toOption]

/-- Packets that are looked at, with what the connection makes of each. -/
def arrivals (c : Connection) : List Packet → List Happening
  | [] => []
  | p :: ps => .taken p (c.accept p).2 :: (c.accept p).1.arrivals ps

theorem taken?_arrivals (c : Connection) (ps : List Packet) :
    (c.arrivals ps).filterMap Happening.taken? = ps := by
  induction ps generalizing c with
  | nil => rfl
  | cons p ps inductionHypothesis => simp [arrivals, Happening.taken?, inductionHypothesis]

theorem deliveries_arrivals (c : Connection) (ps : List Packet) :
    (c.arrivals ps).flatMap Happening.deliveries = (c.acceptAll ps).2 := by
  induction ps generalizing c with
  | nil => rfl
  | cons p ps inductionHypothesis =>
      rw [arrivals, List.flatMap_cons, inductionHypothesis]
      rfl

theorem isOpen_acceptAll (c : Connection) (ps : List Packet) :
    (c.acceptAll ps).1.isOpen = c.isOpen := by
  induction ps generalizing c with
  | nil => rfl
  | cons p ps inductionHypothesis =>
      exact (inductionHypothesis _).trans (c.accept_eq p [] 0).1

theorem runs_acceptAll {ps : List Packet} {reading : Bool} (isOpen : c.isOpen = true)
    (runs : Runs trace ⟨c, [], ps, reading⟩) :
    Runs (trace ++ c.arrivals ps) ⟨(c.acceptAll ps).1, [], [], reading⟩ := by
  induction ps generalizing c trace with
  | nil => simpa [arrivals, acceptAll] using runs
  | cons p ps inductionHypothesis =>
      have still : (c.accept p).1.isOpen = true := (c.accept_eq p [] 0).1.trans isOpen
      have others := inductionHypothesis still (runs.next (.taken isOpen rfl))
      rw [List.append_assoc] at others
      exact others

/-- The bytes that arrive bring packets, and the end of the connection if they cannot be read. -/
theorem runs_receive (runs : Runs trace c.alone) (isOpen : c.isOpen = true) (bytes : Bytes) :
    ∃ hs, Runs (trace ++ .read bytes :: hs) (c.receive bytes).1.alone ∧
      hs.filterMap Happening.taken? = (packetsOf (c.buffer ++ bytes)).1 ∧
      hs.flatMap Happening.deliveries = (c.receive bytes).2 := by
  generalize same : packetsOf (c.buffer ++ bytes) = result
  obtain ⟨ps, rest, readable⟩ := result
  have handed : Runs (trace ++ [.read bytes]) ⟨{ c with buffer := rest }, [], ps, readable⟩ := by
    simpa [EventLoop.read, alone, same] using runs.next (.read isOpen bytes)
  have kept : ({ c with buffer := rest } : Connection).isOpen = true := isOpen
  have taken := runs_acceptAll kept handed
  have still : (acceptAll { c with buffer := rest } ps).1.isOpen = true :=
    (isOpen_acceptAll _ ps).trans isOpen
  rw [List.append_assoc] at taken
  cases readable with
  | true =>
      have received : c.receive bytes = acceptAll { c with buffer := rest } ps := by
        rw [receive, if_pos isOpen, same]
        simp
      rw [received, alone, still]
      exact ⟨_, taken, taken?_arrivals _ ps, deliveries_arrivals _ ps⟩
  | false =>
      have received : c.receive bytes =
          ((acceptAll { c with buffer := rest } ps).1.finish.1,
            (acceptAll { c with buffer := rest } ps).2 ++
              (acceptAll { c with buffer := rest } ps).1.finish.2) := by
        rw [receive, if_pos isOpen, same]
        simp
      have ended := taken.next (.ended still rfl rfl)
      rw [List.append_assoc, List.append_assoc, List.singleton_append] at ended
      rw [received]
      refine ⟨_, ended, ?_, ?_⟩
      · rw [List.filterMap_append, taken?_arrivals]
        exact List.append_nil ps
      · rw [List.flatMap_append, deliveries_arrivals]
        simp [Happening.deliveries, EventLoop.finish]

theorem runs_finish (runs : Runs trace c.alone) (isOpen : c.isOpen = true) :
    Runs (trace ++ [.stopped, .ended c.finish.2]) c.finish.1.alone := by
  have stopped := runs.next (.stopped isOpen)
  have ended := stopped.next (.ended isOpen rfl rfl)
  simpa [EventLoop.finish, stop, alone, finish] using ended

end Connection

namespace EventLoop

variable {l l' : EventLoop} {trace : List Happening}

/-- Who has learnt what. -/
structure Answers (trace : List Happening) (l : EventLoop) : Prop where
  /-- A command is queued if the loop runs and there is room for it. -/
  admitted : ∀ before command admission after,
    trace = before ++ .submitted command admission :: after → Admits before admission
  /-- Commands are written in the order in which they were queued, all but those that wait when the
  loop ends. -/
  order : ∃ left, trace.filterMap Happening.queued? = trace.filterMap Happening.written? ++ left ∧
    (l.connection.isOpen = true → left = l.commands)
  /-- The sender of a command is told the first reply behind its writing, or that there will be none,
  and nothing else. -/
  told : ∀ before command admission after,
    trace = before ++ .submitted command admission :: after →
      trace.flatMap (·.told command.id) = (verdict? command.id admission after).toList
  /-- Without a reply, the loop has ended or the stream has not taken the command. -/
  unanswered : ∀ before command admission after e,
    trace = before ++ .submitted command admission :: after →
      verdict? command.id admission after = some (.error e) →
        e = .connectionClosed ∨
          e = .io ∧ ∃ p, p.id = command.id ∧ .written p (.error .io) ∈ after
  /-- A command is in the queue until it is written, and then its reply is waited for. -/
  waiting : ∀ id, l.Shows id (Stage.after id trace)
  /-- A reply for which nobody waits leaves everybody waiting, and so does a packet that is none. -/
  untouched : ∀ p ds l', l.Happens (.taken p ds) l' →
    (∀ code, p.kind = .reply code → Stage.after p.id trace ≠ .awaiting) →
      l'.connection = l.connection ∧ l'.commands = l.commands
  /-- Packets are looked at in the order in which they stand in the stream. -/
  received : (packetsOf (trace.flatMap Happening.bytes)).1 =
    trace.filterMap Happening.taken? ++ l.packets
  /-- Notifications come as their packets do, and in a packet as they stand in its payload. -/
  notified : notifications (trace.flatMap Happening.deliveries) =
    (trace.filterMap Happening.taken?).flatMap Packet.passed

/-- A reply to the second of two commands, one to nobody, and notifications. -/
def crossedReplies : List Packet :=
  [⟨6, .reply 0, [7]⟩, ⟨9, .reply 0, []⟩, ⟨1, .command 64 100, [0, 0, 0, 1, 10, 0, 0, 0, 7]⟩]

theorem packetsOf_crossedReplies :
    packetsOf (crossedReplies.flatMap Packet.encode) = (crossedReplies, [], true) := by
  have nothing : packetsOf [] = ([], [], true) := by
    rw [packetsOf, nextPacket, if_pos (by decide)]
  simp only [crossedReplies, List.flatMap_cons, List.flatMap_nil]
  rw [packetsOf_encode (by decide), packetsOf_encode (by decide), packetsOf_encode (by decide),
    nothing]

/-- The first of two commands gets no reply. A third one cannot be written, a fourth one waits in the
queue when the loop ends, and a fifth one comes after that. -/
def crossed : List Happening :=
  [.submitted ⟨5, .command 1 1, []⟩ .queued, .submitted ⟨6, .command 1 2, []⟩ .queued,
    .written ⟨5, .command 1 1, []⟩ (.ok ⟨5, .command 1 1, []⟩),
    .written ⟨6, .command 1 2, []⟩ (.ok ⟨6, .command 1 2, []⟩),
    .read (crossedReplies.flatMap Packet.encode),
    .taken ⟨6, .reply 0, [7]⟩ [.reply 6 0 [7]],
    .submitted ⟨7, .command 1 3, []⟩ .queued,
    .taken ⟨9, .reply 0, []⟩ [],
    .written ⟨7, .command 1 3, []⟩ (.error .io),
    .submitted ⟨8, .command 1 4, []⟩ .queued,
    .taken ⟨1, .command 64 100, [0, 0, 0, 1, 10, 0, 0, 0, 7]⟩ [.notified [.userBreak 7]],
    .stopped, .ended [.lost 5, .lost 8],
    .submitted ⟨10, .command 1 5, []⟩ .closed]

theorem runs_crossed : Runs crossed ⟨⟨1, [], [], false⟩, [], [], false⟩ := by
  have queued : Runs (crossed.take 2)
      ⟨.start [], [⟨5, .command 1 1, []⟩, ⟨6, .command 1 2, []⟩], [], true⟩ :=
    (Runs.start.next (.submitted _ ⟨5, .command 1 1, []⟩)).next (.submitted _ ⟨6, .command 1 2, []⟩)
  have written : Runs (crossed.take 4) ⟨⟨1, [5, 6], [], true⟩, [], [], true⟩ :=
    (queued.next (.written rfl true rfl)).next (.written rfl true rfl)
  have handed : Runs (crossed.take 5) ⟨⟨1, [5, 6], [], true⟩, [], crossedReplies, true⟩ := by
    have read := written.next (.read rfl (crossedReplies.flatMap Packet.encode))
    simp only [EventLoop.read, List.nil_append, packetsOf_crossedReplies] at read
    exact read
  have failed := (((handed.next (.taken rfl rfl)).next (.submitted _ ⟨7, .command 1 3, []⟩)).next
    (.taken rfl rfl)).next (.written rfl false rfl)
  have stopped := ((failed.next (.submitted _ ⟨8, .command 1 4, []⟩)).next (.taken rfl rfl)).next
    (.stopped rfl)
  exact (stopped.next (.ended rfl rfl rfl)).next (.submitted _ ⟨10, .command 1 5, []⟩)

end EventLoop

end ManagedDebugger.Wire
