import ManagedDebugger.Eval.Waiters
import ManagedDebugger.Proofs.Trace

/-!
# Those who wait for evaluations

What the operations of the table do, as seen by whoever looks an evaluation or a ticket up. An
evaluation that ends, and one that is given up, leave the table in the same way; nobody but the
ticket that was registered for it learns of that. So as long as an evaluation is registered once,
what its ticket is told can be read off what has happened since.
-/

namespace ManagedDebugger

/-- The thread of a stop that can belong to an evaluation. -/
def NativeEvent.stopped? : NativeEvent → Option ThreadId
  | .breakpointHit thread _ | .stepComplete thread _ | .userBreak thread
  | .exception thread _ _ => some thread
  | _ => none

/-- The evaluation that ended, and how. -/
def NativeEvent.ended? : NativeEvent → Option (EvalId × EvalOutcome)
  | .evalComplete _ eval result => some (eval, .completed result)
  | .evalException _ eval value => some (eval, .threw value)
  | _ => none

namespace Waiters

variable {w : Waiters} {eval other : EvalId} {thread : ThreadId} {ticket : Ticket} {d : Delivery}

/-! ## The end of a registration -/

theorem settle_of_absent (absent : w.pending.get? eval = none) : w.settle eval d = w := by
  rw [settle, absent]

@[simp]
theorem nextTicket_settle : (w.settle eval d).nextTicket = w.nextTicket := by
  unfold settle
  split <;> rfl

@[simp]
theorem get?_settle :
    (w.settle eval d).pending.get? other = if eval = other then none else w.pending.get? other := by
  cases found : w.pending.get? eval with
  | none =>
      rw [settle_of_absent found]
      by_cases same : eval = other
      · rw [if_pos same, ← same, found]
      · rw [if_neg same]
  | some waiter =>
      rw [settle, found]
      exact Keyed.get?_erase w.pending eval other

theorem distinct_settle (distinct : w.pending.Distinct) : (w.settle eval d).pending.Distinct := by
  unfold settle
  split
  · exact distinct.erase eval
  · exact distinct

/-- The ticket that was registered is told, and no other one is. -/
theorem delivered_settle_of_registered (registered : w.pending.get? eval = some ⟨thread, ticket⟩) :
    (w.settle eval d).delivered.get? ticket = some d := by
  rw [settle, registered]
  exact (Keyed.get?_put w.delivered ticket ticket d).trans (if_pos rfl)

theorem delivered_settle_of_other
    (other : ∀ thread, w.pending.get? eval ≠ some ⟨thread, ticket⟩) :
    (w.settle eval d).delivered.get? ticket = w.delivered.get? ticket := by
  cases found : w.pending.get? eval with
  | none => rw [settle_of_absent found]
  | some waiter =>
      have different : waiter.ticket ≠ ticket := by
        rintro rfl
        exact other waiter.thread found
      rw [settle, found]
      exact (Keyed.get?_put w.delivered waiter.ticket ticket d).trans (if_neg different)

/-! ## A registration -/

/-- Nobody else waits for an evaluation that is new. -/
theorem register_of_absent (absent : w.pending.get? eval = none) :
    w.register eval thread = (w.nextTicket,
      { w with
        nextTicket := w.nextTicket + 1
        pending := w.pending.put eval ⟨thread, w.nextTicket⟩ }) := by
  rw [register, cancel, settle_of_absent absent]

/-! ## A notification -/

/-- Some registered evaluation runs on the thread. -/
theorem inFlight_iff (distinct : w.pending.Distinct) :
    w.inFlight thread = true ↔ ∃ eval ticket, w.pending.get? eval = some ⟨thread, ticket⟩ := by
  rw [inFlight, List.any_eq_true]
  constructor
  · rintro ⟨waiter, isThere, same⟩
    obtain ⟨⟨eval, waiter⟩, entry, rfl⟩ := List.mem_map.mp isThere
    refine ⟨eval, waiter.ticket, ?_⟩
    rw [distinct.mem_iff.mp entry, ← beq_iff_eq.mp same]
  · rintro ⟨eval, ticket, found⟩
    have entry : (eval, ⟨thread, ticket⟩) ∈ w.pending := distinct.mem_iff.mpr found
    exact ⟨⟨thread, ticket⟩, List.mem_map.mpr ⟨_, entry, rfl⟩, beq_self_eq_true thread⟩

/-- The end of an evaluation is consumed. A stop makes the target go on if an evaluation runs on its
thread. All else is passed on. -/
theorem route_eq (w : Waiters) (event : NativeEvent) :
    w.route event =
      match event.ended?, event.stopped? with
      | some (eval, outcome), _ => (.consumed, w.settle eval (.outcome outcome))
      | none, some thread => (if w.inFlight thread then .resume else .forward, w)
      | none, none => (.forward, w) := by
  cases event <;> rfl

end Waiters

/-! ## What has happened -/

/-- What happens to notifications and to those who wait for evaluations. -/
inductive Passage where
  | raised (events : List NativeEvent)
  /-- The router takes a notification, and may make the target go on because of it. -/
  | routed (event : NativeEvent) (resumed : Bool)
  | registered (eval : EvalId) (thread : ThreadId) (ticket : Ticket)
  | cancelled (eval : EvalId)
  | read (ticket : Ticket) (d : Delivery)
  /-- The dispatcher begins with a notification. -/
  | handled (event : NativeEvent)

namespace Passage

def raises : Passage → List NativeEvent
  | raised events => events
  | _ => []

def routed? : Passage → Option NativeEvent
  | routed event _ => some event
  | _ => none

/-- A notification that is for the dispatcher. -/
def forwarded? : Passage → Option NativeEvent
  | routed event false => if event.ended? = none then some event else none
  | _ => none

def handled? : Passage → Option NativeEvent
  | handled event => some event
  | _ => none

def eval? : Passage → Option EvalId
  | registered eval _ _ => some eval
  | _ => none

def ticket? : Passage → Option Ticket
  | registered _ _ ticket => some ticket
  | _ => none

def read? (ticket : Ticket) : Passage → Option Delivery
  | read other d => if other = ticket then some d else none
  | _ => none

/-- An evaluation that nobody has to wait for any more, and why. -/
def settled? : Passage → Option (EvalId × Delivery)
  | routed event _ => event.ended?.map fun (eval, outcome) => (eval, .outcome outcome)
  | cancelled eval => some (eval, .closed)
  | _ => none

/-- What there is to tell those who wait for an evaluation. -/
def settles? (eval : EvalId) (p : Passage) : Option Delivery :=
  p.settled?.bind fun (other, d) => if other = eval then some d else none

end Passage

/-- What becomes of the table of those who wait. -/
inductive Waiters.Turns : Waiters → Passage → Waiters → Prop where
  | kept {w : Waiters} {p : Passage} : p.settled? = none → p.ticket? = none →
      (∀ ticket, p.read? ticket = none) → Turns w p w
  | settled {w : Waiters} {p : Passage} {eval : EvalId} {d : Delivery} :
      p.settled? = some (eval, d) → Turns w p (w.settle eval d)
  | registered (w : Waiters) (eval : EvalId) (thread : ThreadId) :
      Turns w (.registered eval thread (w.register eval thread).1) (w.register eval thread).2
  | read {w w' : Waiters} {ticket : Ticket} {d : Delivery} :
      w.take? ticket = some (d, w') → Turns w (.read ticket d) w'

/-! ## Those who wait -/

/-- All that a ticket was ever told. -/
def everTold (trace : List Passage) (w : Waiters) (ticket : Ticket) : List Delivery :=
  trace.filterMap (Passage.read? ticket) ++ (w.delivered.get? ticket).toList

/-- How the table stands to what has happened. -/
structure Waiters.Tracks (trace : List Passage) (w : Waiters) : Prop where
  distinct : w.pending.Distinct
  tickets : trace.filterMap Passage.ticket? = List.range w.nextTicket
  pending : ∀ eval thread ticket, w.pending.get? eval = some ⟨thread, ticket⟩ ↔
    Unsettled (Passage.settles? eval) trace (.registered eval thread ticket)
  unknown : ∀ ticket, w.nextTicket ≤ ticket → everTold trace w ticket = []
  told : ∀ before eval thread ticket after,
    trace = before ++ .registered eval thread ticket :: after →
    everTold trace w ticket = (after.findSome? (Passage.settles? eval)).toList

namespace Waiters

variable {w w' : Waiters} {p : Passage} {trace before after : List Passage} {eval other : EvalId}
  {thread : ThreadId} {ticket : Ticket} {d : Delivery}

theorem tracks_empty : Tracks [] empty where
  distinct := Keyed.distinct_nil
  tickets := rfl
  pending eval thread ticket := by
    have nothing : ¬ Unsettled (Passage.settles? eval) [] (.registered eval thread ticket) :=
      not_unsettled_nil
    simp [empty, nothing]
  unknown _ _ := rfl
  told := by simp

theorem Tracks.nodup (tracks : Tracks trace w) : (trace.filterMap Passage.ticket?).Nodup := by
  rw [tracks.tickets]
  exact List.nodup_range

/-- A ticket belongs to the evaluation that it was handed out for. -/
theorem Tracks.pending_iff_of_split (tracks : Tracks trace w)
    (split : trace = before ++ .registered eval thread ticket :: after) :
    (∃ thread, w.pending.get? other = some ⟨thread, ticket⟩) ↔
      other = eval ∧ after.findSome? (Passage.settles? eval) = none := by
  have own (elsewhere : ThreadId) :
      w.pending.get? other = some ⟨elsewhere, ticket⟩ ↔
        Passage.registered other elsewhere ticket = .registered eval thread ticket ∧
          after.findSome? (Passage.settles? other) = none :=
    (tracks.pending other elsewhere ticket).trans
      (unsettled_iff_of_split tracks.nodup split rfl rfl)
  constructor
  · rintro ⟨elsewhere, found⟩
    obtain ⟨same, unsettled⟩ := (own elsewhere).mp found
    obtain ⟨rfl, -, -⟩ := Passage.registered.inj same
    exact ⟨rfl, unsettled⟩
  · rintro ⟨rfl, unsettled⟩
    exact ⟨thread, (own thread).mpr ⟨rfl, unsettled⟩⟩

/-- A ticket that was not handed out yet waits for nothing. -/
theorem Tracks.ticket_lt (tracks : Tracks trace w)
    (found : w.pending.get? eval = some ⟨thread, ticket⟩) : ticket < w.nextTicket := by
  obtain ⟨before, after, rfl, -⟩ := (tracks.pending eval thread ticket).mp found
  have handed : ticket ∈ List.range w.nextTicket := by
    rw [← tracks.tickets]
    simp [Passage.ticket?]
  exact List.mem_range.mp handed

/-- Neither an evaluation nor a ticket learns of it. -/
theorem Tracks.quiet (tracks : Tracks trace w) (silent : p.settled? = none)
    (unregistered : p.ticket? = none) (pending : w'.pending = w.pending)
    (nextTicket : w'.nextTicket = w.nextTicket)
    (same : ∀ ticket, everTold (trace ++ [p]) w' ticket = everTold trace w ticket) :
    Tracks (trace ++ [p]) w' := by
  have silent (eval : EvalId) : p.settles? eval = none := by simp [Passage.settles?, silent]
  have other (eval : EvalId) (thread : ThreadId) (ticket : Ticket) :
      Passage.registered eval thread ticket ≠ p := by
    rintro rfl
    cases unregistered
  constructor
  case distinct => exact pending ▸ tracks.distinct
  case tickets => simp [tracks.tickets, unregistered, nextTicket]
  case pending =>
    intro eval thread ticket
    rw [pending, tracks.pending, unsettled_concat_iff]
    simp [silent, other]
  case unknown =>
    intro ticket new
    rw [same]
    exact tracks.unknown ticket (nextTicket ▸ new)
  case told =>
    intro before eval thread ticket after split
    rcases concat_eq_split_iff.mp split with ⟨-, here, -⟩ | ⟨rest, rfl, earlier⟩
    · exact absurd here (other eval thread ticket)
    · rw [same, tracks.told _ _ _ _ _ earlier, List.findSome?_append]
      simp [silent]

/-- An evaluation ends, or is given up. -/
theorem Tracks.settled (tracks : Tracks trace w) (settled : p.settled? = some (eval, d)) :
    Tracks (trace ++ [p]) (w.settle eval d) := by
  have settles (other : EvalId) : p.settles? other = if eval = other then some d else none := by
    simp [Passage.settles?, settled]
  have unregistered : p.ticket? = none := by
    cases p with
    | registered => cases settled
    | _ => rfl
  have unread (ticket : Ticket) : p.read? ticket = none := by
    cases p with
    | read => cases settled
    | _ => rfl
  have different (other : EvalId) (thread : ThreadId) (ticket : Ticket) :
      Passage.registered other thread ticket ≠ p := by
    rintro rfl
    cases unregistered
  -- Only the ticket that was registered for the evaluation is told something new.
  have elsewhere {ticket : Ticket}
      (elsewhere : ∀ thread, w.pending.get? eval ≠ some ⟨thread, ticket⟩) :
      everTold (trace ++ [p]) (w.settle eval d) ticket =
        everTold trace w ticket := by
    simp [everTold, unread, delivered_settle_of_other elsewhere]
  constructor
  case distinct => exact distinct_settle tracks.distinct
  case tickets => simp [tracks.tickets, unregistered]
  case pending =>
    intro other thread ticket
    rw [get?_settle, unsettled_concat_iff, settles, ← tracks.pending]
    by_cases same : eval = other
    · simp [same, different]
    · simp [same, different]
  case unknown =>
    intro ticket new
    rw [nextTicket_settle] at new
    rw [elsewhere fun thread found => absurd (tracks.ticket_lt found) (Nat.not_lt.mpr new)]
    exact tracks.unknown ticket new
  case told =>
    intro before other thread ticket after split
    rcases concat_eq_split_iff.mp split with ⟨-, here, -⟩ | ⟨rest, rfl, earlier⟩
    · exact absurd here (different other thread ticket)
    · have told := tracks.told _ _ _ _ _ earlier
      have own : (∃ thread, w.pending.get? eval = some ⟨thread, ticket⟩) ↔
          eval = other ∧ rest.findSome? (Passage.settles? other) = none :=
        tracks.pending_iff_of_split earlier
      rw [List.findSome?_append]
      by_cases here : eval = other ∧ rest.findSome? (Passage.settles? other) = none
      · obtain ⟨thread, registered⟩ := own.mpr here
        obtain ⟨rfl, unsettled⟩ := here
        rw [unsettled] at told
        have unheard : trace.filterMap (Passage.read? ticket) = [] :=
          (List.append_eq_nil_iff.mp told).1
        simp [everTold, unheard, unread, unsettled, settles,
          delivered_settle_of_registered registered]
      · rw [elsewhere fun thread found => here (own.mp ⟨thread, found⟩), told]
        cases found : rest.findSome? (Passage.settles? other) with
        | some verdict => rfl
        | none =>
            have passing : eval ≠ other := fun same => here ⟨same, found⟩
            simp [settles, passing]

/-- An evaluation that was not registered before. -/
theorem Tracks.registered (tracks : Tracks trace w)
    (new : eval ∉ trace.filterMap Passage.eval?) (thread : ThreadId) :
    Tracks (trace ++ [.registered eval thread (w.register eval thread).1])
      (w.register eval thread).2 := by
  have unregistered (thread : ThreadId) (ticket : Ticket) :
      ¬ Unsettled (Passage.settles? eval) trace (.registered eval thread ticket) := by
    rintro ⟨before, after, rfl, -⟩
    exact new (by simp [Passage.eval?])
  have absent : w.pending.get? eval = none := by
    cases found : w.pending.get? eval with
    | none => rfl
    | some waiter => exact absurd ((tracks.pending _ _ _).mp found) (unregistered _ _)
  rw [register_of_absent absent]
  have same (ticket : Ticket) :
      everTold (trace ++ [.registered eval thread w.nextTicket])
        { w with
          nextTicket := w.nextTicket + 1
          pending := w.pending.put eval ⟨thread, w.nextTicket⟩ } ticket =
        everTold trace w ticket := by
    simp [everTold, Passage.read?]
  constructor
  case distinct => exact tracks.distinct.put eval _
  case tickets => simp [tracks.tickets, Passage.ticket?, List.range_succ]
  case pending =>
    intro other elsewhere ticket
    rw [Keyed.get?_put, unsettled_concat_iff, ← tracks.pending]
    by_cases same : eval = other
    · subst same
      simp [absent, eq_comm]
    · simp [same, Ne.symm same, Passage.settles?, Passage.settled?]
  case unknown =>
    intro ticket later
    rw [same]
    exact tracks.unknown ticket (Nat.le_of_succ_le later)
  case told =>
    intro before other elsewhere ticket after split
    rw [same]
    rcases concat_eq_split_iff.mp split with ⟨-, here, rfl⟩ | ⟨rest, rfl, earlier⟩
    · obtain ⟨-, -, rfl⟩ := Passage.registered.inj here
      exact tracks.unknown w.nextTicket (Nat.le_refl _)
    · rw [tracks.told _ _ _ _ _ earlier, List.findSome?_append]
      simp [Passage.settles?, Passage.settled?]

/-- A ticket is read, and has been told the same. -/
theorem Tracks.read (tracks : Tracks trace w) (taken : w.take? ticket = some (d, w')) :
    Tracks (trace ++ [.read ticket d]) w' := by
  obtain ⟨found, delivered, same⟩ := Option.map_eq_some_iff.mp taken
  obtain ⟨rfl, rfl⟩ := Prod.mk.inj same
  refine tracks.quiet rfl rfl rfl rfl fun other => ?_
  by_cases here : ticket = other
  · subst here
    simp [everTold, Passage.read?, Keyed.get?_erase, delivered]
  · simp [everTold, Passage.read?, Keyed.get?_erase, here]

/-- Whatever happens, as long as no evaluation is registered twice. -/
theorem Tracks.next (tracks : Tracks trace w) (turns : w.Turns p w')
    (nodup : ((trace ++ [p]).filterMap Passage.eval?).Nodup) : Tracks (trace ++ [p]) w' := by
  cases turns with
  | kept silent unregistered unread =>
      refine tracks.quiet silent unregistered rfl rfl fun ticket => ?_
      simp [everTold, unread]
  | settled settled => exact tracks.settled settled
  | registered eval thread =>
      rw [List.filterMap_append] at nodup
      refine tracks.registered (fun isThere => ?_) thread
      exact (List.nodup_append.mp nodup).2.2 eval isThere eval (by simp [Passage.eval?]) rfl
  | read taken => exact tracks.read taken

end Waiters

end ManagedDebugger
