import ManagedDebugger.Proofs.Wire.RoundTrip
import ManagedDebugger.Wire.Connection

/-!
# What becomes of an event packet

An event packet is read as a whole before anything of it is passed on. So the notifications of a
packet arrive all together or not at all: one that cannot be read takes with it those that were
read before it, and not only what follows it, whose place in the payload is unknown.
-/

namespace ManagedDebugger.Wire

namespace Layout

variable {α : Type} {l : Layout α}

/-- The elements that can be read one after another, `n` at most. -/
def front (l : Layout α) : Nat → Bytes → List α
  | 0, _ => []
  | n + 1, bs =>
    match l.read bs with
    | .ok (a, rest) => a :: l.front n rest
    | .error _ => []

/-- A list is read if all of its elements are. -/
theorem items_eq_ok_iff {n : Nat} {bs : Bytes} {as : List α} :
    (∃ rest, l.items n bs = .ok (as, rest)) ↔ l.front n bs = as ∧ as.length = n := by
  induction n generalizing bs as with
  | zero =>
      constructor
      · intro read
        obtain ⟨rest, read⟩ := read
        obtain ⟨rfl, -⟩ := pure_eq_ok_iff.mp read
        exact ⟨rfl, rfl⟩
      · intro holds
        obtain ⟨rfl, -⟩ := holds
        exact ⟨bs, rfl⟩
  | succ n inductionHypothesis =>
      cases found : l.read bs with
      | error e =>
          have failed : l.items (n + 1) bs = .error e := bind_of_error found
          simp only [front, found, failed]
          constructor
          · intro read
            obtain ⟨rest, read⟩ := read
            cases read
          · intro holds
            obtain ⟨rfl, length⟩ := holds
            cases length
      | ok result =>
          obtain ⟨a, rest⟩ := result
          have next : l.items (n + 1) bs = (l.items n >>= fun as => pure (a :: as)) rest :=
            bind_of_ok found
          simp only [front, found, next]
          constructor
          · intro read
            obtain ⟨rest', read⟩ := read
            obtain ⟨as', left, others, read⟩ := bind_eq_ok_iff.mp read
            obtain ⟨rfl, -⟩ := pure_eq_ok_iff.mp read
            obtain ⟨same, length⟩ := inductionHypothesis.mp ⟨left, others⟩
            exact ⟨congrArg (a :: ·) same, congrArg (· + 1) length⟩
          · intro holds
            obtain ⟨rfl, length⟩ := holds
            obtain ⟨rest', others⟩ := inductionHypothesis.mpr ⟨rfl, Nat.succ.inj length⟩
            exact ⟨rest', bind_of_ok others⟩

theorem length_front_le (l : Layout α) (n : Nat) (bs : Bytes) : (l.front n bs).length ≤ n := by
  induction n generalizing bs with
  | zero => exact Nat.le_refl 0
  | succ n inductionHypothesis =>
      unfold front
      split
      case h_1 a rest read => exact Nat.succ_le_succ (inductionHypothesis rest)
      case h_2 => exact Nat.zero_le _

theorem events?_eq_ok_iff {payload : Bytes} {es : List NativeEvent} :
    events? payload = .ok es ↔
      ∃ n body, eventCount payload = .ok (n, body) ∧ event.front n body = es ∧ es.length = n := by
  unfold events?
  constructor
  · intro read
    cases found : events.read payload with
    | error e => rw [found] at read; cases read
    | ok result =>
        obtain ⟨es', rest⟩ := result
        rw [found] at read
        obtain rfl : es' = es := Except.ok.inj read
        obtain ⟨n, body, counted, elements⟩ := bind_eq_ok_iff.mp found
        exact ⟨n, body, counted, items_eq_ok_iff.mp ⟨rest, elements⟩⟩
  · intro holds
    obtain ⟨n, body, counted, elements⟩ := holds
    obtain ⟨rest, read⟩ := items_eq_ok_iff.mpr elements
    have found : events.read payload = .ok (es, rest) := (bind_of_ok counted).trans read
    rw [found]
    rfl

/-- What was written is read up to the first bytes that nobody can read. -/
theorem front_flatMap {as : List α} (readsBack : ∀ a ∈ as, l.ReadsBack a) {n : Nat}
    (enough : as.length < n) {bad : Bytes} {e : NativeError} (unreadable : l.read bad = .error e) :
    l.front n (as.flatMap l.put ++ bad) = as := by
  induction as generalizing n with
  | nil =>
      obtain ⟨m, rfl⟩ := Nat.exists_eq_add_one_of_ne_zero (Nat.ne_of_gt enough)
      exact (by rw [List.flatMap_nil, List.nil_append, front, unreadable])
  | cons a as inductionHypothesis =>
      obtain ⟨m, rfl⟩ := Nat.exists_eq_add_one_of_ne_zero (Nat.ne_zero_of_lt enough)
      rw [List.flatMap_cons, List.append_assoc, front, readsBack a List.mem_cons_self]
      refine congrArg (a :: ·) (inductionHypothesis ?_ (Nat.lt_of_succ_lt_succ enough))
      exact fun a' isElement => readsBack a' (List.mem_cons_of_mem a isElement)

end Layout

section Parts

variable {α β : Type} {f g : α → List β} {as : List α}

theorem flatMap_sublist_flatMap (front : ∀ a ∈ as, f a <+: g a) :
    (as.flatMap f).Sublist (as.flatMap g) := by
  induction as with
  | nil => exact List.nil_sublist _
  | cons a as inductionHypothesis =>
      rw [List.flatMap_cons, List.flatMap_cons]
      refine (front a List.mem_cons_self).sublist.append (inductionHypothesis ?_)
      exact fun a' isElement => front a' (List.mem_cons_of_mem a isElement)

/-- Where every part is at the front of another, the whole is the same if every part is. -/
theorem flatMap_eq_flatMap_iff (front : ∀ a ∈ as, f a <+: g a) :
    as.flatMap f = as.flatMap g ↔ ∀ a ∈ as, f a = g a := by
  induction as with
  | nil => exact ⟨fun _ _ isElement => absurd isElement List.not_mem_nil, fun _ => rfl⟩
  | cons a as inductionHypothesis =>
      have others : ∀ a' ∈ as, f a' <+: g a' :=
        fun a' isElement => front a' (List.mem_cons_of_mem a isElement)
      obtain ⟨more, first⟩ := front a List.mem_cons_self
      rw [List.flatMap_cons, List.flatMap_cons, List.forall_mem_cons, ← inductionHypothesis others,
        ← first, List.append_assoc, List.append_cancel_left_eq]
      constructor
      · intro same
        have longer := (flatMap_sublist_flatMap others).length_le
        rw [same, List.length_append] at longer
        obtain rfl : more = [] := List.eq_nil_of_length_eq_zero (by omega)
        exact ⟨(List.append_nil _).symm, same⟩
      · intro holds
        obtain ⟨whole, same⟩ := holds
        obtain rfl := List.append_right_eq_self.mp whole.symm
        exact same

end Parts

namespace Packet

/-- The number of notifications in an event packet, and the bytes that hold them. -/
def events? (p : Packet) : Option (Nat × Bytes) :=
  match p.kind with
  | .command 64 100 => (Layout.eventCount p.payload).toOption
  | _ => none

/-- The notifications of a packet, up to the first that cannot be read. -/
def announced (p : Packet) : List NativeEvent :=
  match p.events? with
  | some (n, body) => Layout.event.front n body
  | none => []

/-- One of the notifications cannot be read. -/
def spoiled (p : Packet) : Bool :=
  match p.events? with
  | some (n, _) => p.announced.length < n
  | none => false

/-- All that a packet announces or nothing. -/
def passed (p : Packet) : List NativeEvent := if p.spoiled then [] else p.announced

section Composite

variable {id : UInt32} {payload : Bytes}

theorem passed_of_read {es : List NativeEvent} (read : Layout.events? payload = .ok es) :
    passed ⟨id, .command 64 100, payload⟩ = es := by
  obtain ⟨n, body, counted, same, length⟩ := Layout.events?_eq_ok_iff.mp read
  simp [passed, spoiled, announced, events?, counted, same, length, Except.toOption]

theorem passed_of_unread {e : NativeError} (unread : Layout.events? payload = .error e) :
    passed ⟨id, .command 64 100, payload⟩ = [] := by
  cases counted : Layout.eventCount payload with
  | error e => simp [passed, spoiled, announced, events?, counted, Except.toOption]
  | ok result =>
      obtain ⟨n, body⟩ := result
      have missing : (Layout.event.front n body).length ≠ n := by
        intro length
        rw [Layout.events?_eq_ok_iff.mpr ⟨n, body, counted, rfl, length⟩] at unread
        cases unread
      have less : (Layout.event.front n body).length < n :=
        Nat.lt_of_le_of_ne (Layout.length_front_le _ n body) missing
      simp [passed, spoiled, announced, events?, counted, less, Except.toOption]

theorem passed_of_other {kind : PacketKind} (other : kind ≠ .command 64 100) :
    passed ⟨id, kind, payload⟩ = [] := by
  have nothing : events? ⟨id, kind, payload⟩ = none := by
    unfold events?
    split
    · exact absurd ‹_› other
    · rfl
  simp [passed, spoiled, announced, nothing]

/-- Notifications in front of bytes that nobody can read are announced, and nothing of them is
passed on. -/
theorem passed_of_written {es : List NativeEvent} (fits : ∀ e ∈ es, e.Fits) {n : Nat}
    (few : n < 2 ^ 31) (more : es.length < n) {bad : Bytes} {e : NativeError}
    (unreadable : Layout.event.read bad = .error e)
    (written : payload =
      Layout.u32.put n.toUInt32 ++ (es.flatMap Layout.event.put ++ bad)) :
    announced ⟨id, .command 64 100, payload⟩ = es ∧
      passed ⟨id, .command 64 100, payload⟩ = [] := by
  subst written
  have counted := Layout.eventCount_written few (es.flatMap Layout.event.put ++ bad)
  have front : Layout.event.front n (es.flatMap Layout.event.put ++ bad) = es :=
    Layout.front_flatMap (fun e isElement => Layout.readsBack_event (fits e isElement)) more
      unreadable
  constructor
  · simp [announced, events?, counted, front, Except.toOption]
  · simp [passed, spoiled, announced, events?, counted, front, more, Except.toOption]

end Composite

theorem passed_eq_announced_iff {p : Packet} :
    p.passed = p.announced ↔ (p.spoiled → p.announced = []) := by
  unfold passed
  split
  case isTrue isSpoiled => exact ⟨fun same _ => same.symm, fun nothing => (nothing isSpoiled).symm⟩
  case isFalse whole => exact ⟨fun _ isSpoiled => absurd isSpoiled whole, fun _ => rfl⟩

theorem passed_isPrefix (p : Packet) : p.passed <+: p.announced := by
  unfold passed
  split
  · exact List.nil_prefix
  · exact List.prefix_rfl

end Packet

/-- The notifications among what arrives. -/
def notifications (deliveries : List Delivery) : List NativeEvent :=
  deliveries.flatMap fun
    | .notified events => events
    | .reply .. | .lost _ => []

@[simp] theorem notifications_append (ds ds' : List Delivery) :
    notifications (ds ++ ds') = notifications ds ++ notifications ds' :=
  List.flatMap_append

@[simp] theorem notifications_lost (ids : List UInt32) : notifications (ids.map .lost) = [] := by
  induction ids with
  | nil => rfl
  | cons id ids inductionHypothesis => exact inductionHypothesis

namespace Connection

/-- One packet. -/
theorem notifications_accept (c : Connection) (p : Packet) :
    notifications (c.accept p).2 = p.passed := by
  obtain ⟨id, kind, payload⟩ := p
  by_cases composite : kind = .command 64 100
  · subst composite
    cases found : Layout.events? payload with
    | ok es =>
        rw [Packet.passed_of_read found]
        simp [accept, found, notifications]
    | error e =>
        rw [Packet.passed_of_unread found]
        simp [accept, found, notifications]
  · rw [Packet.passed_of_other composite]
    unfold accept
    split
    · split <;> rfl
    · exact absurd ‹_› composite
    · rfl

/-- The packets of a run, one after another. -/
theorem notifications_acceptAll (c : Connection) (ps : List Packet) :
    notifications (c.acceptAll ps).2 = ps.flatMap Packet.passed := by
  induction ps generalizing c with
  | nil => rfl
  | cons p ps inductionHypothesis =>
      rw [acceptAll, List.flatMap_cons, notifications_append, notifications_accept,
        inductionHypothesis]

theorem notifications_receive {c : Connection} (isOpen : c.isOpen = true) (bytes : Bytes) :
    notifications (c.receive bytes).2 =
      (packetsOf (c.buffer ++ bytes)).1.flatMap Packet.passed := by
  unfold receive
  rw [if_pos isOpen]
  dsimp only
  split
  · rw [notifications_acceptAll]
  · rw [finish, notifications_append, notifications_acceptAll, notifications_lost,
      List.append_nil]

/-- An open connection passes on the event packets that can be read to their end. So all that the
packets announce arrives unless one of them has a notification that cannot be read behind one that
can. -/
theorem notifications_receive_iff {c : Connection} (isOpen : c.isOpen = true) (bytes : Bytes) :
    notifications (c.receive bytes).2 =
        (packetsOf (c.buffer ++ bytes)).1.flatMap Packet.passed ∧
      (notifications (c.receive bytes).2 =
          (packetsOf (c.buffer ++ bytes)).1.flatMap Packet.announced ↔
        ∀ p ∈ (packetsOf (c.buffer ++ bytes)).1, p.spoiled → p.announced = []) := by
  rw [notifications_receive isOpen]
  refine ⟨rfl, (flatMap_eq_flatMap_iff fun p _ => p.passed_isPrefix).trans ?_⟩
  simp only [Packet.passed_eq_announced_iff]

/-- A break of thread 7, and then a notification of a kind that nobody knows. -/
def breakAndUnknown : Bytes :=
  [0, 0, 0, 21, 0, 0, 0, 1, 0, 64, 100, 0, 0, 0, 2, 10, 0, 0, 0, 7, 200]

theorem packetsOf_breakAndUnknown : packetsOf breakAndUnknown =
    ([⟨1, .command 64 100, [0, 0, 0, 2, 10, 0, 0, 0, 7, 200]⟩], [], true) := by
  have none : packetsOf [] = ([], [], true) := by
    rw [packetsOf]
    rfl
  rw [packetsOf]
  simp only [show nextPacket breakAndUnknown =
    .packet ⟨1, .command 64 100, [0, 0, 0, 2, 10, 0, 0, 0, 7, 200]⟩ [] from rfl, none]
  rfl

theorem notifications_receive_breakAndUnknown :
    let c := start []
    c.isOpen = true ∧
      notifications (c.receive breakAndUnknown).2 =
        (packetsOf (c.buffer ++ breakAndUnknown)).1.flatMap Packet.passed ∧
      (notifications (c.receive breakAndUnknown).2 =
          (packetsOf (c.buffer ++ breakAndUnknown)).1.flatMap Packet.announced ↔
        ∀ p ∈ (packetsOf (c.buffer ++ breakAndUnknown)).1, p.spoiled → p.announced = []) :=
  ⟨rfl, notifications_receive_iff rfl breakAndUnknown⟩

/-- The break was read, but it does not arrive. -/
theorem break_lost : ¬ ∀ (c : Connection) (bytes : Bytes), c.isOpen = true →
    notifications (c.receive bytes).2 =
      (packetsOf (c.buffer ++ bytes)).1.flatMap Packet.announced := by
  intro holds
  have same := holds (start []) breakAndUnknown rfl
  rw [notifications_receive rfl, show (start []).buffer ++ breakAndUnknown = breakAndUnknown from rfl,
    packetsOf_breakAndUnknown] at same
  exact absurd same (by decide)

end Connection

end ManagedDebugger.Wire
