import ManagedDebugger.Proofs.Wire.EventPackets

/-!
# Numbers of elements that cannot be

A sequence comes with the number of its elements in front, which may be anything. A list is refused
for a number below zero or beyond the rest of the payload, since each element takes a byte at least,
and nothing is done for it before that. The notifications of an event packet are refused at once for
a number below zero only: for one that is too large there is room made for as many, and then they
are read, until the payload ends or something in it cannot be read.
-/

namespace ManagedDebugger.Wire

namespace Layout

/-! ## Readings step by step -/

/-- A step in the reading of a sequence. -/
inductive ReadingStep (α : Type) where
  /-- Room for so many elements is set aside. -/
  | reserve (room : Nat)
  | element (a : α)
  /-- The next element cannot be read. -/
  | fault
  deriving DecidableEq, Repr

/-- The steps of a reading, and what it comes to. -/
structure Reading (α : Type) where
  steps : List (ReadingStep α)
  outcome : Except NativeError (List α × Bytes)

variable {α : Type}

/-- The reading of a number of elements. -/
def itemReading (l : Layout α) : Nat → Bytes → Reading α
  | 0, bs => ⟨[], .ok ([], bs)⟩
  | n + 1, bs =>
    match l.read bs with
    | .error e => ⟨[.fault], .error e⟩
    | .ok (a, rest) =>
      let others := l.itemReading n rest
      ⟨.element a :: others.steps, others.outcome.map fun r => (a :: r.1, r.2)⟩

/-- The reading of a sequence: the number of elements is read and examined, then room is made for
them, then they are read. -/
def sequenceReading (number : Reader Nat) (l : Layout α) (payload : Bytes) : Reading α :=
  match number payload with
  | .error e => ⟨[], .error e⟩
  | .ok (n, body) =>
    let elements := l.itemReading n body
    ⟨.reserve n :: elements.steps, elements.outcome⟩

/-- A list in a payload, step by step. -/
def listReading (l : Layout α) : Bytes → Reading α := sequenceReading count l

/-- The notifications of an event packet, step by step. -/
def eventReading : Bytes → Reading NativeEvent := sequenceReading eventCount event

theorem outcome_itemReading (l : Layout α) (n : Nat) (bs : Bytes) :
    (l.itemReading n bs).outcome = l.items n bs := by
  induction n generalizing bs with
  | zero => rfl
  | succ n inductionHypothesis =>
      cases found : l.read bs with
      | error e =>
          have failed : l.items (n + 1) bs = .error e := bind_of_error found
          rw [failed, itemReading, found]
      | ok result =>
          obtain ⟨a, rest⟩ := result
          have next : l.items (n + 1) bs = (l.items n >>= fun as => pure (a :: as)) rest :=
            bind_of_ok found
          rw [next, itemReading, found]
          simp only [inductionHypothesis]
          cases others : l.items n rest with
          | error e => exact (bind_of_error others).symm
          | ok result =>
              obtain ⟨as, rest'⟩ := result
              rw [bind_of_ok others]
              rfl

theorem outcome_sequenceReading (number : Reader Nat) (l : Layout α) (payload : Bytes) :
    (sequenceReading number l payload).outcome = (number >>= l.items) payload := by
  unfold sequenceReading
  cases counted : number payload with
  | error e => exact (bind_of_error counted).symm
  | ok result =>
      obtain ⟨n, body⟩ := result
      rw [bind_of_ok counted]
      exact outcome_itemReading l n body

theorem outcome_listReading (l : Layout α) (payload : Bytes) :
    (l.listReading payload).outcome = l.list.read payload :=
  outcome_sequenceReading count l payload

theorem outcome_eventReading (payload : Bytes) :
    (eventReading payload).outcome.map (·.1) = events? payload :=
  congrArg (Except.map (·.1)) (outcome_sequenceReading eventCount event payload)

/-! ## Impossible numbers -/

/-- There are fewer bytes than the declared number of elements, or that is negative. -/
def Impossible (declared : Int32) (body : Bytes) : Prop :=
  declared < 0 ∨ body.length < declared.toInt.toNat

instance (declared : Int32) (body : Bytes) : Decidable (Impossible declared body) :=
  inferInstanceAs (Decidable (_ ∨ _))

/-- Nothing was done before the refusal. -/
def Reading.RefusedAtOnce (r : Reading α) (detail : String) : Prop :=
  r = ⟨[], .error (.protocol detail)⟩

/-- Room was made for all elements, and they were read up to one that cannot be read. -/
def Reading.ReadInVain (r : Reading α) (l : Layout α) (n : Nat) (body : Bytes) : Prop :=
  ∃ rest e, l.items (l.front n body).length body = .ok (l.front n body, rest) ∧
    l.read rest = .error e ∧
    r = ⟨.reserve n :: (l.front n body).map .element ++ [.fault], .error e⟩

theorem listReading_of_impossible (l : Layout α) {payload body : Bytes} {declared : Int32}
    (number : i32.read payload = .ok (declared, body)) (impossible : Impossible declared body) :
    (l.listReading payload).RefusedAtOnce
      ("Invalid element count: " ++ toString declared.toInt) := by
  have refused : count payload =
      .error (.protocol ("Invalid element count: " ++ toString declared.toInt)) := by
    unfold Impossible at impossible
    refine (bind_of_ok number).trans ((bind_of_ok rfl).trans ?_)
    rw [if_pos impossible]
    rfl
  rw [Reading.RefusedAtOnce, listReading, sequenceReading, refused]

/-- Where each element takes a byte, more elements than bytes are never read. -/
theorem itemReading_of_short {l : Layout α} (delimits : Delimits 1 l.read) {n : Nat} {bs : Bytes}
    (short : bs.length < n) :
    ∃ rest e, l.items (l.front n bs).length bs = .ok (l.front n bs, rest) ∧
      l.read rest = .error e ∧
      l.itemReading n bs = ⟨(l.front n bs).map .element ++ [.fault], .error e⟩ := by
  induction n generalizing bs with
  | zero => exact absurd short (Nat.not_lt_zero _)
  | succ n inductionHypothesis =>
      cases found : l.read bs with
      | error e =>
          refine ⟨bs, e, ?_, found, ?_⟩
          · simp only [front, found]
            rfl
          · simp only [front, itemReading, found]
            rfl
      | ok result =>
          obtain ⟨a, left⟩ := result
          obtain ⟨used, takes, rfl, -⟩ := delimits bs a left found
          rw [List.length_append] at short
          have shorter : left.length < n := by omega
          obtain ⟨rest, e, elements, failed, reading⟩ := inductionHypothesis shorter
          refine ⟨rest, e, ?_, failed, ?_⟩
          · simp only [front, found, List.length_cons]
            exact (bind_of_ok found).trans (bind_of_ok elements)
          · simp only [front, itemReading, found, reading, List.map_cons, List.cons_append]
            rfl

theorem eventReading_of_negative {payload body : Bytes} {declared : Int32}
    (number : i32.read payload = .ok (declared, body)) (negative : declared < 0) :
    (eventReading payload).RefusedAtOnce
      ("Invalid event count: " ++ toString declared.toInt) := by
  have refused : eventCount payload =
      .error (.protocol ("Invalid event count: " ++ toString declared.toInt)) := by
    refine (bind_of_ok number).trans ?_
    rw [if_pos negative]
    rfl
  rw [Reading.RefusedAtOnce, eventReading, sequenceReading, refused]

theorem eventReading_of_short {payload body : Bytes} {declared : Int32}
    (number : i32.read payload = .ok (declared, body)) (positive : ¬ declared < 0)
    (short : body.length < declared.toInt.toNat) :
    (eventReading payload).ReadInVain event declared.toInt.toNat body := by
  have counted : eventCount payload = .ok (declared.toInt.toNat, body) := by
    refine (bind_of_ok number).trans ?_
    rw [if_neg positive]
    rfl
  obtain ⟨rest, e, elements, failed, reading⟩ := itemReading_of_short delimits_event short
  refine ⟨rest, e, elements, failed, ?_⟩
  rw [eventReading, sequenceReading, counted]
  simp only [reading, List.cons_append]

theorem Reading.ReadInVain.not_refusedAtOnce {r : Reading α} {l : Layout α} {n : Nat} {body : Bytes}
    (inVain : r.ReadInVain l n body) (detail : String) : ¬ r.RefusedAtOnce detail := by
  obtain ⟨rest, e, -, -, rfl⟩ := inVain
  intro refused
  cases congrArg Reading.steps refused

/-- A list is refused at once for every impossible number of elements, whatever its elements are. An
event packet is refused at once exactly for those below zero. For those that are too large there is
room made for as many notifications, and the packet fails at the first one that cannot be read, after
all that stand in front of it. -/
theorem impossible_counts (l : Layout α) {payload body : Bytes} {declared : Int32}
    (number : i32.read payload = .ok (declared, body)) (impossible : Impossible declared body) :
    (l.listReading payload).outcome = l.list.read payload ∧
      (eventReading payload).outcome.map (·.1) = events? payload ∧
      (l.listReading payload).RefusedAtOnce
        ("Invalid element count: " ++ toString declared.toInt) ∧
      ((eventReading payload).RefusedAtOnce ("Invalid event count: " ++ toString declared.toInt) ↔
        declared < 0) ∧
      (¬ declared < 0 → (eventReading payload).ReadInVain event declared.toInt.toNat body) := by
  refine ⟨outcome_listReading l payload, outcome_eventReading payload,
    listReading_of_impossible l number impossible, ?_⟩
  by_cases negative : declared < 0
  · have refused := eventReading_of_negative number negative
    exact ⟨⟨fun _ => negative, fun _ => refused⟩, fun positive => absurd negative positive⟩
  · have short := impossible.resolve_left negative
    have inVain := eventReading_of_short number negative short
    refine ⟨⟨fun refused => absurd refused (inVain.not_refusedAtOnce _), ?_⟩, fun _ => inVain⟩
    exact fun isNegative => absurd isNegative negative

/-- More than two billion notifications are announced, and six bytes are left. -/
def billionsAnnounced : Bytes := [0x7f, 0xff, 0xff, 0xff, 3, 3, 3, 3, 3, 3]

theorem impossible_counts_billions :
    i32.read billionsAnnounced = .ok (2147483647, [3, 3, 3, 3, 3, 3]) ∧
      Impossible 2147483647 [3, 3, 3, 3, 3, 3] ∧
      (string.listReading billionsAnnounced).outcome = string.list.read billionsAnnounced ∧
      (eventReading billionsAnnounced).outcome.map (·.1) = events? billionsAnnounced ∧
      (string.listReading billionsAnnounced).RefusedAtOnce "Invalid element count: 2147483647" ∧
      ((eventReading billionsAnnounced).RefusedAtOnce "Invalid event count: 2147483647" ↔
        (2147483647 : Int32) < 0) ∧
      (¬ (2147483647 : Int32) < 0 →
        (eventReading billionsAnnounced).ReadInVain event 2147483647 [3, 3, 3, 3, 3, 3]) := by
  have number : i32.read billionsAnnounced = .ok (2147483647, [3, 3, 3, 3, 3, 3]) := rfl
  have impossible : Impossible 2147483647 [3, 3, 3, 3, 3, 3] := by decide
  exact ⟨number, impossible, impossible_counts string number impossible⟩

/-- Two notifications are announced in front of a single byte: room is made for both, and the byte is
read as the first of them. -/
theorem not_refused_twoAnnounced : ¬ ∀ (payload body : Bytes) (declared : Int32),
    i32.read payload = .ok (declared, body) → Impossible declared body →
    ∃ detail, (eventReading payload).RefusedAtOnce detail := by
  intro holds
  obtain ⟨detail, refused⟩ := holds [0, 0, 0, 2, 3] [3] 2 rfl (by decide)
  have nothing : (eventReading [0, 0, 0, 2, 3]).steps = [] := congrArg Reading.steps refused
  exact absurd nothing (by decide)

end Layout

end ManagedDebugger.Wire
