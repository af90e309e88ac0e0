import ManagedDebugger.Proofs.Session.Task
import ManagedDebugger.Proofs.Trace
import ManagedDebugger.Session.Machine

/-!
# Two tasks in any order

Two tasks share a state and their locks, and at any time either of them may go on with its next
operation; only a lock that is taken has to be waited for. What both did in some order is a
schedule, and each task plays its own part of that. The machine that runs the tasks of a session
lets one go on until it has to wait, so it comes to some of these schedules only.
-/

namespace ManagedDebugger

variable {σ ε α β ν : Type}

/-- The state that tasks share, and who holds each lock. -/
structure Shared (σ : Type) where
  state : σ
  holder : Lock → Option TaskId

namespace Shared

/-- Nobody holds a lock. -/
def free (s : σ) : Shared σ := ⟨s, fun _ => none⟩

def hand (c : Shared σ) (lock : Lock) (owner : Option TaskId) : Shared σ :=
  { c with holder := fun other => if other = lock then owner else c.holder other }

/-- A task performs an operation. -/
inductive Performs : Shared σ → TaskId → Exchange (workEffect σ ε) → Shared σ → Prop where
  | eval {c : Shared σ} {t : TaskId} (op : EvalOp) (reply : op.Reply) :
      Performs c t ⟨.eval op, reply⟩ c
  | update {c : Shared σ} {t : TaskId} (f : σ → σ) :
      Performs c t ⟨.update f, c.state⟩ { c with state := f c.state }
  | emit {c : Shared σ} {t : TaskId} (event : ε) : Performs c t ⟨.emit event, ()⟩ c
  | acquire {c : Shared σ} {t : TaskId} (lock : Lock) :
      c.holder lock = none → Performs c t ⟨.acquire lock, ()⟩ (c.hand lock (some t))
  | release {c : Shared σ} {t : TaskId} (lock : Lock) :
      c.holder lock = some t → Performs c t ⟨.release lock, ()⟩ (c.hand lock none)

end Shared

/-- What tasks did, in the order in which it happened. -/
abbrev Schedule (σ ε : Type) := List (TaskId × Exchange (workEffect σ ε))

/-- What one of the tasks did. -/
def Schedule.of (es : Schedule σ ε) (t : TaskId) : List (Exchange (workEffect σ ε)) :=
  es.filterMap fun (owner, x) => if owner = t then some x else none

/-- A schedule takes place from a shared state on. -/
inductive Shared.Goes : Shared σ → Schedule σ ε → Shared σ → Prop where
  | nil (c : Shared σ) : Goes c [] c
  | cons {c c' c'' : Shared σ} {t : TaskId} {x : Exchange (workEffect σ ε)} {es : Schedule σ ε} :
      c.Performs t x c' → Goes c' es c'' → Goes c ((t, x) :: es) c''

namespace Schedule

variable {es : Schedule σ ε} {t : TaskId}

@[simp]
theorem of_nil (t : TaskId) : of ([] : Schedule σ ε) t = [] := rfl

@[simp]
theorem of_append (first second : Schedule σ ε) (t : TaskId) :
    of (first ++ second) t = of first t ++ of second t :=
  List.filterMap_append

theorem of_cons (owner : TaskId) (x : Exchange (workEffect σ ε)) (es : Schedule σ ε)
    (t : TaskId) : of ((owner, x) :: es) t = if owner = t then x :: of es t else of es t := by
  by_cases own : owner = t <;> simp [of, own]

@[simp]
theorem of_cons_self (t : TaskId) (x : Exchange (workEffect σ ε)) (es : Schedule σ ε) :
    of ((t, x) :: es) t = x :: of es t := by
  rw [of_cons, if_pos rfl]

theorem mem_of {x : Exchange (workEffect σ ε)} : x ∈ of es t ↔ (t, x) ∈ es := by
  simp [of, List.mem_filterMap]

/-- The place of something that a task did. -/
theorem of_eq_append_cons {before after : List (Exchange (workEffect σ ε))}
    {x : Exchange (workEffect σ ε)} (whole : of es t = before ++ x :: after) :
    ∃ earlier later, es = earlier ++ (t, x) :: later ∧ of earlier t = before ∧
      of later t = after := by
  induction es generalizing before with
  | nil => simp at whole
  | cons e rest inductionHypothesis =>
      obtain ⟨owner, y⟩ := e
      rw [of_cons] at whole
      split at whole
      case isTrue own =>
        subst own
        cases before with
        | nil =>
            obtain ⟨same, others⟩ := List.cons.inj whole
            subst same others
            exact ⟨[], rest, rfl, rfl, rfl⟩
        | cons z before =>
            obtain ⟨same, others⟩ := List.cons.inj whole
            subst same
            obtain ⟨earlier, later, rfl, first, second⟩ := inductionHypothesis others
            exact ⟨(owner, y) :: earlier, later, rfl, by rw [of_cons_self, first], second⟩
      case isFalse other =>
        obtain ⟨earlier, later, rfl, first, second⟩ := inductionHypothesis whole
        exact ⟨(owner, y) :: earlier, later, rfl, by rw [of_cons, if_neg other, first], second⟩

end Schedule

namespace Shared

variable {c c' c'' : Shared σ} {es more : Schedule σ ε}

theorem Goes.append (first : c.Goes es c') (second : c'.Goes more c'') :
    c.Goes (es ++ more) c'' := by
  induction first with
  | nil c => exact second
  | cons performs _ inductionHypothesis => exact .cons performs (inductionHypothesis second)

theorem goes_append_iff :
    c.Goes (es ++ more) c'' ↔ ∃ c', c.Goes es c' ∧ c'.Goes more c'' := by
  constructor
  · intro goes
    induction es generalizing c with
    | nil => exact ⟨c, .nil c, goes⟩
    | cons e rest inductionHypothesis =>
        cases goes with
        | cons performs goes =>
            obtain ⟨c', first, second⟩ := inductionHypothesis goes
            exact ⟨c', .cons performs first, second⟩
  · intro holds
    obtain ⟨c', first, second⟩ := holds
    exact first.append second

/-- What a task read or changed was the state of that moment. -/
theorem goes_update_iff {t : TaskId} {f : σ → σ} {before : σ} :
    c.Goes (es ++ (t, ⟨.update f, before⟩) :: more) c'' ↔
      ∃ c', c.Goes es c' ∧ c'.state = before ∧
        Goes { c' with state := f c'.state } more c'' := by
  rw [goes_append_iff]
  refine exists_congr fun c' => and_congr_right fun _ => ?_
  constructor
  · intro goes
    cases goes with
    | cons performs goes =>
        cases performs
        exact ⟨rfl, goes⟩
  · rintro ⟨rfl, goes⟩
    exact .cons (.update f) goes

end Shared

/-! ## Parts of the state -/

/-- A part of the state is left as it is. -/
def WorkOp.Keeps (view : σ → ν) : WorkOp σ ε → Prop
  | update f => ∀ s, view (f s) = view s
  | _ => True

namespace Shared

variable {c c' : Shared σ} {es : Schedule σ ε} {view : σ → ν}

theorem Goes.keeps (goes : c.Goes es c') (keep : ∀ t, ∀ x ∈ es.of t, WorkOp.Keeps view x.op) :
    view c'.state = view c.state := by
  induction goes with
  | nil c => rfl
  | @cons c c' c'' t x es performs _ inductionHypothesis =>
      have here : WorkOp.Keeps view x.op := keep t x (by simp)
      have others : ∀ t, ∀ x ∈ es.of t, WorkOp.Keeps view x.op := by
        intro owner y among
        refine keep owner y ?_
        rw [Schedule.mem_of] at among ⊢
        exact List.mem_cons_of_mem _ among
      refine (inductionHypothesis others).trans ?_
      cases performs with
      | update f => exact here c.state
      | eval | emit | acquire | release => rfl

end Shared

/-! ## Locks -/

/-- The operation takes a lock or lets it go. -/
def WorkOp.Uses (lock : Lock) : WorkOp σ ε → Prop
  | acquire other | release other => other = lock
  | _ => False

/-- Whether a task holds a lock after one more operation. -/
def Exchange.holds (lock : Lock) (held : Bool) (x : Exchange (workEffect σ ε)) : Bool :=
  match x.op with
  | .acquire other => if other = lock then true else held
  | .release other => if other = lock then false else held
  | _ => held

/-- Whether a task holds a lock after all that it did. -/
def holdsAfter (lock : Lock) (xs : List (Exchange (workEffect σ ε))) : Bool :=
  xs.foldl (Exchange.holds lock) false

theorem Exchange.holds_of_not_uses {lock : Lock} {held : Bool} {x : Exchange (workEffect σ ε)}
    (other : ¬ x.op.Uses lock) : x.holds lock held = held := by
  unfold Exchange.holds
  split
  · next other' same => exact if_neg fun own => other (by rw [same]; exact own)
  · next other' same => exact if_neg fun own => other (by rw [same]; exact own)
  · rfl

theorem foldl_holds_of_not_uses {lock : Lock} {held : Bool}
    {xs : List (Exchange (workEffect σ ε))} (others : ∀ x ∈ xs, ¬ x.op.Uses lock) :
    xs.foldl (Exchange.holds lock) held = held := by
  induction xs with
  | nil => rfl
  | cons x rest inductionHypothesis =>
      obtain ⟨here, others⟩ := List.forall_mem_cons.mp others
      rw [List.foldl_cons, Exchange.holds_of_not_uses here]
      exact inductionHypothesis others

theorem Shared.Performs.holder {c c' : Shared σ} {owner : TaskId} {x : Exchange (workEffect σ ε)}
    {lock : Lock} {held : TaskId → Bool} (performs : c.Performs owner x c')
    (agree : ∀ t, c.holder lock = some t ↔ held t = true) (t : TaskId) :
    c'.holder lock = some t ↔ (if owner = t then x.holds lock (held t) else held t) = true := by
  cases performs with
  | eval op reply => simpa [Exchange.holds] using agree t
  | update f => simpa [Exchange.holds] using agree t
  | emit event => simpa [Exchange.holds] using agree t
  | acquire other free =>
      by_cases same : other = lock
      · subst same
        have unheld : held t = false := by simpa [free] using agree t
        by_cases own : owner = t <;> simp [Shared.hand, Exchange.holds, own, unheld]
      · simpa [Shared.hand, Exchange.holds, same, Ne.symm same] using agree t
  | release other taken =>
      by_cases same : other = lock
      · subst same
        have agree := agree t
        rw [taken] at agree
        by_cases own : owner = t
        · simp [Shared.hand, Exchange.holds, own]
        · have unheld : held t = false := by simpa [own] using agree
          simp [Shared.hand, own, unheld]
      · simpa [Shared.hand, Exchange.holds, same, Ne.symm same] using agree t

/-- The holder of a lock is the task that holds it by its own account. -/
theorem Shared.Goes.holder {c c' : Shared σ} {es : Schedule σ ε} {lock : Lock}
    {held : TaskId → Bool} (goes : c.Goes es c')
    (agree : ∀ t, c.holder lock = some t ↔ held t = true) (t : TaskId) :
    c'.holder lock = some t ↔ (es.of t).foldl (Exchange.holds lock) (held t) = true := by
  induction goes generalizing held with
  | nil c => exact agree t
  | cons performs _ inductionHypothesis =>
      rw [inductionHypothesis (performs.holder agree), Schedule.of_cons]
      split <;> rfl

theorem Shared.Goes.holder_of_free {s : σ} {c : Shared σ} {es : Schedule σ ε} {lock : Lock}
    (goes : (Shared.free s).Goes es c) (t : TaskId) :
    c.holder lock = some t ↔ holdsAfter lock (es.of t) = true := by
  have unheld (t : TaskId) : (Shared.free s).holder lock = some t ↔
      (fun _ => false : TaskId → Bool) t = true := by simp [Shared.free]
  exact goes.holder unheld t

/-- A lock is taken. -/
abbrev Exchange.taken (lock : Lock) : Exchange (workEffect σ ε) := ⟨.acquire lock, ()⟩

abbrev Exchange.letGo (lock : Lock) : Exchange (workEffect σ ε) := ⟨.release lock, ()⟩

/-- A task holds a lock once. -/
structure Guards (lock : Lock) (xs before inside after : List (Exchange (workEffect σ ε))) :
    Prop where
  whole : xs = before ++ .taken lock :: (inside ++ .letGo lock :: after)
  before : ∀ x ∈ before, ¬ x.op.Uses lock
  inside : ∀ x ∈ inside, ¬ x.op.Uses lock
  after : ∀ x ∈ after, ¬ x.op.Uses lock

namespace Guards

variable {lock : Lock} {xs before inside after trace : List (Exchange (workEffect σ ε))}

/-- As long as a task does not hold the lock, it has not taken it yet or has let it go. -/
theorem of_not_held (guards : Guards lock xs before inside after) (earlier : trace <+: xs)
    (unheld : holdsAfter lock trace = false) :
    trace <+: before ∨
      ∃ rest, trace = before ++ .taken lock :: (inside ++ .letGo lock :: rest) := by
  rw [guards.whole, prefix_append_iff] at earlier
  rcases earlier with within | ⟨rest, beyond, rfl⟩
  · exact .inl within
  · rcases List.prefix_cons_iff.mp beyond with rfl | ⟨rest, rfl, later⟩
    · exact .inl (by simp)
    · have held {part : List (Exchange (workEffect σ ε))} (within : part <+: inside) :
          holdsAfter lock (before ++ .taken lock :: part) = true := by
        rw [holdsAfter, List.foldl_append, List.foldl_cons]
        refine (foldl_holds_of_not_uses fun x among => ?_).trans (if_pos rfl)
        exact guards.inside x (within.subset among)
      rcases prefix_append_iff.mp later with within | ⟨rest, further, rfl⟩
      · rw [held within] at unheld
        cases unheld
      · rcases List.prefix_cons_iff.mp further with rfl | ⟨rest, rfl, -⟩
        · rw [List.append_nil, held (List.prefix_refl inside)] at unheld
          cases unheld
        · exact .inr ⟨rest, rfl⟩

end Guards

namespace Shared.Goes

variable {s : σ} {c : Shared σ} {es : Schedule σ ε} {lock : Lock}
  {before inside after : TaskId → List (Exchange (workEffect σ ε))}

/-- When a task lets the lock go, the other one has not taken it yet or has let it go. -/
theorem at_release (goes : (Shared.free s).Goes es c)
    (guards : ∀ t, Guards lock (es.of t) (before t) (inside t) (after t)) (t : TaskId) :
    ∃ earlier later : Schedule σ ε, es = earlier ++ (t, .letGo lock) :: later ∧
      earlier.of t = before t ++ .taken lock :: inside t ∧ later.of t = after t ∧
      (earlier.of t.other <+: before t.other ∨ ∃ rest, earlier.of t.other =
        before t.other ++ .taken lock :: (inside t.other ++ .letGo lock :: rest)) := by
  have whole : es.of t = (before t ++ .taken lock :: inside t) ++ .letGo lock :: after t := by
    rw [(guards t).whole]
    simp
  obtain ⟨earlier, later, rfl, own, rest⟩ := Schedule.of_eq_append_cons whole
  refine ⟨earlier, later, rfl, own, rest, ?_⟩
  obtain ⟨c', first, second⟩ := goes_append_iff.mp goes
  have holder : c'.holder lock = some t := by
    cases second with
    | cons performs _ =>
        cases performs
        assumption
  refine (guards t.other).of_not_held ?_ ?_
  · rw [Schedule.of_append]
    exact List.prefix_append _ _
  · rw [← Bool.not_eq_true, ← first.holder_of_free, holder]
    cases t <;> exact nofun

/-- Of two tasks that hold a lock once each, one lets it go before the other takes it. -/
theorem apart (goes : (Shared.free s).Goes es c)
    (guards : ∀ t, Guards lock (es.of t) (before t) (inside t) (after t)) :
    ∃ t, ∃ earlier later : Schedule σ ε, es = earlier ++ (t, .letGo lock) :: later ∧
      earlier.of t = before t ++ .taken lock :: inside t ∧ later.of t = after t ∧
      earlier.of t.other <+: before t.other := by
  obtain ⟨earlier, later, split, own, rest, within | ⟨beyond, past⟩⟩ :=
    goes.at_release guards .request
  · exact ⟨.request, earlier, later, split, own, rest, within⟩
  obtain ⟨earlier', later', split', own', rest', within | ⟨beyond', past'⟩⟩ :=
    goes.at_release guards .dispatcher
  · exact ⟨.dispatcher, earlier', later', split', own', rest', within⟩
  -- neither of them can have let the lock go before the other did
  have first : earlier <+: es := ⟨_, split.symm⟩
  have second : earlier' <+: es := ⟨_, split'.symm⟩
  rcases List.prefix_or_prefix_of_prefix first second with ⟨more, same⟩ | ⟨more, same⟩
  · rw [← same, Schedule.of_append] at own'
    have lengths := congrArg List.length (past ▸ own')
    simp [TaskId.other] at lengths
  · rw [← same, Schedule.of_append] at own
    have lengths := congrArg List.length (past' ▸ own)
    simp [TaskId.other] at lengths

end Shared.Goes

/-! ## Work on a part of the state -/

/-- What holds of a task and of the other one holds of both. -/
theorem TaskId.forall_of_other {P : TaskId → Prop} {t : TaskId} (own : P t) (other : P t.other) :
    ∀ t, P t := by
  intro t'
  cases t <;> cases t' <;> assumption

namespace Shared.Goes

variable {c c' : Shared σ} {es : Schedule σ ε} {t : TaskId} {view : σ → ν} {f : σ → σ} {seen : σ}
  {pre post : List (Exchange (workEffect σ ε))}

/-- A task finds a part of the state as it was if nobody has touched that. -/
theorem reads (goes : c.Goes es c') (own : es.of t = pre ++ ⟨.update f, seen⟩ :: post)
    (quiet : ∀ x ∈ pre, WorkOp.Keeps view x.op)
    (others : ∀ x ∈ es.of t.other, WorkOp.Keeps view x.op) : view seen = view c.state := by
  obtain ⟨earlier, later, rfl, rfl, -⟩ := Schedule.of_eq_append_cons own
  obtain ⟨c₁, first, rfl, -⟩ := goes_update_iff.mp goes
  refine first.keeps (TaskId.forall_of_other quiet fun x among => others x ?_)
  rw [Schedule.of_append]
  exact List.mem_append_left _ among

/-- A single change of a part of the state is what becomes of it. -/
theorem changes (goes : c.Goes es c') (own : es.of t = pre ++ ⟨.update f, seen⟩ :: post)
    (quiet : ∀ x ∈ post, WorkOp.Keeps view x.op)
    (others : ∀ x ∈ es.of t.other, WorkOp.Keeps view x.op) : view c'.state = view (f seen) := by
  obtain ⟨earlier, later, rfl, -, rfl⟩ := Schedule.of_eq_append_cons own
  obtain ⟨c₁, -, rfl, second⟩ := goes_update_iff.mp goes
  refine second.keeps (TaskId.forall_of_other quiet fun x among => others x ?_)
  rw [Schedule.of_append, Schedule.of_cons]
  refine List.mem_append_right _ ?_
  split
  · exact List.mem_cons_of_mem _ among
  · exact among

end Shared.Goes

/-- A task reads a part of the state, makes calls, and stores what has become of that part, and it
holds a lock from the first to the last of this. -/
structure Critical (σ ε : Type) {ν : Type} (lock : Lock) (view : σ → ν) where
  before : List (Exchange (workEffect σ ε))
  seen : σ
  calls : List (Exchange evalEffect)
  put : σ → σ
  replaced : σ
  after : List (Exchange (workEffect σ ε))
  apart : ∀ x ∈ before ++ after, WorkOp.Keeps view x.op ∧ ¬ x.op.Uses lock
  overwrites : ∀ s s', view (put s) = view (put s')

namespace Critical

variable {lock : Lock} {view : σ → ν}

/-- What is left of the part of the state. -/
def stored (critical : Critical σ ε lock view) : ν := view (critical.put critical.replaced)

/-- What happens while the lock is held. -/
def inside (critical : Critical σ ε lock view) : List (Exchange (workEffect σ ε)) :=
  ⟨.update fun s => s, critical.seen⟩ ::
    (critical.calls.map .ofEval ++ [⟨.update critical.put, critical.replaced⟩])

def trace (critical : Critical σ ε lock view) : List (Exchange (workEffect σ ε)) :=
  critical.before ++ .taken lock :: (critical.inside ++ .letGo lock :: critical.after)

theorem guards (critical : Critical σ ε lock view) :
    Guards lock critical.trace critical.before critical.inside critical.after where
  whole := rfl
  before := fun x among => (critical.apart x (List.mem_append_left _ among)).2
  inside := by
    refine List.forall_mem_cons.mpr ⟨id, List.forall_mem_append.mpr ⟨fun x among => ?_, ?_⟩⟩
    · obtain ⟨y, -, rfl⟩ := List.mem_map.mp among
      exact id
    · exact List.forall_mem_singleton.mpr id
  after := fun x among => (critical.apart x (List.mem_append_right _ among)).2

theorem keeps_before (critical : Critical σ ε lock view) :
    ∀ x ∈ critical.before ++ [.taken lock], WorkOp.Keeps view x.op := by
  refine List.forall_mem_append.mpr ⟨fun x among => ?_, List.forall_mem_singleton.mpr trivial⟩
  exact (critical.apart x (List.mem_append_left _ among)).1

theorem keeps_after (critical : Critical σ ε lock view) :
    ∀ x ∈ .letGo lock :: critical.after, WorkOp.Keeps view x.op := by
  refine List.forall_mem_cons.mpr ⟨trivial, fun x among => ?_⟩
  exact (critical.apart x (List.mem_append_right _ among)).1

end Critical

/-- The task that is the first to take a lock. -/
def Schedule.firstToTake (lock : Lock) (es : Schedule σ ε) : Option TaskId :=
  es.findSome? fun (t, x) => match x.op with
    | .acquire other => if other = lock then some t else none
    | _ => none

theorem Schedule.firstToTake_of_not_uses {lock : Lock} {es : Schedule σ ε}
    (others : ∀ t, ∀ x ∈ es.of t, ¬ x.op.Uses lock) : es.firstToTake lock = none := by
  refine List.findSome?_eq_none_iff.mpr fun ⟨t, x⟩ among => ?_
  have unused := others t x (Schedule.mem_of.mpr among)
  dsimp only
  split
  · next other same =>
      refine if_neg fun own => unused ?_
      rw [same]
      exact own
  · rfl

theorem Schedule.firstToTake_eq {lock : Lock} {t : TaskId} {earlier later : Schedule σ ε}
    (others : ∀ t, ∀ x ∈ earlier.of t, ¬ x.op.Uses lock) :
    (earlier ++ (t, .taken lock) :: later).firstToTake lock = some t := by
  rw [firstToTake, List.findSome?_append, List.findSome?_cons]
  rw [show earlier.findSome? _ = none from firstToTake_of_not_uses others]
  simp

/-- Two tasks work on a part of the state one after the other: the second one begins with what the
first one has left. -/
structure Serial {lock : Lock} {view : σ → ν} (critical : TaskId → Critical σ ε lock view)
    (s : σ) (es : Schedule σ ε) (s' : σ) (t : TaskId) : Prop where
  first : es.firstToTake lock = some t
  reads : view (critical t).seen = view s
  passes : view (critical t.other).seen = (critical t).stored
  leaves : view s' = (critical t.other).stored
  behind : ∃ earlier later : Schedule σ ε,
    es = earlier ++ (t.other, ⟨.update fun s => s, (critical t.other).seen⟩) :: later ∧
      (critical t).before <+: earlier.of t

namespace Shared.Goes

variable {c c' : Shared σ} {es : Schedule σ ε} {t : TaskId} {view : σ → ν} {lock : Lock}
  {pre post : List (Exchange (workEffect σ ε))}

/-- A task that nobody disturbs works on what was there and leaves what it stores. -/
theorem stores {critical : Critical σ ε lock view} (goes : c.Goes es c')
    (own : es.of t = pre ++ (critical.inside ++ post))
    (quiet : ∀ x ∈ pre, WorkOp.Keeps view x.op) (quiet' : ∀ x ∈ post, WorkOp.Keeps view x.op)
    (others : ∀ x ∈ es.of t.other, WorkOp.Keeps view x.op) :
    view critical.seen = view c.state ∧ view c'.state = critical.stored := by
  have last : es.of t = (pre ++ ⟨.update fun s => s, critical.seen⟩ ::
      critical.calls.map .ofEval) ++ ⟨.update critical.put, critical.replaced⟩ :: post := by
    rw [own, Critical.inside]
    simp
  exact ⟨goes.reads own quiet others, goes.changes last quiet' others⟩

/-- What the second of two tasks does after the first one has let the lock go. -/
theorem following {critical : Critical σ ε lock view} {earlier later : Schedule σ ε}
    (whole : Schedule.of (earlier ++ (t, .letGo lock) :: later) t.other = critical.trace)
    {waiting : List (Exchange (workEffect σ ε))}
    (aside : earlier.of t.other ++ waiting = critical.before) :
    later.of t.other = (waiting ++ [.taken lock]) ++ (critical.inside ++ .letGo lock ::
      critical.after) := by
  have different : t ≠ t.other := by cases t <;> exact nofun
  rw [Schedule.of_append, Schedule.of_cons, if_neg different, Critical.trace, ← aside,
    List.append_assoc] at whole
  refine (List.append_cancel_left whole).trans ?_
  simp

theorem serial {s : σ} {critical : TaskId → Critical σ ε lock view}
    (goes : (Shared.free s).Goes es c) (whole : ∀ t, es.of t = (critical t).trace) :
    ∃ t, Serial critical s es c.state t := by
  obtain ⟨t, earlier, later, rfl, own, rest, waiting, aside⟩ :=
    goes.apart fun t => whole t ▸ (critical t).guards
  have again : t.other.other = t := by cases t <;> rfl
  have different : t ≠ t.other := by cases t <;> exact nofun
  have within : ∀ x ∈ earlier.of t.other, x ∈ (critical t.other).before := fun x among =>
    aside ▸ List.mem_append_left _ among
  have after := following (whole t.other) aside
  obtain ⟨c₁, goes₁, goes₂⟩ := goes_append_iff.mp goes
  -- until then the other task waits for the lock at most
  obtain ⟨reads, passes⟩ : view (critical t).seen = view s ∧
      view c₁.state = (critical t).stored := by
    have alone : earlier.of t = ((critical t).before ++ [.taken lock]) ++
        ((critical t).inside ++ []) := by simp [own]
    refine goes₁.stores alone (critical t).keeps_before (List.forall_mem_nil _) fun x among => ?_
    exact (critical t.other).keeps_before x (List.mem_append_left _ (within x among))
  -- from then on the first task does not touch this part any more
  obtain ⟨passes', leaves⟩ : view (critical t.other).seen = view c₁.state ∧
      view c.state = (critical t.other).stored := by
    have alone : Schedule.of ((t, .letGo lock) :: later) t.other = _ :=
      (Schedule.of_cons t _ later t.other).trans (if_neg different) |>.trans after
    refine goes₂.stores alone (fun x among => ?_) (critical t.other).keeps_after ?_
    · refine (critical t.other).keeps_before x ?_
      rw [← aside, List.append_assoc]
      exact List.mem_append_right _ among
    · rw [again, Schedule.of_cons_self, rest]
      exact (critical t).keeps_after
  refine ⟨t, ?_, reads, passes'.trans passes, leaves, ?_⟩
  · obtain ⟨e₁, e₂, rfl, before, -⟩ := Schedule.of_eq_append_cons own
    rw [List.append_assoc]
    refine Schedule.firstToTake_eq (TaskId.forall_of_other (before ▸ (critical t).guards.before) ?_)
    intro x among
    refine (critical t.other).guards.before x (within x ?_)
    rw [Schedule.of_append]
    exact List.mem_append_left _ among
  · obtain ⟨l₁, l₂, rfl, -, -⟩ := Schedule.of_eq_append_cons after
    refine ⟨earlier ++ (t, .letGo lock) :: l₁, l₂, by simp, ?_⟩
    rw [Schedule.of_append, own, List.append_assoc]
    exact List.prefix_append _ _

end Shared.Goes

/-! ## Running a schedule -/

namespace Shared

variable (replies : (op : EvalOp) → op.Reply)

/-- The next operation of a task, unless it is over or has to wait for a lock. -/
def next? (c : Shared σ) (t : TaskId) :
    Job σ ε α → Option (Exchange (workEffect σ ε) × Shared σ × Job σ ε α)
  | .done _ => none
  | .perform (.eval op) next => some (⟨.eval op, replies op⟩, c, next (replies op))
  | .perform (.update f) next =>
    some (⟨.update f, c.state⟩, { c with state := f c.state }, next c.state)
  | .perform (.emit event) next => some (⟨.emit event, ()⟩, c, next ())
  | .perform (.acquire lock) next =>
    if c.holder lock = none then some (.taken lock, c.hand lock (some t), next ()) else none
  | .perform (.release lock) next =>
    if c.holder lock = some t then some (.letGo lock, c.hand lock none, next ()) else none

/-- The result of a task that is over. -/
def result? : Job σ ε α → Option α
  | .done a => some a
  | .perform .. => none

/-- Lets two tasks go on in turns. -/
def run : List TaskId → Shared σ → Job σ ε α → Job σ ε β →
    Schedule σ ε × Shared σ × Job σ ε α × Job σ ε β
  | [], c, p, q => ([], c, p, q)
  | .request :: turns, c, p, q =>
    match c.next? replies .request p with
    | none => run turns c p q
    | some (x, c, p) =>
      let (es, ended) := run turns c p q
      ((.request, x) :: es, ended)
  | .dispatcher :: turns, c, p, q =>
    match c.next? replies .dispatcher q with
    | none => run turns c p q
    | some (x, c, q) =>
      let (es, ended) := run turns c p q
      ((.dispatcher, x) :: es, ended)

variable {replies} {c c' : Shared σ} {t : TaskId} {p p' : Job σ ε α} {q : Job σ ε β}
  {x : Exchange (workEffect σ ε)} {turns : List TaskId}

/-- What a task does next. -/
structure Next (replies : (op : EvalOp) → op.Reply) (c : Shared σ) (t : TaskId) (p : Job σ ε α)
    (x : Exchange (workEffect σ ε)) (c' : Shared σ) (p' : Job σ ε α) : Prop where
  performs : c.Performs t x c'
  replied : ∀ op reply, x = ⟨.eval op, reply⟩ → reply = replies op
  plays : ∀ es a, p'.Plays es a → p.Plays (x :: es) a

theorem next_of_next? (goesOn : c.next? replies t p = some (x, c', p')) :
    Next replies c t p x c' p' := by
  have silent {op : WorkOp σ ε} {reply : op.Reply} (noEval : ∀ op', op ≠ .eval op') :
      ∀ op' reply', (⟨op, reply⟩ : Exchange (workEffect σ ε)) = ⟨.eval op', reply'⟩ →
        reply' = replies op' :=
    fun op' _ same => absurd (congrArg Exchange.op same) (noEval op')
  unfold next? at goesOn
  split at goesOn
  · cases goesOn
  · cases goesOn
    refine ⟨.eval _ _, fun _ _ same => ?_, fun es _ played => ?_⟩
    · cases same
      rfl
    · exact Program.plays_perform_iff.mpr ⟨_, es, rfl, played⟩
  · cases goesOn
    refine ⟨.update _, silent (fun _ => by simp), fun es _ played => ?_⟩
    exact Program.plays_perform_iff.mpr ⟨_, es, rfl, played⟩
  · cases goesOn
    refine ⟨.emit _, silent (fun _ => by simp), fun es _ played => ?_⟩
    exact Program.plays_perform_iff.mpr ⟨_, es, rfl, played⟩
  · split at goesOn
    · next unheld =>
        cases goesOn
        refine ⟨.acquire _ unheld, silent (fun _ => by simp), fun es _ played => ?_⟩
        exact Program.plays_perform_iff.mpr ⟨_, es, rfl, played⟩
    · cases goesOn
  · split at goesOn
    · next held =>
        cases goesOn
        refine ⟨.release _ held, silent (fun _ => by simp), fun es _ played => ?_⟩
        exact Program.plays_perform_iff.mpr ⟨_, es, rfl, played⟩
    · cases goesOn

/-- With what comes later, all replies are as given. -/
theorem Next.replied_cons {es : Schedule σ ε} (next : Next replies c t p x c' p')
    (later : ∀ t' op reply, (t', ⟨.eval op, reply⟩) ∈ es → reply = replies op) (t' : TaskId)
    (op : EvalOp) (reply : op.Reply) (among : (t', ⟨.eval op, reply⟩) ∈ (t, x) :: es) :
    reply = replies op := by
  rcases List.mem_cons.mp among with same | among
  · exact next.replied op reply (Prod.mk.inj same).2.symm
  · exact later t' op reply among

/-- What is run takes place, and both tasks play their parts of it. -/
structure Ran (replies : (op : EvalOp) → op.Reply) (c : Shared σ) (p : Job σ ε α) (q : Job σ ε β)
    (ran : Schedule σ ε × Shared σ × Job σ ε α × Job σ ε β) : Prop where
  goes : c.Goes ran.1 ran.2.1
  replied : ∀ t op reply, (t, ⟨.eval op, reply⟩) ∈ ran.1 → reply = replies op
  request : ∀ es a, ran.2.2.1.Plays es a → p.Plays (ran.1.of .request ++ es) a
  dispatcher : ∀ es b, ran.2.2.2.Plays es b → q.Plays (ran.1.of .dispatcher ++ es) b

theorem ran_run (turns : List TaskId) (c : Shared σ) (p : Job σ ε α) (q : Job σ ε β) :
    Ran replies c p q (run replies turns c p q) := by
  induction turns generalizing c p q with
  | nil =>
      refine ⟨.nil c, fun t op reply among => ?_, fun _ _ => id, fun _ _ => id⟩
      exact absurd among List.not_mem_nil
  | cons t turns inductionHypothesis =>
      cases t with
      | request =>
          rw [run]
          split
          · exact inductionHypothesis c p q
          · next x c' p' goesOn =>
              have first := next_of_next? goesOn
              obtain ⟨goes, later, request, dispatcher⟩ := inductionHypothesis c' p' q
              refine ⟨.cons first.performs goes, first.replied_cons later,
                fun es a played => ?_, ?_⟩
              · rw [Schedule.of_cons_self]
                exact first.plays _ a (request es a played)
              · rwa [Schedule.of_cons, if_neg nofun]
      | dispatcher =>
          rw [run]
          split
          · exact inductionHypothesis c p q
          · next x c' q' goesOn =>
              have first := next_of_next? goesOn
              obtain ⟨goes, later, request, dispatcher⟩ := inductionHypothesis c' p q'
              refine ⟨.cons first.performs goes, first.replied_cons later,
                ?_, fun es b played => ?_⟩
              · rwa [Schedule.of_cons, if_neg nofun]
              · rw [Schedule.of_cons_self]
                exact first.plays _ b (dispatcher es b played)

theorem plays_of_result? {a : α} (ended : result? p = some a) : p.Plays [] a := by
  cases p with
  | done b =>
      obtain rfl := Option.some.inj ended
      exact .done b
  | perform op next => cases ended

end Shared

end ManagedDebugger
