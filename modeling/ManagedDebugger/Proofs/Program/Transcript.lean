import ManagedDebugger.Program

/-!
# Transcripts of programs

A program plays a transcript: the operations that it performs, one after the other, each with the
reply that it got. Who replies is left open. An environment says which replies are possible in a
state of its own and which state comes after each, so the same transcripts serve for a target that
may do anything, for one whose calls all succeed, and for the state that the tasks of a session
share.
-/

namespace ManagedDebugger

/-- An operation and what was replied to it. -/
structure Exchange (E : Effect) where
  op : E.Op
  reply : E.Reply op

/-- A state, the reply to an operation in it, and a state that may come after it. -/
abbrev Environment (E : Effect) (σ : Type) := σ → Exchange E → σ → Prop

variable {E F : Effect} {σ α β : Type}

namespace Program

inductive Plays : Program E α → List (Exchange E) → α → Prop where
  | done (a : α) : Plays (done a) [] a
  | perform {op : E.Op} {next : E.Reply op → Program E α} {reply : E.Reply op}
      {es : List (Exchange E)} {a : α} :
      Plays (next reply) es a → Plays (perform op next) (⟨op, reply⟩ :: es) a

@[simp]
theorem plays_done_iff {a b : α} {es : List (Exchange E)} :
    (done a : Program E α).Plays es b ↔ es = [] ∧ b = a := by
  constructor
  · intro played
    cases played
    exact ⟨rfl, rfl⟩
  · intro holds
    obtain ⟨rfl, rfl⟩ := holds
    exact .done b

theorem plays_perform_iff {op : E.Op} {next : E.Reply op → Program E α}
    {es : List (Exchange E)} {a : α} :
    (perform op next).Plays es a ↔
      ∃ reply rest, es = ⟨op, reply⟩ :: rest ∧ (next reply).Plays rest a := by
  constructor
  · intro played
    cases played with
    | @perform _ _ reply rest _ continued => exact ⟨reply, rest, rfl, continued⟩
  · intro holds
    obtain ⟨reply, rest, rfl, continued⟩ := holds
    exact .perform continued

theorem plays_bind_iff {p : Program E α} {f : α → Program E β} {es : List (Exchange E)} {b : β} :
    (p.bind f).Plays es b ↔
      ∃ first a second, p.Plays first a ∧ (f a).Plays second b ∧ es = first ++ second := by
  induction p generalizing es with
  | done a =>
      constructor
      · intro played
        exact ⟨[], a, es, .done a, played, rfl⟩
      · intro holds
        obtain ⟨first, a', second, ended, played, rfl⟩ := holds
        obtain ⟨rfl, rfl⟩ := plays_done_iff.mp ended
        exact played
  | perform op next inductionHypothesis =>
      constructor
      · intro played
        obtain ⟨reply, rest, rfl, continued⟩ := plays_perform_iff.mp played
        obtain ⟨first, a, second, left, right, rfl⟩ := (inductionHypothesis reply).mp continued
        exact ⟨⟨op, reply⟩ :: first, a, second, .perform left, right, rfl⟩
      · intro holds
        obtain ⟨first, a, second, left, right, rfl⟩ := holds
        obtain ⟨reply, rest, rfl, continued⟩ := plays_perform_iff.mp left
        exact .perform ((inductionHypothesis reply).mpr ⟨rest, a, second, continued, right, rfl⟩)

theorem Plays.bind {p : Program E α} {f : α → Program E β} {first second : List (Exchange E)}
    {a : α} {b : β} (left : p.Plays first a) (right : (f a).Plays second b) :
    (p.bind f).Plays (first ++ second) b :=
  plays_bind_iff.mpr ⟨first, a, second, left, right, rfl⟩

/-- The replies determine a program: what it plays after a transcript of its first part, its second
part plays. -/
theorem Plays.after {p : Program E α} {f : α → Program E β} {first second : List (Exchange E)}
    {a : α} {b : β} (left : p.Plays first a) (whole : (p.bind f).Plays (first ++ second) b) :
    (f a).Plays second b := by
  induction left with
  | done a => exact whole
  | perform played inductionHypothesis =>
      obtain ⟨reply, rest, agree, whole⟩ := plays_perform_iff.mp whole
      obtain ⟨⟨⟩, rfl⟩ := List.cons.inj agree
      exact inductionHypothesis whole

/-- Each operation carried out by a single one of another kind. -/
theorem plays_translate_iff {t : (op : E.Op) → Program F (E.Reply op)} {g : Exchange E → Exchange F}
    (single : ∀ op reply es, (t op).Plays es reply ↔ es = [g ⟨op, reply⟩]) {p : Program E α}
    {es : List (Exchange F)} {a : α} :
    (p.translate t).Plays es a ↔ ∃ original, p.Plays original a ∧ es = original.map g := by
  induction p generalizing es with
  | done b =>
      constructor
      · intro played
        obtain ⟨rfl, rfl⟩ := plays_done_iff.mp played
        exact ⟨[], .done a, rfl⟩
      · intro holds
        obtain ⟨original, played, rfl⟩ := holds
        obtain ⟨rfl, rfl⟩ := plays_done_iff.mp played
        exact .done a
  | perform op next inductionHypothesis =>
      constructor
      · intro played
        obtain ⟨first, reply, second, asked, continued, rfl⟩ := plays_bind_iff.mp played
        obtain rfl := (single op reply first).mp asked
        obtain ⟨original, replayed, rfl⟩ := (inductionHypothesis reply).mp continued
        exact ⟨⟨op, reply⟩ :: original, .perform replayed, rfl⟩
      · intro holds
        obtain ⟨original, played, rfl⟩ := holds
        obtain ⟨reply, rest, rfl, continued⟩ := plays_perform_iff.mp played
        have asked := (single op reply _).mpr rfl
        exact asked.bind ((inductionHypothesis reply).mpr ⟨rest, continued, rfl⟩)

/-- Whatever is replied, only operations of a kind are performed. -/
def Only (p : Program E α) (kind : E.Op → Prop) : Prop :=
  ∀ es a, p.Plays es a → ∀ x ∈ es, kind x.op

namespace Only

variable {kind : E.Op → Prop}

theorem done (a : α) : (done a : Program E α).Only kind := by
  intro es b played
  obtain ⟨rfl, rfl⟩ := plays_done_iff.mp played
  exact List.forall_mem_nil _

theorem perform {op : E.Op} {next : E.Reply op → Program E α} (here : kind op)
    (continued : ∀ reply, (next reply).Only kind) : (perform op next).Only kind := by
  intro es a played
  obtain ⟨reply, rest, rfl, following⟩ := plays_perform_iff.mp played
  exact List.forall_mem_cons.mpr ⟨here, continued reply rest a following⟩

theorem bind {p : Program E α} {f : α → Program E β} (first : p.Only kind)
    (second : ∀ a, (f a).Only kind) : (p.bind f).Only kind := by
  intro es b played
  obtain ⟨es₁, a, es₂, left, right, rfl⟩ := plays_bind_iff.mp played
  exact List.forall_mem_append.mpr ⟨first es₁ a left, second a es₂ b right⟩

theorem mono {kind' : E.Op → Prop} {p : Program E α} (only : p.Only kind)
    (implied : ∀ op, kind op → kind' op) : p.Only kind' :=
  fun es a played x among => implied x.op (only es a played x among)

/-- A program that may fail goes on only if its first part succeeds. -/
theorem run_bind {ε : Type} {p : ExceptT ε (Program E) α} {f : α → ExceptT ε (Program E) β}
    (first : p.run.Only kind) (second : ∀ a, (f a).run.Only kind) : (p >>= f).run.Only kind := by
  refine first.bind fun result => ?_
  cases result with
  | ok a => exact second a
  | error e => exact .done _

end Only

/-- Whatever is replied, a result has a property. -/
def Returns (p : Program E α) (P : α → Prop) : Prop := ∀ es a, p.Plays es a → P a

theorem returns_done {a : α} {P : α → Prop} (holds : P a) : (done a : Program E α).Returns P := by
  intro es b played
  obtain ⟨rfl, rfl⟩ := plays_done_iff.mp played
  exact holds

theorem Returns.bind {p : Program E α} {f : α → Program E β} {P : α → Prop} {Q : β → Prop}
    (first : p.Returns P) (second : ∀ a, P a → (f a).Returns Q) : (p.bind f).Returns Q := by
  intro es b played
  obtain ⟨es₁, a, es₂, left, right, rfl⟩ := plays_bind_iff.mp played
  exact second a (first es₁ a left) es₂ b right

theorem Returns.mono {p : Program E α} {P Q : α → Prop} (returns : p.Returns P)
    (implied : ∀ a, P a → Q a) : p.Returns Q :=
  fun es a played => implied a (returns es a played)

theorem returns_trivial (p : Program E α) : p.Returns fun _ => True := fun _ _ _ => trivial

/-- What follows a program only matters on its results. -/
theorem Returns.bind_congr {p : Program E α} {f g : α → Program E β} {P : α → Prop}
    (returns : p.Returns P) (same : ∀ a, P a → f a = g a) : p.bind f = p.bind g := by
  induction p with
  | done a => exact same a (returns [] a (.done a))
  | perform op next inductionHypothesis =>
      refine congrArg (perform op) (funext fun reply => inductionHypothesis reply ?_)
      exact fun es a played => returns _ a (.perform played)

/-- A program that may fail has the result of its last part, or the error of an earlier one. -/
theorem returns_run_bind {ε : Type} {p : ExceptT ε (Program E) α}
    {f : α → ExceptT ε (Program E) β} {P : Except ε β → Prop} (error : ∀ e, P (.error e))
    (second : ∀ a, (f a).run.Returns P) : (p >>= f).run.Returns P := by
  refine (returns_trivial p.run).bind fun result _ => ?_
  cases result with
  | ok a => exact second a
  | error e => exact returns_done (error e)

end Program

namespace Environment

/-- The replies of a transcript are possible one after the other, from a state to a state. -/
inductive Allows (W : Environment E σ) : σ → List (Exchange E) → σ → Prop where
  | nil (s : σ) : Allows W s [] s
  | cons {s s' s'' : σ} {x : Exchange E} {es : List (Exchange E)} :
      W s x s' → Allows W s' es s'' → Allows W s (x :: es) s''

variable {W : Environment E σ}

@[simp]
theorem allows_nil_iff {s s' : σ} : W.Allows s [] s' ↔ s' = s := by
  constructor
  · intro allowed
    cases allowed
    rfl
  · intro same
    subst same
    exact .nil s'

theorem allows_cons_iff {s s'' : σ} {x : Exchange E} {es : List (Exchange E)} :
    W.Allows s (x :: es) s'' ↔ ∃ s', W s x s' ∧ W.Allows s' es s'' := by
  constructor
  · intro allowed
    cases allowed with
    | @cons _ s' _ _ _ here rest => exact ⟨s', here, rest⟩
  · intro holds
    obtain ⟨s', here, rest⟩ := holds
    exact .cons here rest

theorem allows_append_iff {s s'' : σ} {first second : List (Exchange E)} :
    W.Allows s (first ++ second) s'' ↔ ∃ s', W.Allows s first s' ∧ W.Allows s' second s'' := by
  induction first generalizing s with
  | nil => simp
  | cons x rest inductionHypothesis =>
      simp only [List.cons_append, allows_cons_iff, inductionHypothesis]
      constructor
      · intro holds
        obtain ⟨s₁, here, s₂, left, right⟩ := holds
        exact ⟨s₂, ⟨s₁, here, left⟩, right⟩
      · intro holds
        obtain ⟨s₂, ⟨s₁, here, left⟩, right⟩ := holds
        exact ⟨s₁, here, s₂, left, right⟩

end Environment

namespace Program

/-- However a program ends that starts in a state, its transcript, the state then and its result
are as wanted. -/
def Ensures (W : Environment E σ) (p : Program E α) (s : σ)
    (Q : List (Exchange E) → σ → α → Prop) : Prop :=
  ∀ es s' a, p.Plays es a → W.Allows s es s' → Q es s' a

variable {W : Environment E σ}

@[simp]
theorem ensures_done_iff {a : α} {s : σ} {Q : List (Exchange E) → σ → α → Prop} :
    (done a).Ensures W s Q ↔ Q [] s a := by
  constructor
  · intro ensured
    exact ensured [] s a (.done a) (.nil s)
  · intro holds es s' b played allowed
    obtain ⟨rfl, rfl⟩ := plays_done_iff.mp played
    obtain rfl := Environment.allows_nil_iff.mp allowed
    exact holds

theorem ensures_perform_iff {op : E.Op} {next : E.Reply op → Program E α} {s : σ}
    {Q : List (Exchange E) → σ → α → Prop} :
    (perform op next).Ensures W s Q ↔
      ∀ reply s', W s ⟨op, reply⟩ s' →
        (next reply).Ensures W s' fun es => Q (⟨op, reply⟩ :: es) := by
  constructor
  · intro ensured reply s' here es s'' a played allowed
    exact ensured _ s'' a (.perform played) (.cons here allowed)
  · intro ensured es s'' a played allowed
    obtain ⟨reply, rest, rfl, continued⟩ := plays_perform_iff.mp played
    obtain ⟨s', here, following⟩ := Environment.allows_cons_iff.mp allowed
    exact ensured reply s' here rest s'' a continued following

theorem ensures_bind_iff {p : Program E α} {f : α → Program E β} {s : σ}
    {Q : List (Exchange E) → σ → β → Prop} :
    (p.bind f).Ensures W s Q ↔
      p.Ensures W s fun first s' a => (f a).Ensures W s' fun second => Q (first ++ second) := by
  constructor
  · intro ensured first s' a left allowed second s'' b right allowed'
    exact ensured _ s'' b (left.bind right)
      (Environment.allows_append_iff.mpr ⟨s', allowed, allowed'⟩)
  · intro ensured es s'' b played allowed
    obtain ⟨first, a, second, left, right, rfl⟩ := plays_bind_iff.mp played
    obtain ⟨s', allowed, allowed'⟩ := Environment.allows_append_iff.mp allowed
    exact ensured first s' a left allowed second s'' b right allowed'

theorem ensures_map_iff {p : Program E α} {f : α → β} {s : σ}
    {Q : List (Exchange E) → σ → β → Prop} :
    (p.bind fun a => done (f a)).Ensures W s Q ↔ p.Ensures W s fun es s' a => Q es s' (f a) := by
  rw [ensures_bind_iff]
  simp only [ensures_done_iff, List.append_nil]

theorem Ensures.mono {p : Program E α} {s : σ} {Q Q' : List (Exchange E) → σ → α → Prop}
    (ensured : p.Ensures W s Q) (implied : ∀ es s' a, Q es s' a → Q' es s' a) :
    p.Ensures W s Q' :=
  fun es s' a played allowed => implied es s' a (ensured es s' a played allowed)

theorem Ensures.and {p : Program E α} {s : σ} {left right : List (Exchange E) → σ → α → Prop}
    (first : p.Ensures W s left) (second : p.Ensures W s right) :
    p.Ensures W s fun es s' a => left es s' a ∧ right es s' a :=
  fun es s' a played allowed => ⟨first es s' a played allowed, second es s' a played allowed⟩

theorem Ensures.bind {p : Program E α} {f : α → Program E β} {s : σ}
    {P : List (Exchange E) → σ → α → Prop} {Q : List (Exchange E) → σ → β → Prop}
    (left : p.Ensures W s P)
    (right : ∀ first s' a, P first s' a →
      (f a).Ensures W s' fun second => Q (first ++ second)) :
    (p.bind f).Ensures W s Q :=
  ensures_bind_iff.mpr (left.mono right)

/-- A program that may fail goes on only if its first part succeeds. -/
theorem Ensures.run_bind {ε : Type} {p : ExceptT ε (Program E) α}
    {f : α → ExceptT ε (Program E) β} {s : σ}
    {P : List (Exchange E) → σ → Except ε α → Prop}
    {Q : List (Exchange E) → σ → Except ε β → Prop} (left : p.run.Ensures W s P)
    (ok : ∀ first s' a, P first s' (.ok a) →
      (f a).run.Ensures W s' fun second => Q (first ++ second))
    (error : ∀ first s' e, P first s' (.error e) → Q first s' (.error e)) :
    (p >>= f).run.Ensures W s Q := by
  refine left.bind fun first s' result holds => ?_
  cases result with
  | ok a => exact ok first s' a holds
  | error e =>
      refine ensures_done_iff.mpr ?_
      rw [List.append_nil]
      exact error first s' e holds

/-- Runs a program on replies that are computed from a state. -/
def simulate (respond : σ → (op : E.Op) → E.Reply op × σ) :
    Program E α → σ → List (Exchange E) × σ × α
  | done a, s => ([], s, a)
  | perform op next, s =>
    let (reply, s) := respond s op
    let (es, s, a) := (next reply).simulate respond s
    (⟨op, reply⟩ :: es, s, a)

theorem plays_simulate (respond : σ → (op : E.Op) → E.Reply op × σ) (p : Program E α) (s : σ) :
    p.Plays (p.simulate respond s).1 (p.simulate respond s).2.2 := by
  induction p generalizing s with
  | done a => exact .done a
  | perform op next inductionHypothesis =>
      exact .perform (inductionHypothesis (respond s op).1 (respond s op).2)

/-- If there are replies at all, a program that only ever ends at once with one result is that
result. -/
theorem eq_done_of_plays (reply : (op : E.Op) → E.Reply op) {p : Program E α} {a : α}
    (only : ∀ es b, p.Plays es b → es = [] ∧ b = a) : p = done a := by
  cases p with
  | done b => rw [(only [] b (.done b)).2]
  | perform op next =>
      have played := plays_simulate (fun (_ : Unit) op => (reply op, ())) (next (reply op)) ()
      cases (only _ _ (.perform played)).1

theorem allows_simulate {respond : σ → (op : E.Op) → E.Reply op × σ}
    (possible : ∀ s op, W s ⟨op, (respond s op).1⟩ (respond s op).2) (p : Program E α) (s : σ) :
    W.Allows s (p.simulate respond s).1 (p.simulate respond s).2.1 := by
  induction p generalizing s with
  | done a => exact .nil s
  | perform op next inductionHypothesis =>
      exact .cons (possible s op) (inductionHypothesis (respond s op).1 (respond s op).2)

end Program

end ManagedDebugger
