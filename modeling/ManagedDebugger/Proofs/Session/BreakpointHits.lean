import ManagedDebugger.Proofs.Session.BreakpointsApart
import ManagedDebugger.Proofs.Session.Resumption
import Mathlib.Data.List.Induction

/-!
# When a breakpoint of the user stops the session

A hit of a breakpoint counts if its condition is true, and the number of hits that count decides,
by the rule of the breakpoint, whether the session stops. This number belongs to the breakpoint from
the time when it is set: it is the number of its own hits that count, through any other
notifications and requests, and whatever handles the breakpoint has in turn.
-/

namespace ManagedDebugger

open Job

variable {possible : Exchange evalEffect → Prop}

/-- The rule lets a breakpoint stop at the hit with this number. -/
def HitCondition.Admits (number : Nat) : HitCondition → Prop
  | equal n => number = n.toNat
  | greater n => n.toNat < number
  | greaterOrEqual n => n.toNat ≤ number
  | less n => number < n.toNat
  | lessOrEqual n => number ≤ n.toNat
  | multiple n => n.toNat ≠ 0 ∧ n.toNat ∣ number

theorem HitCondition.isMet_iff (rule : HitCondition) (hits : UInt32) :
    rule.isMet hits = true ↔ rule.Admits hits.toNat := by
  cases rule with
  | equal n => simp [isMet, Admits, ← UInt32.toNat_inj]
  | greater n => simp [isMet, Admits, UInt32.lt_iff_toNat_lt]
  | greaterOrEqual n => simp [isMet, Admits, UInt32.le_iff_toNat_le]
  | less n => simp [isMet, Admits, UInt32.lt_iff_toNat_lt]
  | lessOrEqual n => simp [isMet, Admits, UInt32.le_iff_toNat_le]
  | multiple n => simp [isMet, Admits, ← UInt32.toNat_inj, Nat.dvd_iff_mod_eq_zero]

namespace Session

/-! ## Conditions -/

/-- A condition is evaluated in the innermost frame of the thread that hit the breakpoint. -/
def hitContext (s : SessionState) (thread : ThreadId) : EvalContext :=
  ⟨s.symbols, s.process.modules.map (·.id), thread, 0, s.config.evalTimeout⟩

/-- A result is true, here or, by what the target replies, in the target. -/
def IsTrue (replies : List (Exchange evalEffect)) : EvalValue → Prop
  | .primitive p => p = .bool true
  | .remote v => v.kind.isPrimitive = true ∧
    ∃ more, replies = ⟨.native (.readPrimitive v), .ok (.bool true)⟩ :: more
  | _ => False

/-- The condition, if there is one, evaluates without an error to something true. -/
def ConditionHolds (s : SessionState) (thread : ThreadId) (replies : List (Exchange evalEffect))
    (condition : Option String) : Prop :=
  ∀ text ∈ condition, ∃ result played rest, replies = played ++ rest ∧
    (ManagedDebugger.evaluate (hitContext s thread) text).run.Plays played (.ok result) ∧
      IsTrue rest result.value

theorem ensures_isTrue (v : EvalValue) (s : SessionState) :
    (isTrue v).Ensures (alone possible) s fun es s' holds =>
      emitted es = [] ∧ s' = s ∧ ∀ rest, holds = true ↔ IsTrue (evaluations es ++ rest) v := by
  cases v with
  | primitive p =>
      refine Program.ensures_done_iff.mpr ⟨rfl, rfl, fun rest => ?_⟩
      simp [IsTrue]
  | remote v =>
      unfold isTrue
      dsimp only
      by_cases primitive : v.kind.isPrimitive = true
      · rw [if_pos primitive]
        refine Program.ensures_perform_iff.mpr ?_
        rintro reply _ ⟨-, rfl⟩
        cases reply with
        | ok p =>
            refine Program.ensures_done_iff.mpr ⟨rfl, rfl, fun rest => ?_⟩
            simp [IsTrue, primitive]
        | error e =>
            refine Program.ensures_done_iff.mpr ⟨rfl, rfl, fun rest => ?_⟩
            simp [IsTrue]
      · rw [if_neg primitive]
        refine Program.ensures_done_iff.mpr ⟨rfl, rfl, fun rest => ?_⟩
        simp [IsTrue, primitive]
  | null => exact Program.ensures_done_iff.mpr ⟨rfl, rfl, fun _ => ⟨nofun, False.elim⟩⟩
  | void => exact Program.ensures_done_iff.mpr ⟨rfl, rfl, fun _ => ⟨nofun, False.elim⟩⟩

theorem ensures_holds (thread : ThreadId) (condition : Option String) (s : SessionState) :
    (holds thread condition).Ensures (alone possible) s fun es s' held =>
      emitted es = [] ∧ s' = s ∧
        ∀ rest, held = true ↔ ConditionHolds s thread (evaluations es ++ rest) condition := by
  cases condition with
  | none => exact Program.ensures_done_iff.mpr ⟨rfl, rfl, fun _ => ⟨fun _ => nofun, fun _ => rfl⟩⟩
  | some text =>
      have evaluated : (evaluateAt thread 0 text).Ensures (alone possible) s fun es s' r =>
          emitted es = [] ∧ s' = s ∧
            (ManagedDebugger.evaluate (hitContext s thread) text).run.Plays (evaluations es) r := by
        apply update_bind
        refine (ensures_evaluating s).mono ?_
        rintro es _ r ⟨silent, rfl, played, -⟩
        exact ⟨silent, rfl, played⟩
      refine evaluated.bind ?_
      rintro first _ r ⟨silent, rfl, played⟩
      cases r with
      | error e =>
          refine Program.ensures_done_iff.mpr ⟨by simpa using silent, rfl, fun rest => ?_⟩
          refine ⟨nofun, fun holds => ?_⟩
          obtain ⟨result, played', rest', agree, others, -⟩ := holds text rfl
          simp only [List.append_nil] at agree
          cases (played.unique others agree).2
      | ok result =>
          refine (ensures_isTrue result.value _).mono ?_
          rintro second _ held ⟨silent', rfl, seen⟩
          refine ⟨by simp [silent, silent'], rfl, fun rest => ?_⟩
          rw [seen rest, evaluations_append, List.append_assoc]
          constructor
          · rintro isTrue _ ⟨⟩
            exact ⟨result, _, _, rfl, played, isTrue⟩
          · intro holds
            obtain ⟨result', played', rest', agree, others, isTrue⟩ := holds text rfl
            obtain ⟨same, ⟨⟩⟩ := played.unique others agree
            rw [same] at agree
            rwa [List.append_cancel_left agree]

/-! ## One hit -/

/-- What matters of the state to breakpoints of the user is as before. -/
structure KeepsBreakpoints (s s' : SessionState) : Prop where
  breakpoints : s'.breakpoints = s.breakpoints
  entry : s'.process.entryBreakpoint = s.process.entryBreakpoint
  step : s'.step = s.step

theorem bound_keepsBreakpoints : Bound fun _ => KeepsBreakpoints where
  nil := fun _ => ⟨rfl, rfl, rfl⟩
  append := fun left right => ⟨right.breakpoints.trans left.breakpoints,
    right.entry.trans left.entry, right.step.trans left.step⟩
  told := fun _ _ => ⟨rfl, rfl, rfl⟩
  acquired := fun _ _ => ⟨rfl, rfl, rfl⟩
  released := fun _ _ => ⟨rfl, rfl, rfl⟩
  updated := fun _ _ inessential =>
    ⟨inessential.breakpoints, inessential.entryBreakpoint, inessential.step⟩
  evaluated := fun _ _ _ => ⟨rfl, rfl, rfl⟩

/-- What is decided about a hit of a breakpoint of the user whose condition holds, or does not. -/
structure DecidesHit (b : Breakpoint) (held : Bool) (s s' : SessionState) (a : Action) : Prop where
  breakpoints : s'.breakpoints = if held then (s.breakpoints.recordHit b.id).2 else s.breakpoints
  entry : s'.process.entryBreakpoint = s.process.entryBreakpoint
  step : s'.step = s.step ∨ s'.step = .idle
  stops : (∃ stop, a = .stop stop) ↔ held = true ∧ (s.breakpoints.recordHit b.id).1 = true

/-- Work on the breakpoints without the target. -/
theorem ensures_pureBreakpoints {α : Type} (f : BreakpointRegistry → α × BreakpointRegistry)
    (s : SessionState) :
    (onBreakpoints fun _ r => pure (f r)).Ensures (alone possible) s fun es s' a =>
      emitted es = [] ∧ evaluations es = [] ∧ a = (f s.breakpoints).1 ∧
        s' = { s with breakpoints := (f s.breakpoints).2 } := by
  refine (plays_onBreakpoints _ s).mono ?_
  rintro es s' a ⟨silent, state, calls, played, ops⟩
  obtain ⟨rfl, same⟩ := Program.plays_done_iff.mp played
  obtain ⟨rfl, changed⟩ := Prod.mk.inj same
  exact ⟨silent, ops, rfl, by rw [← changed, ← state]⟩

theorem ensures_knownHit (thread : ThreadId) {hit : NativeBreakpointId} {b : Breakpoint}
    {s : SessionState} (known : s.breakpoints.byHandle? hit = some b) :
    (onUserBreakpoint thread hit).Ensures (alone possible) s fun es s' a =>
      emitted es = [] ∧ ∃ held, DecidesHit b held s s' a ∧
        ∀ rest, held = true ↔ ConditionHolds s thread (evaluations es ++ rest) b.condition := by
  refine (ensures_pureBreakpoints (fun r => (r.byHandle? hit, r)) s).bind ?_
  rintro first _ _ ⟨silent, quiet, rfl, rfl⟩
  rw [known]
  refine (ensures_holds thread b.condition s).bind ?_
  rintro second _ held ⟨silent', rfl, holds⟩
  cases held with
  | false =>
      refine Program.ensures_done_iff.mpr ⟨by simp [silent, silent'], false, ?_, fun rest => ?_⟩
      · exact ⟨rfl, rfl, .inl rfl, ⟨nofun, nofun⟩⟩
      · simpa [quiet] using holds rest
  | true =>
      refine (ensures_pureBreakpoints (fun r => r.recordHit b.id) _).bind ?_
      rintro third _ _ ⟨silent'', quiet', rfl, rfl⟩
      split
      case isFalse other =>
        refine Program.ensures_done_iff.mpr
          ⟨by simp [silent, silent', silent''], true, ?_, fun rest => ?_⟩
        · exact ⟨rfl, rfl, .inl rfl, ⟨nofun, fun met => absurd met.2 other⟩⟩
        · simpa [quiet, quiet'] using holds rest
      case isTrue met =>
        refine (ensures_cancelStep _).bind ?_
        rintro fourth s' _ ⟨moves, idle, -⟩
        refine Program.ensures_done_iff.mpr
          ⟨by simp [silent, silent', silent'', moves.silent], true, ?_, fun rest => ?_⟩
        · rw [moves.state]
          exact ⟨rfl, rfl, .inr idle, ⟨fun _ => ⟨rfl, met⟩, fun _ => ⟨_, rfl⟩⟩⟩
        · simpa [quiet, quiet'] using holds (evaluations fourth ++ rest)

theorem onBreakpoint_of_other (ctx : StepContext) (thread : ThreadId) {hit : NativeBreakpointId}
    {st : StepState} (other : st.breakpoint? ≠ some hit) :
    (Step.onBreakpoint ctx thread hit).run st = .done (.ok none, st) := by
  have looks (f : StepState → Stepping (Option StepOutcome)) :
      (get >>= f : Stepping _).run st = (f st).run st := rfl
  rw [Step.onBreakpoint, looks]
  cases st with
  | idle => rfl
  | stepping t kind => rfl
  | awaitingYield origin kind method b resumeOffset =>
      have different : b ≠ hit := fun same => other (congrArg some same)
      dsimp only
      rw [if_pos different]
      rfl
  | awaitingResume origin kind b identity =>
      have different : b ≠ hit := fun same => other (congrArg some same)
      dsimp only
      rw [if_pos different]
      rfl

/-- A hit of a breakpoint of the user is looked at as such: it is not taken for the one on the entry
point, nor for that of the step in flight. -/
theorem ensures_userHit (thread : ThreadId) {hit : NativeBreakpointId} {b : Breakpoint}
    {s : SessionState} (apart : Apart s) (here : s.breakpoints.get? b.id = some b)
    (bound : b.binding.handle? = some hit) :
    (onBreakpointHit thread hit).run.Ensures (alone possible) s fun es s' r =>
      emitted es = [] ∧ ∃ a held, r = .ok a ∧ DecidesHit b held s s' a ∧
        ∀ rest, held = true ↔ ConditionHolds s thread (evaluations es ++ rest) b.condition := by
  have own : hit ∈ s.breakpoints.handles :=
    apart.indexed.toAddressed.mem_handles ⟨b, here, bound⟩
  have known : s.breakpoints.byHandle? hit = some b := apart.indexed.resolves.mpr ⟨here, bound⟩
  have untaken : (takeEntryBreakpoint hit).Ensures (alone possible) s fun es s' taken =>
      emitted es = [] ∧ evaluations es = [] ∧ taken = false ∧ s' = s := by
    have other : s.process.entryBreakpoint ≠ some hit := fun entry => apart.entry hit entry own
    refine ensures_update ?_
    dsimp only
    rw [if_neg other]
    exact ⟨rfl, rfl, rfl, rfl⟩
  have unmoved : (onStep fun ctx => Step.onBreakpoint ctx thread hit).Ensures (alone possible) s
      fun es s' outcome => emitted es = [] ∧ evaluations es = [] ∧ outcome = .ok none ∧ s' = s := by
    have other : s.step.breakpoint? ≠ some hit := fun waits => apart.step hit waits own
    refine (plays_onStep _ s).mono ?_
    rintro es s' outcome ⟨silent, state, played, -⟩
    rw [onBreakpoint_of_other _ _ other] at played
    obtain ⟨nothing, ended⟩ := Program.plays_done_iff.mp played
    obtain ⟨rfl, same⟩ := Prod.mk.inj ended
    exact ⟨silent, nothing, rfl, by rw [state, same]⟩
  refine Work.ofJob_bind untaken ?_
  rintro first _ _ ⟨silent, quiet, rfl, rfl⟩
  refine Program.Ensures.run_bind
    (p := ExceptT.mk (onStep fun ctx => Step.onBreakpoint ctx thread hit)) unmoved ?_ ?_
  · rintro second _ _ ⟨silent', quiet', ⟨⟩, rfl⟩
    refine Work.ensures_ofJob ((ensures_knownHit thread known).mono ?_)
    rintro third s' a ⟨silent'', held, decides, holds⟩
    refine ⟨by simp [silent, silent', silent''], a, held, rfl, decides, fun rest => ?_⟩
    simpa [quiet, quiet'] using holds rest
  · rintro second _ e ⟨-, -, ⟨⟩, -⟩

/-- A decision is carried out without a change of the breakpoints, and a decision to stop is the
only one that is reported as a stop. -/
theorem ensures_carryOut (a : Action) (s : SessionState) :
    (carryOut (.ok a)).Ensures (alone possible) s fun es s' _ =>
      KeepsBreakpoints s s' ∧ (Transcript.ReportsStop es ↔ ∃ stop, a = .stop stop) := by
  refine Program.Ensures.and (confined_apply bound_keepsBreakpoints a s) ?_
  cases a with
  | resume =>
      refine (ensures_applyResume s).mono ?_
      rintro es s' _ ⟨-, silent, -⟩
      exact iff_of_false (Transcript.not_reportsStop silent) nofun
  | stop stop =>
      refine (ensures_reportStop stop s).mono fun es s' _ report => ?_
      exact iff_of_true report.reported ⟨stop, rfl⟩
  | hold =>
      refine Program.ensures_done_iff.mpr ?_
      exact iff_of_false (Transcript.not_reportsStop rfl) nofun

namespace Turn

variable {t : Turn} {thread : ThreadId} {b : Breakpoint}

/-- The turn is a hit of a breakpoint of the user, by the handle that it has at the time. -/
def Hits (t : Turn) (thread : ThreadId) (b : Breakpoint) : Prop :=
  ∃ hit, t.input = .notified (.breakpointHit thread hit) ∧
    t.before.breakpoints.get? b.id = some b ∧ b.binding.handle? = some hit

/-- The condition of a breakpoint that is hit holds. -/
def ConditionHolds (t : Turn) (thread : ThreadId) (b : Breakpoint) : Prop :=
  Session.ConditionHolds t.before thread (evaluations t.transcript) b.condition

/-- What a hit of a breakpoint of the user comes to. -/
structure TakesHit (t : Turn) (thread : ThreadId) (b : Breakpoint) : Prop where
  stops : t.Stops ↔
    t.ConditionHolds thread b ∧ (t.before.breakpoints.recordHit b.id).1 = true
  recorded : t.ConditionHolds thread b →
    t.after.breakpoints = (t.before.breakpoints.recordHit b.id).2
  unrecorded : ¬ t.ConditionHolds thread b → t.after.breakpoints = t.before.breakpoints
  entry : t.after.process.entryBreakpoint = t.before.process.entryBreakpoint
  step : t.after.step = t.before.step ∨ t.after.step = .idle

theorem Happens.takesHit (happens : t.Happens possible) (apart : Apart t.before)
    (hits : t.Hits thread b) : t.TakesHit thread b := by
  obtain ⟨input, before, transcript, answer, after⟩ := t
  obtain ⟨hit, rfl, here, bound⟩ := hits
  refine happens.ensured (Q := fun es s' _ =>
    TakesHit ⟨.notified (.breakpointHit thread hit), before, es, answer, s'⟩ thread b) ?_
  refine ensures_notified (ensures_userHit thread apart here bound) ?_
  rintro first s₁ _ ⟨silent, a, held, rfl, decides, holds⟩
  refine (ensures_carryOut a s₁).mono ?_
  rintro second s' _ ⟨kept, reports⟩
  have condition := holds (evaluations second)
  rw [← evaluations_append] at condition
  have stops : (Transcript.ReportsStop (first ++ second) ↔ ∃ stop, a = .stop stop) := by
    rw [Transcript.reportsStop_append_iff, or_iff_right (Transcript.not_reportsStop silent)]
    exact reports
  constructor
  · exact stops.trans (decides.stops.trans (and_congr_left fun _ => condition))
  · exact fun met =>
      kept.breakpoints.trans (decides.breakpoints.trans (if_pos (condition.mpr met)))
  · exact fun unmet =>
      kept.breakpoints.trans (decides.breakpoints.trans (if_neg (mt condition.mp unmet)))
  · exact kept.entry.trans decides.entry
  · exact decides.step.imp kept.step.trans kept.step.trans

/-- The rule is asked about the number of the hit. -/
theorem TakesHit.stops_iff (takes : t.TakesHit thread b) (hits : t.Hits thread b) {n : Nat}
    (number : b.hits = UInt32.ofNat n) (few : n + 1 < UInt32.size) :
    t.Stops ↔ t.ConditionHolds thread b ∧ ∀ rule ∈ b.hitCondition, rule.Admits (n + 1) := by
  obtain ⟨hit, -, here, -⟩ := hits
  have next : (b.hits + 1).toNat = n + 1 := by
    rw [number, ← UInt32.toNat_ofNat_of_lt' few, UInt32.ofNat_add]
    rfl
  have rule : (t.before.breakpoints.recordHit b.id).1 =
      b.hitCondition.all (HitCondition.isMet (b.hits + 1)) := by
    rw [BreakpointRegistry.recordHit, here]
  rw [takes.stops, rule, Option.all_eq_true]
  refine and_congr_right fun _ => forall₂_congr fun rule _ => ?_
  rw [HitCondition.isMet_iff, next]

theorem TakesHit.others (takes : t.TakesHit thread b) {id : UInt32} (other : id ≠ b.id) :
    t.after.breakpoints.get? id = t.before.breakpoints.get? id := by
  by_cases met : t.ConditionHolds thread b
  · simp [takes.recorded met, BreakpointRegistry.get?_recordHit, other]
  · rw [takes.unrecorded met]

theorem TakesHit.keeps (takes : t.TakesHit thread b) (hits : t.Hits thread b) :
    ∃ b', t.after.breakpoints.get? b.id = some b' ∧ b'.file = b.file := by
  obtain ⟨hit, -, here, -⟩ := hits
  by_cases met : t.ConditionHolds thread b
  · simp [takes.recorded met, BreakpointRegistry.get?_recordHit, here]
  · rw [takes.unrecorded met]
    exact ⟨b, here, rfl⟩

theorem TakesHit.apart (takes : t.TakesHit thread b) (apart : Apart t.before) : Apart t.after := by
  have noneHandedOut (s : SessionState) : Session.HandsOutNew [] s :=
    ⟨List.nodup_nil, nofun⟩
  -- The registry changes first, and then the rest of the state.
  have keeps (s : SessionState) (same : t.after.breakpoints = s.breakpoints)
      (entry : s.process.entryBreakpoint = t.before.process.entryBreakpoint)
      (step : s.step = t.before.step) (apart : Apart s) : Apart t.after := by
    have kept : Keeps [] s t.after := by
      refine .ofSame same (fun handle own => .inl ?_) fun handle own => .inl ?_
      · rw [entry, ← takes.entry, own]
      · cases takes.step with
        | inl kept => rw [step, ← kept, own]
        | inr idle => rw [idle] at own; cases own
    exact (kept apart (noneHandedOut s)).apart
  by_cases met : t.ConditionHolds thread b
  · have counted : BreakpointUse.Happens ⟨[], .empty, .hit b.id, t.before.breakpoints, [],
        (t.before.breakpoints.recordHit b.id).2⟩ := Program.plays_done_iff.mpr ⟨rfl, rfl⟩
    refine keeps { t.before with breakpoints := _ } (takes.recorded met) rfl rfl ?_
    have stays : StaysApart [] t.before _ :=
      staysApart_ofUse counted rfl trivial rfl apart (noneHandedOut _)
    exact stays.apart
  · exact keeps t.before (takes.unrecorded met) rfl rfl apart

end Turn

/-! ## Runs -/

/-- The front end sets the breakpoints of a file. -/
def Input.Sets (input : Input) (file : String) : Prop :=
  ∃ requests, input = .asked (.setBreakpoints file requests)

/-- The breakpoint with the id is hit, and its condition holds. -/
def Turn.Counts (t : Turn) (id : UInt32) : Prop :=
  ∃ thread b, b.id = id ∧ t.Hits thread b ∧ t.ConditionHolds thread b

open Classical in
/-- How many hits of a breakpoint count, since the breakpoints of its file were set. -/
noncomputable def counted (file : String) (id : UInt32) (ts : List Turn) : Nat :=
  ts.foldl (fun n t => if t.input.Sets file then 0 else if t.Counts id then n + 1 else n) 0

section Counted

variable {file : String} {id : UInt32} {ts : List Turn} {t : Turn}

open Classical in
theorem counted_snoc : counted file id (ts ++ [t]) =
    if t.input.Sets file then 0
    else if t.Counts id then counted file id ts + 1 else counted file id ts := by
  rw [counted, List.foldl_append]
  rfl

theorem counted_snoc_of_sets (sets : t.input.Sets file) : counted file id (ts ++ [t]) = 0 := by
  rw [counted_snoc, if_pos sets]

theorem counted_snoc_of_counts (other : ¬ t.input.Sets file) (counts : t.Counts id) :
    counted file id (ts ++ [t]) = counted file id ts + 1 := by
  rw [counted_snoc, if_neg other, if_pos counts]

theorem counted_snoc_of_not_counts (other : ¬ t.input.Sets file) (uncounted : ¬ t.Counts id) :
    counted file id (ts ++ [t]) = counted file id ts := by
  rw [counted_snoc, if_neg other, if_neg uncounted]

theorem counted_le_length : counted file id ts ≤ ts.length := by
  induction ts using List.reverseRecOn with
  | nil => exact Nat.le_refl 0
  | append_singleton ts t inductionHypothesis =>
      rw [counted_snoc, List.length_append, List.length_singleton]
      split
      · exact Nat.zero_le _
      · split <;> omega

end Counted

/-- After some turns, breakpoints are kept apart, and each one of the user has the number of its
hits. -/
structure Tallied (ts : List Turn) (s : SessionState) : Prop where
  apart : Apart s
  hits : ∀ id b, s.breakpoints.requested? id = some b →
    b.hits = UInt32.ofNat (counted b.file id ts)

namespace Turn

variable {t : Turn} {ts : List Turn} {thread : ThreadId} {b : Breakpoint}

theorem requests_of_not_sets (noSet : ∀ file, ¬ t.input.Sets file) : t.requests = 0 := by
  unfold requests
  split
  · rename_i file requests sets
    exact absurd ⟨requests, sets⟩ (noSet file)
  · rfl

theorem Hits.not_sets (hits : t.Hits thread b) (file : String) : ¬ t.input.Sets file := by
  obtain ⟨hit, notified, -⟩ := hits
  rintro ⟨requests, sets⟩
  cases notified.symm.trans sets

theorem Hits.unique (hits : t.Hits thread b) (indexed : t.before.breakpoints.Indexed)
    {thread' : ThreadId} {b' : Breakpoint} (hits' : t.Hits thread' b') :
    thread' = thread ∧ b' = b := by
  obtain ⟨hit, notified, here, bound⟩ := hits
  obtain ⟨hit', notified', here', bound'⟩ := hits'
  cases notified.symm.trans notified'
  have same := indexed.unshared ⟨b, here, bound⟩ ⟨b', here', bound'⟩
  rw [← same, here] at here'
  exact ⟨rfl, (Option.some.inj here').symm⟩

/-- What a turn has to do with the breakpoints of the user. -/
inductive Concerns (t : Turn) : Prop where
  | hit (thread : ThreadId) (b : Breakpoint) (hits : t.Hits thread b)
      (takes : t.TakesHit thread b)
  | set (file : String) (requests : List BreakpointRequest)
      (sets : t.input = .asked (.setBreakpoints file requests))
      (anew : SetsAnew file requests t.transcript t.before t.after)
  | other (noHit : ∀ thread b, ¬ t.Hits thread b) (noSet : ∀ file, ¬ t.input.Sets file)
      (kept : Kept t.transcript t.before t.after)

theorem Happens.concerns (happens : t.Happens possible) (free : t.NumbersFree)
    (new : t.HandsOutNew) (apart : Apart t.before) : t.Concerns := by
  by_cases isHit : ∃ thread b, t.Hits thread b
  · obtain ⟨thread, b, hits⟩ := isHit
    exact .hit thread b hits (happens.takesHit apart hits)
  by_cases isSet : ∃ file, t.input.Sets file
  · obtain ⟨file, requests, sets⟩ := isSet
    exact .set file requests sets (happens.setsAnew sets free apart new)
  simp only [not_exists] at isHit isSet
  have unknown (thread : ThreadId) (hit : NativeBreakpointId)
      (notified : t.input = .notified (.breakpointHit thread hit)) :
      t.before.breakpoints.byHandle? hit = none := by
    refine Option.eq_none_iff_forall_ne_some.mpr fun b known => isHit thread b ?_
    exact ⟨hit, notified, apart.indexed.resolves.mp known⟩
  have noSet (file : String) (requests : List BreakpointRequest)
      (sets : t.input = .asked (.setBreakpoints file requests)) : False :=
    isSet file ⟨requests, sets⟩
  exact .other isHit isSet (happens.keeps unknown noSet apart new)

/-- A hit counts for its own breakpoint only. -/
theorem Hits.counts_iff (hits : t.Hits thread b) (indexed : t.before.breakpoints.Indexed)
    (id : UInt32) : t.Counts id ↔ id = b.id ∧ t.ConditionHolds thread b := by
  constructor
  · rintro ⟨thread', b', rfl, hits', holds⟩
    obtain ⟨rfl, rfl⟩ := hits.unique indexed hits'
    exact ⟨rfl, holds⟩
  · rintro ⟨rfl, holds⟩
    exact ⟨thread, b, rfl, hits, holds⟩

theorem TakesHit.tallied (takes : t.TakesHit thread b) (hits : t.Hits thread b)
    (tallied : Tallied ts t.before) : Tallied (ts ++ [t]) t.after := by
  have counts (id : UInt32) := hits.counts_iff tallied.apart.indexed id
  refine ⟨takes.apart tallied.apart, fun id c requested => ?_⟩
  obtain ⟨c', here, rfl⟩ := Option.map_eq_some_iff.mp requested
  by_cases met : t.ConditionHolds thread b
  · rw [takes.recorded met, BreakpointRegistry.get?_recordHit] at here
    obtain ⟨old, before, rfl⟩ := Option.map_eq_some_iff.mp here
    have known : t.before.breakpoints.requested? id = some old.unbound :=
      congrArg (Option.map _) before
    have number := tallied.hits id _ known
    by_cases own : id = b.id
    · rw [if_pos own, Breakpoint.unbound,
        counted_snoc_of_counts (hits.not_sets _) ((counts id).mpr ⟨own, met⟩)]
      rw [UInt32.ofNat_add]
      exact congrArg (· + 1) number
    · have uncounted : ¬ t.Counts id := fun other => own ((counts id).mp other).1
      rw [if_neg own, counted_snoc_of_not_counts (hits.not_sets _) uncounted]
      exact number
  · rw [takes.unrecorded met] at here
    rw [counted_snoc_of_not_counts (hits.not_sets _) fun other => met ((counts id).mp other).2]
    exact tallied.hits id _ (congrArg (Option.map _) here)

theorem Happens.tallied (happens : t.Happens possible) (free : t.NumbersFree)
    (new : t.HandsOutNew) (tallied : Tallied ts t.before) : Tallied (ts ++ [t]) t.after := by
  cases happens.concerns free new tallied.apart with
  | hit thread b hits takes => exact takes.tallied hits tallied
  | set file requests sets anew =>
      have uncounted (id : UInt32) : ¬ t.Counts id := by
        rintro ⟨thread, b, -, hits, -⟩
        exact hits.not_sets file ⟨requests, sets⟩
      refine ⟨anew.apart, fun id b here => ?_⟩
      obtain ⟨rfl, unhit⟩ | ⟨other, before⟩ := anew.requested id b here
      · rw [counted_snoc_of_sets ⟨requests, sets⟩]
        exact unhit
      · have elsewhere : ¬ t.input.Sets b.file := by
          rintro ⟨requests', sets'⟩
          cases sets.symm.trans sets'
          exact other rfl
        rw [counted_snoc_of_not_counts elsewhere (uncounted id)]
        exact tallied.hits id b before
  | other noHit noSet kept =>
      have uncounted (id : UInt32) : ¬ t.Counts id := by
        rintro ⟨thread, b, -, hits, -⟩
        exact noHit thread b hits
      refine ⟨kept.apart, fun id b here => ?_⟩
      rw [counted_snoc_of_not_counts (noSet b.file) (uncounted id)]
      rw [kept.requested] at here
      exact tallied.hits id b here

/-- Numbers are handed out in turn. -/
theorem Happens.numbered (happens : t.Happens possible) (free : t.NumbersFree)
    (new : t.HandsOutNew) (apart : Apart t.before) {n : Nat}
    (numbered : t.before.breakpoints.Numbered n) :
    t.after.breakpoints.Numbered (n + t.requests) := by
  cases happens.concerns free new apart with
  | hit thread b hits takes =>
      rw [requests_of_not_sets hits.not_sets]
      by_cases met : t.ConditionHolds thread b
      · rw [takes.recorded met]
        exact numbered.congr ⟨BreakpointRegistry.lastId_recordHit _ _,
          BreakpointRegistry.byFile_recordHit _ _, BreakpointRegistry.files_recordHit _ _⟩
      · rw [takes.unrecorded met]
        exact numbered
  | set file requests sets anew =>
      have all : t.requests = requests.length := by rw [Turn.requests, sets]
      obtain ⟨symbols, modules, done⟩ := anew.sets
      rw [all]
      exact numbered.sets done
  | other noHit noSet kept =>
      rw [requests_of_not_sets noSet]
      exact kept.numbered numbered

end Turn

theorem Runs.tallied {before ts : List Turn} {s s' : SessionState} (run : Runs possible s ts s')
    (free : ∀ t ∈ ts, t.NumbersFree) (new : ∀ t ∈ ts, t.HandsOutNew) (tallied : Tallied before s) :
    Tallied (before ++ ts) s' := by
  induction run generalizing before with
  | nil s => simpa using tallied
  | @cons t rest s' happens _ inductionHypothesis =>
      obtain ⟨ownFree, otherFree⟩ := List.forall_mem_cons.mp free
      obtain ⟨ownNew, otherNew⟩ := List.forall_mem_cons.mp new
      have next := inductionHypothesis otherFree otherNew (happens.tallied ownFree ownNew tallied)
      rwa [List.append_assoc] at next

/-- How many breakpoints the front end asks for in some turns. -/
def requestsOf (ts : List Turn) : Nat := ts.foldr (fun t n => t.requests + n) 0

theorem requestsOf_cons (t : Turn) (ts : List Turn) :
    requestsOf (t :: ts) = t.requests + requestsOf ts :=
  rfl

/-- Only more requests than there are numbers make one come round again. -/
theorem Runs.numbersFree {before ts : List Turn} {s s' : SessionState} {n : Nat}
    (run : Runs possible s ts s') (new : ∀ t ∈ ts, t.HandsOutNew) (tallied : Tallied before s)
    (numbered : s.breakpoints.Numbered n)
    (few : n + requestsOf ts ≤ UInt32.size) : ∀ t ∈ ts, t.NumbersFree := by
  induction run generalizing before n with
  | nil s => exact List.forall_mem_nil _
  | @cons t rest s' happens _ inductionHypothesis =>
      obtain ⟨ownNew, otherNew⟩ := List.forall_mem_cons.mp new
      rw [requestsOf_cons] at few
      have free : t.NumbersFree := Turn.numbersFree_of_few numbered (by omega)
      refine List.forall_mem_cons.mpr ⟨free, ?_⟩
      refine inductionHypothesis otherNew (happens.tallied free ownNew tallied)
        (happens.numbered free ownNew tallied.apart numbered) ?_
      omega

theorem tallied_start (config : SessionConfig) : Tallied [] (.start config) where
  apart := ⟨.empty, .empty, nofun, nofun⟩
  hits := nofun

/-- What becomes of a hit of a breakpoint of the user after some turns. -/
structure Gated (earlier : List Turn) (t : Turn) (thread : ThreadId) (b : Breakpoint) : Prop where
  /-- The session stops if the condition holds and the rule, if there is one, lets it stop at a hit
  with this number. -/
  stops : t.Stops ↔ t.ConditionHolds thread b ∧
    ∀ rule ∈ b.hitCondition, rule.Admits (counted b.file b.id (earlier ++ [t]))
  /-- Otherwise the target goes on. -/
  goesOn : ¬ t.Stops → t.ownResumes = 1
  /-- The hit is counted if the condition holds. -/
  number : t.ConditionHolds thread b →
    counted b.file b.id (earlier ++ [t]) = counted b.file b.id earlier + 1
  uncounted : ¬ t.ConditionHolds thread b →
    counted b.file b.id (earlier ++ [t]) = counted b.file b.id earlier
  recorded : ∃ b', t.after.breakpoints.get? b.id = some b' ∧
    b'.hits.toNat = counted b.file b.id (earlier ++ [t])
  /-- It has nothing to do with any other breakpoint. -/
  others : ∀ id, id ≠ b.id → t.after.breakpoints.get? id = t.before.breakpoints.get? id

/-- The condition of a breakpoint and the number of its own hits whose condition held decide, in any
run, whether a hit of it stops the session. The target is taken to tell breakpoints apart by their
handles, and numbers not to have come round, which takes more requests than there are numbers
(`Runs.numbersFree`). -/
theorem gated_hits {config : SessionConfig} {earlier : List Turn} {t : Turn} {s : SessionState}
    {thread : ThreadId} {b : Breakpoint} (run : Runs possible (.start config) (earlier ++ [t]) s)
    (free : ∀ u ∈ earlier, u.NumbersFree) (new : ∀ u ∈ earlier, u.HandsOutNew)
    (hits : t.Hits thread b) (few : counted b.file b.id earlier + 1 < UInt32.size) :
    Gated earlier t thread b := by
  obtain ⟨s', before, last⟩ := runs_append_iff.mp run
  obtain ⟨rfl, happens, -⟩ := runs_cons_iff.mp last
  have tallied : Tallied earlier t.before := before.tallied free new (tallied_start config)
  have takes := happens.takesHit tallied.apart hits
  have counts := hits.counts_iff tallied.apart.indexed b.id
  have number (met : t.ConditionHolds thread b) :
      counted b.file b.id (earlier ++ [t]) = counted b.file b.id earlier + 1 :=
    counted_snoc_of_counts (hits.not_sets _) (counts.mpr ⟨rfl, met⟩)
  have uncounted (unmet : ¬ t.ConditionHolds thread b) :
      counted b.file b.id (earlier ++ [t]) = counted b.file b.id earlier :=
    counted_snoc_of_not_counts (hits.not_sets _) fun other => unmet (counts.mp other).2
  have small : counted b.file b.id (earlier ++ [t]) < UInt32.size := by
    by_cases met : t.ConditionHolds thread b
    · rwa [number met]
    · rw [uncounted met]
      omega
  have soFar : b.hits = UInt32.ofNat (counted b.file b.id earlier) :=
    tallied.hits b.id b.unbound (congrArg (Option.map _) hits.choose_spec.2.1)
  constructor
  · rw [takes.stops_iff hits soFar few]
    refine and_congr_right fun met => ?_
    rw [number met]
  · intro stays
    obtain ⟨hit, notified, -⟩ := hits
    refine happens.ownResumes_of_letsGo (by rw [notified]; exact id) ?_
    rw [Turn.LetsGo, notified]
    exact ⟨stays, id⟩
  · exact number
  · exact uncounted
  · obtain ⟨b', here, file⟩ := takes.keeps hits
    have after := (takes.tallied hits tallied).hits b.id b'.unbound (congrArg (Option.map _) here)
    refine ⟨b', here, ?_⟩
    rw [← file] at small ⊢
    exact (congrArg UInt32.toNat after).trans (UInt32.toNat_ofNat_of_lt' small)
  · exact fun id other => takes.others other

section SecondHit

/-- Code on the first line of a file. -/
def oneLineOf (file : String) (method : Token) : ModuleSymbols :=
  ⟨[⟨method, file, 8, [⟨0, 1, 1, 1, 2⟩], none, [], []⟩], none⟩

/-- A target with a file in each of two modules, where a breakpoint is known by its method. -/
def twoFiles : (call : NativeCall) → call.Answer
  | .moduleSymbols 1 => some (oneLineOf "A.cs" 1)
  | .moduleSymbols _ => some (oneLineOf "B.cs" 2)
  | .createBreakpoint method _ => ⟨method.token⟩
  | _ => default

/-- Every second hit of a breakpoint is asked for. There is one, and one of another breakpoint, and
then the module is loaded anew. -/
def hitOnce : List Turn :=
  turns twoFiles
    [.notified (.moduleLoaded ⟨1, "A", "A.dll"⟩), .notified (.moduleLoaded ⟨2, "B", "B.dll"⟩),
      .asked (.setBreakpoints "A.cs" [⟨1, some "true", some "%2"⟩]),
      .asked (.setBreakpoints "B.cs" [⟨1, none, none⟩]),
      .notified (.breakpointHit 1 ⟨1⟩), .notified (.breakpointHit 1 ⟨2⟩), .asked .continue_,
      .notified (.moduleUnloaded 1), .notified (.moduleLoaded ⟨1, "A", "A.dll"⟩)] (.start {})

def secondHit : Turn :=
  (Input.notified (.breakpointHit 1 ⟨1⟩)).turn twoFiles (afterTurns (.start {}) hitOnce)

/-- The breakpoint at its second hit. -/
def hitTwice : Breakpoint :=
  ⟨1, "A.cs", 1, some "true", some (.multiple 2), 1, .bound ⟨⟨1, 1⟩, 0, 1, 1⟩ ⟨1⟩⟩

theorem runs_secondHit :
    Runs EvalOp.Succeeds (.start {}) (hitOnce ++ [secondHit]) secondHit.after :=
  runs_append_iff.mpr ⟨afterTurns (.start {}) hitOnce, runs_turns twoFiles _ _,
    .cons (happens_turn twoFiles _ _) (.nil _)⟩

theorem hitOnce_handsOutNew : ∀ u ∈ hitOnce, u.HandsOutNew := by decide +kernel

theorem hitOnce_numbersFree : ∀ u ∈ hitOnce, u.NumbersFree :=
  Runs.numbersFree (runs_turns twoFiles _ _) hitOnce_handsOutNew (tallied_start {}) .empty
    (by decide +kernel)

theorem hits_secondHit : secondHit.Hits 1 hitTwice :=
  ⟨⟨1⟩, rfl, by decide +kernel, rfl⟩

theorem gated_secondHit :
    Runs EvalOp.Succeeds (.start {}) (hitOnce ++ [secondHit]) secondHit.after ∧
      (∀ u ∈ hitOnce, u.NumbersFree) ∧ (∀ u ∈ hitOnce, u.HandsOutNew) ∧
      secondHit.Hits 1 hitTwice ∧ counted "A.cs" 1 hitOnce + 1 < UInt32.size ∧
      hitOnce.map (·.ownResumes) = [1, 1, 0, 0, 1, 0, 1, 1, 1] ∧ secondHit.ownResumes = 0 ∧
      Gated hitOnce secondHit 1 hitTwice := by
  have few : counted "A.cs" 1 hitOnce + 1 < UInt32.size :=
    Nat.lt_of_le_of_lt (Nat.succ_le_succ counted_le_length) (by decide +kernel)
  refine ⟨runs_secondHit, hitOnce_numbersFree, hitOnce_handsOutNew, hits_secondHit, few,
    by decide +kernel, by decide +kernel, ?_⟩
  exact gated_hits runs_secondHit hitOnce_numbersFree hitOnce_handsOutNew hits_secondHit few

end SecondHit

end Session

end ManagedDebugger
