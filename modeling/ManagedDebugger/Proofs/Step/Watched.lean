import ManagedDebugger.Proofs.Step.Armed

/-!
# The await that a step watches

A line may hold several awaits, and a thread may be between two of them. A step over or into such a
line sets its breakpoint on the yield point of the first await that is listed for the line, wherever
on the line the thread is. So the await that comes next is watched as long as none of the line has
been passed; after that it is one that the thread does not come to any more.
-/

namespace ManagedDebugger

/-- The await yields in a range of code. -/
def AwaitBlock.Between (start stop : UInt32) (a : AwaitBlock) : Prop :=
  start ≤ a.yieldOffset ∧ a.yieldOffset < stop

instance (start stop : UInt32) : DecidablePred (AwaitBlock.Between start stop) :=
  fun a => inferInstanceAs (Decidable (start ≤ a.yieldOffset ∧ a.yieldOffset < stop))

/-- Of the awaits from an offset to the end of a range, it is the one that yields first. -/
structure AsyncInfo.NearestAhead (info : AsyncInfo) (offset stop : UInt32) (block : AwaitBlock) :
    Prop where
  listed : block ∈ info.awaits
  ahead : block.Between offset stop
  nearest : ∀ a ∈ info.awaits, a.Between offset stop → block.yieldOffset ≤ a.yieldOffset

namespace Step

open Stepping Exchange

variable {ctx : StepContext} {thread : ThreadId} {kind : StepKind} {method : MethodRef}
  {offset start stop : UInt32} {info : AsyncInfo} {block : AwaitBlock}

/-- The calls of a step that watches an await, with the result of each way that they may go. -/
inductive Watches (thread : ThreadId) (kind : StepKind) (method : MethodRef) (mode : StepMode)
    (block : AwaitBlock) :
    List (Exchange evalEffect) → Except EngineError Unit → StepState → Prop where
  | notCreated (e : NativeError) :
      Watches thread kind method mode block [create method block.yieldOffset (.error e)]
        (.error (.native e)) .idle
  | notStepped (b : NativeBreakpointId) (e : NativeError) :
      Watches thread kind method mode block
        [create method block.yieldOffset (.ok b), step thread mode (.error e)]
        (.error (.native e)) .idle
  | waits (b : NativeBreakpointId) :
      Watches thread kind method mode block
        [create method block.yieldOffset (.ok b), step thread mode (.ok ())]
        (.ok ()) (.awaitingYield thread kind method b block.resumeOffset)

theorem awaitIn_eq : awaitIn info start stop = info.awaits.find? (·.Between start stop) := by
  refine congrArg (info.awaits.find? ·) (funext fun a => ?_)
  exact (Bool.decide_and _ _).symm

/-- A step that is none out of the method, on a line with an await. -/
theorem start_eq (notOut : kind ≠ .out) (async : ctx.symbols.asyncInfo? method = some info)
    (user : offset < info.lastUserCodeOffset)
    (range : stepRange ctx.symbols method offset = some (start, stop))
    (first : awaitIn info start stop = some block) :
    (if kind = .out then issue thread .out .out else startAt ctx thread kind method offset) = (do
      let b ← Stepping.call (.createBreakpoint method block.yieldOffset)
      Stepping.call (.step thread (.range (kind == .into) start stop))
      set (StepState.awaitingYield thread kind method b block.resumeOffset)) := by
  have early : ¬ info.lastUserCodeOffset ≤ offset := UInt32.not_le.mpr user
  simp [notOut, startAt, async, range, early, first]

variable {frames : List NativeFrame} {rest : List (Exchange evalEffect)}
  {r : Except EngineError Unit} {st' : StepState}

theorem watches_of_plays (notOut : kind ≠ .out)
    (here : topMethod? frames = some (method, offset))
    (async : ctx.symbols.asyncInfo? method = some info)
    (user : offset < info.lastUserCodeOffset)
    (range : stepRange ctx.symbols method offset = some (start, stop))
    (first : awaitIn info start stop = some block)
    (played : ((Step.start ctx thread kind).run .idle).Plays
      (⟨.native (.frames thread), .ok frames⟩ :: rest) (r, st')) :
    Watches thread kind method (.range (kind == .into) start stop) block rest r st' := by
  obtain ⟨e, failed, -⟩ | ⟨_, _, same, atLine⟩ := plays_call_bind_iff.mp played
  · cases failed
  cases same
  rw [here] at atLine
  dsimp only at atLine
  rw [start_eq notOut async user range first] at atLine
  obtain ⟨e, rfl, same⟩ | ⟨b, more, rfl, created⟩ := plays_call_bind_iff.mp atLine
  · cases same
    exact .notCreated e
  obtain ⟨e, rfl, same⟩ | ⟨_, last, rfl, stepped⟩ := plays_call_bind_iff.mp created
  · cases same
    exact .notStepped b e
  obtain ⟨rfl, same⟩ := plays_set_iff.mp stepped
  cases same
  exact .waits b

end Step

namespace AsyncInfo

variable {info : AsyncInfo} {offset start stop : UInt32} {before after : List AwaitBlock}
  {block : AwaitBlock}

/-- The first await that is listed for a range is the nearest one ahead if it has not been passed
and no other one comes before it. -/
theorem nearestAhead_iff (listed : info.awaits = before ++ block :: after)
    (between : block.Between start stop) (others : ∀ a ∈ before, ¬ a.Between start stop)
    (behind : start ≤ offset) :
    info.NearestAhead offset stop block ↔
      offset ≤ block.yieldOffset ∧ ∀ a ∈ after, ¬ a.Between offset block.yieldOffset := by
  obtain ⟨-, below⟩ := between
  have among : block ∈ info.awaits := by simp [listed]
  constructor
  · rintro ⟨-, ahead, nearest⟩
    refine ⟨ahead.1, fun a later earlier => ?_⟩
    have still : a.Between offset stop := ⟨earlier.1, UInt32.lt_trans earlier.2 below⟩
    have behindIt := nearest a (by simp [listed, later]) still
    exact UInt32.not_le.mpr earlier.2 behindIt
  · rintro ⟨ahead, none⟩
    refine ⟨among, ⟨ahead, below⟩, fun a listed' still => ?_⟩
    rw [listed, List.mem_append, List.mem_cons] at listed'
    obtain inBefore | rfl | inAfter := listed'
    · exact absurd ⟨UInt32.le_trans behind still.1, still.2⟩ (others a inBefore)
    · exact UInt32.le_refl _
    · exact UInt32.not_lt.mp fun earlier => none a inAfter ⟨still.1, earlier⟩

/-- Awaits that are listed in the order in which they yield: the first one for a range is the
nearest one ahead unless an await of the range has been passed. -/
theorem nearestAhead_iff_of_ascending (listed : info.awaits = before ++ block :: after)
    (between : block.Between start stop) (others : ∀ a ∈ before, ¬ a.Between start stop)
    (behind : start ≤ offset) (below : offset < stop)
    (ascending : info.awaits.Pairwise fun a b => a.yieldOffset ≤ b.yieldOffset) :
    info.NearestAhead offset stop block ↔ ∀ a ∈ info.awaits, ¬ a.Between start offset := by
  rw [nearestAhead_iff listed between others behind]
  rw [listed, List.pairwise_append, List.pairwise_cons] at ascending
  obtain ⟨-, ⟨later, -⟩, -⟩ := ascending
  constructor
  · rintro ⟨ahead, -⟩ a listed' ⟨fromStart, passed⟩
    rw [listed, List.mem_append, List.mem_cons] at listed'
    obtain inBefore | rfl | inAfter := listed'
    · exact others a inBefore ⟨fromStart, UInt32.lt_trans passed below⟩
    · exact UInt32.not_le.mpr passed ahead
    · exact UInt32.not_le.mpr passed (UInt32.le_trans ahead (later a inAfter))
  · intro none
    refine ⟨UInt32.not_lt.mp fun passed => ?_, fun a inAfter earlier => ?_⟩
    · exact none block (by simp [listed]) ⟨between.1, passed⟩
    · exact UInt32.not_le.mpr earlier.2 (later a inAfter)

end AsyncInfo

/-- A step over or into a line on which some await yields sets its breakpoint on the first await
that is listed for the line, and keeps where that one resumes; nothing is asked of the target but
that breakpoint and a native step through the line, and it ends with the first refusal. That await
is the nearest one ahead exactly if it has not been passed and none that is listed later comes
before it; with the awaits listed in order, exactly if no await of the line has been passed. -/
theorem Step.watches_firstListed {ctx : StepContext} {thread : ThreadId} {kind : StepKind}
    {method : MethodRef} {offset start stop : UInt32} {info : AsyncInfo}
    {frames : List NativeFrame} {rest : List (Exchange evalEffect)}
    {r : Except EngineError Unit} {st' : StepState} (notOut : kind ≠ .out)
    (here : topMethod? frames = some (method, offset))
    (async : ctx.symbols.asyncInfo? method = some info)
    (user : offset < info.lastUserCodeOffset)
    (range : stepRange ctx.symbols method offset = some (start, stop))
    (inside : start ≤ offset ∧ offset < stop)
    (awaits : ∃ a ∈ info.awaits, a.Between start stop)
    (played : ((Step.start ctx thread kind).run .idle).Plays
      (⟨.native (.frames thread), .ok frames⟩ :: rest) (r, st')) :
    ∃ before block after, info.awaits = before ++ block :: after ∧
      block.Between start stop ∧ (∀ a ∈ before, ¬ a.Between start stop) ∧
      Watches thread kind method (.range (kind == .into) start stop) block rest r st' ∧
      (info.NearestAhead offset stop block ↔
        offset ≤ block.yieldOffset ∧ ∀ a ∈ after, ¬ a.Between offset block.yieldOffset) ∧
      (info.awaits.Pairwise (fun a b => a.yieldOffset ≤ b.yieldOffset) →
        (info.NearestAhead offset stop block ↔ ∀ a ∈ info.awaits, ¬ a.Between start offset)) := by
  obtain ⟨some, among, between⟩ := awaits
  obtain ⟨block, first⟩ : ∃ block, awaitIn info start stop = .some block := by
    rw [awaitIn_eq]
    exact Option.isSome_iff_exists.mp (List.find?_isSome.mpr ⟨some, among, decide_eq_true between⟩)
  have watches := watches_of_plays notOut here async user range first played
  rw [awaitIn_eq, List.find?_eq_some_iff_append] at first
  obtain ⟨inRange, before, after, listed, others⟩ := first
  have inRange : block.Between start stop := of_decide_eq_true inRange
  have others : ∀ a ∈ before, ¬ a.Between start stop := by simpa using others
  refine ⟨before, block, after, listed, inRange, others, watches, ?_, fun ascending => ?_⟩
  · exact AsyncInfo.nearestAhead_iff listed inRange others inside.1
  · exact AsyncInfo.nearestAhead_iff_of_ascending listed inRange others inside.1 inside.2 ascending

section TwoAwaits

/-- Two awaits on the line from 10 to 30. -/
def twoAwaits : AsyncInfo := ⟨[⟨12, 16⟩, ⟨20, 24⟩], 40⟩

def awaitingTwice : StepContext :=
  ⟨⟨[(1, ⟨[(34, { awaitingMethod with asyncInfo := some twoAwaits })], none⟩)]⟩, true, none⟩

/-- What a step over the line asks of the target with thread 1 at an offset. -/
def overLine (offset : UInt32) : List (Exchange evalEffect) :=
  [⟨.native (.frames 1), .ok [⟨.managed, some ⟨1, 34⟩, offset⟩]⟩,
    .create ⟨1, 34⟩ 12 (.ok ⟨7⟩), .step 1 (.range false 10 30) (.ok ())]

/-- From the start of the line, the first of the two is watched. -/
theorem watches_fromLineStart :
    ((Step.start awaitingTwice 1 .over).run .idle).Plays (overLine 10)
        (.ok (), .awaitingYield 1 .over ⟨1, 34⟩ ⟨7⟩ 16) ∧
      ∃ block, block.resumeOffset = 16 ∧ twoAwaits.NearestAhead 10 30 block := by
  have played : ((Step.start awaitingTwice 1 .over).run .idle).Plays (overLine 10)
      (.ok (), .awaitingYield 1 .over ⟨1, 34⟩ ⟨7⟩ 16) :=
    .perform (.perform (.perform (.done _)))
  obtain ⟨_, ⟨yieldOffset, resumeOffset⟩, _, -, -, -, watches, -, ascending⟩ :=
    Step.watches_firstListed (by decide) rfl rfl (by decide) rfl (by decide)
      ⟨⟨12, 16⟩, by decide, by decide⟩ played
  refine ⟨played, ⟨yieldOffset, resumeOffset⟩, ?_, (ascending (by decide)).mpr (by decide)⟩
  cases watches
  rfl

/-- From 16 the second await is ahead, and the step watches the first one. -/
theorem passedAwait_watched :
    ((Step.start awaitingTwice 1 .over).run .idle).Plays (overLine 16)
        (.ok (), .awaitingYield 1 .over ⟨1, 34⟩ ⟨7⟩ 16) ∧
      twoAwaits.NearestAhead 16 30 ⟨20, 24⟩ ∧ ¬ twoAwaits.NearestAhead 16 30 ⟨12, 16⟩ := by
  refine ⟨.perform (.perform (.perform (.done _))), ⟨by decide, by decide, by decide⟩, ?_⟩
  intro nearest
  exact absurd nearest.ahead (by decide)

end TwoAwaits

end ManagedDebugger
