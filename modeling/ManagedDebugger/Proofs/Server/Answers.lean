import Mathlib
import ManagedDebugger.Proofs.Server.History
import ManagedDebugger.Proofs.Text.Reading

/-!
# One answer for each line

A server that is idle has answered every line that is not blank, once and in order. Otherwise it
owes an answer to one line, and to those that came after it, which it has kept. The answer carries
the id of the request, and no id if the line is no request: a record with an id but without a method
is none, so that its id is lost.
-/

namespace ManagedDebugger

open Json

/-! ## Ids of lines -/

namespace Json

theorem field_named {α : Type} (name : String) (read : Json → Option α) (j : Json) :
    field name read (Fields.named j) =
      ((j.member? name).bind read).map (·, Fields.named j) := by
  unfold field
  dsimp only [bind, StateT.bind, fieldValue?, Option.bind_some]
  cases j.member? name with
  | none => rfl
  | some value => cases reads : read value <;> simp [StateT.lift, reads]

/-- A value of any form can be read as an optional one. -/
theorem optionalField_named (name : String) (j : Json) :
    (optionalField name some (Fields.named j)).isSome = true := by
  unfold optionalField fieldOr
  dsimp only [bind, StateT.bind, fieldValue?, Option.bind_some]
  cases j.member? name with
  | none => rfl
  | some value => cases value <;> rfl

end Json

theorem Message.read?_obj (members : List (String × Json)) :
    (Message.read? (.obj members)).map (·.id) =
      if (((Json.obj members).member? "method").bind Json.str?).isSome then
        (Json.obj members).member? "id" else none := by
  unfold Message.read? record? namedRecord?
  dsimp only [bind, StateT.bind]
  rw [field_named]
  cases (Json.obj members).member? "id" with
  | none => simp
  | some id =>
    dsimp only [Option.bind_some, Option.map_some]
    rw [field_named]
    cases ((Json.obj members).member? "method").bind str? with
    | none => rfl
    | some method =>
      dsimp only [Option.bind_some, Option.map_some]
      obtain ⟨out, params⟩ :=
        Option.isSome_iff_exists.mp (optionalField_named "params" (obj members))
      rw [params]
      rfl

/-- The id under which a line is answered; blank lines are not. -/
def answerId? (line : String) : Option Json :=
  if Text.allBlank line then none
  else some (((Json.parse? (Text.trim line)).bind Message.read?).elim .null (·.id))

theorem parse?_of_allBlank {line : String} (blank : Text.allBlank line = true) :
    Json.parse? (Text.trim line) = none := by
  have skipped : Text.skipBlanks line.toList = [] :=
    Text.skipBlanks_of_blank (List.all_eq_true.mp blank)
  have nothing : Text.trim line = "" := by
    rw [Text.trim, Text.trimmed, skipped]
    rfl
  rw [nothing]
  cbv

/-- A line that is a record with an id is answered under that id if it names a method, and under no
id if it does not. -/
theorem answerId?_of_record {line : String} {members : List (String × Json)} {id : Json}
    (record : Json.parse? (Text.trim line) = some (.obj members))
    (has : (Json.obj members).member? "id" = some id) :
    answerId? line =
      some (if (((Json.obj members).member? "method").bind Json.str?).isSome then id
        else .null) := by
  have written : Text.allBlank line = false := by
    cases blank : Text.allBlank line with
    | false => rfl
    | true =>
        rw [parse?_of_allBlank blank] at record
        cases record
  have read := Message.read?_obj members
  rw [answerId?, written, record, Option.bind_some]
  rw [has] at read
  cases message : Message.read? (.obj members) with
  | none =>
      rw [message] at read
      split at read
      · cases read
      · next unnamed => rw [if_neg unnamed]; rfl
  | some m =>
      rw [message] at read
      split at read
      · next named =>
        rw [if_pos named]
        cases read
        rfl
      · cases read

theorem Response.member_json_id (r : Response) : r.json.member? "id" = some r.id := by
  unfold Response.json
  cases r.outcome with
  | ok result => rfl
  | error refusal => rfl

namespace Server

variable {τ : Type} {s s' : Server τ}

/-- The ids of the answers that are still to come. -/
inductive Owes : Server τ → List Json → Prop where
  | nothing {s : Server τ} : s.ongoing = none → s.closing = none → s.unread = [] → Owes s []
  | ongoing {s : Server τ} (o : Ongoing) : s.ongoing = some o → o.task.result? = none →
      s.closing = none → Owes s (o.id :: s.unread.filterMap answerId?)
  /-- The session that the request has replaced is on its way to its end. -/
  | closing {s : Server τ} (c : Closing) : s.closing = some c → c.task.result? = none →
      s.ongoing = none → s.session.isSome = true → Owes s (c.id :: s.unread.filterMap answerId?)

theorem Owes.nothing_iff {owed : List Json} (owes : s.Owes owed) : owed = [] ↔ s.isIdle = true := by
  cases owes with
  | nothing none moving read => simp [isIdle, none, moving]
  | ongoing o some => simp [isIdle, some]
  | closing c some => simp [isIdle, some]

theorem Owes.eq_of_ongoing {owed : List Json} {o : Ongoing} (owes : s.Owes owed)
    (underWay : s.ongoing = some o) : owed = o.id :: s.unread.filterMap answerId? := by
  cases owes with
  | nothing none => rw [none] at underWay; cases underWay
  | ongoing o' same => rw [same] at underWay; cases underWay; rfl
  | closing c _ _ none => rw [none] at underWay; cases underWay

theorem Owes.eq_of_closing {owed : List Json} {c : Closing} (owes : s.Owes owed)
    (closing : s.closing = some c) : owed = c.id :: s.unread.filterMap answerId? ∧
      s.ongoing = none ∧ s.session.isSome = true := by
  cases owes with
  | nothing _ none => rw [none] at closing; cases closing
  | ongoing o _ _ none => rw [none] at closing; cases closing
  | closing c' same _ none current =>
      rw [same] at closing
      cases closing
      exact ⟨rfl, none, current⟩

theorem not_owes_of_both {owed : List Json} {o : Ongoing} {c : Closing}
    (underWay : s.ongoing = some o) (closing : s.closing = some c) : ¬ s.Owes owed := by
  intro owes
  rw [(owes.eq_of_closing closing).2.1] at underWay
  cases underWay

/-- A request has been answered under its id, or is under way; what has to wait still waits. -/
inductive Attends (id : Json) (s : Server τ) : Option Response → Server τ → Prop where
  | answered {s' : Server τ} (r : Response) : r.id = id → s'.ongoing = none →
      s'.closing = none → s'.unread = s.unread → Attends id s (some r) s'
  | underWay {s' : Server τ} (o : Ongoing) : o.id = id → s'.ongoing = some o →
      o.task.result? = none → s'.closing = none → s'.unread = s.unread → Attends id s none s'
  | closing {s' : Server τ} (c : Closing) : c.id = id → s'.closing = some c →
      c.task.result? = none → s'.ongoing = none → s'.session.isSome = true →
      s'.unread = s.unread → Attends id s none s'

variable {net : Network τ}

theorem attends_finish (o : Ongoing) (m : SessionMachine) (result : Except EngineError Json)
    (moving : s.closing = none) :
    Yields (finish o m result) s fun r => Attends o.id s (some r) := by
  obtain ⟨id, place, task⟩ := o
  refine .afterModify ?_
  cases place with
  | left previous => exact .answered _ rfl rfl moving rfl
  | current isNew =>
      cases isNew with
      | false => exact .answered _ rfl rfl moving rfl
      | true =>
          cases result with
          | ok json => exact .answered _ rfl rfl moving rfl
          | error e => exact .answered _ rfl rfl moving rfl

/-- Work on a session neither starts nor ends a request. -/
structure Works (s s' : Server τ) : Prop where
  ongoing : s'.ongoing = s.ongoing
  closing : s'.closing = s.closing
  unread : s'.unread = s.unread
  session : s.session.isSome = true → s'.session.isSome = true

theorem Works.owes {owed : List Json} (works : Works s s') (owes : s.Owes owed) : s'.Owes owed := by
  cases owes with
  | nothing none moving read =>
      exact .nothing (works.ongoing.trans none) (works.closing.trans moving)
        (works.unread.trans read)
  | ongoing o some waits moving =>
      rw [← works.unread]
      exact .ongoing o (works.ongoing.trans some) waits (works.closing.trans moving)
  | closing c some waits none current =>
      rw [← works.unread]
      exact .closing c (works.closing.trans some) waits (works.ongoing.trans none)
        (works.session current)

theorem works_run {α : Type} (m : SessionMachine) (request : Task SessionState SessionEvent α) :
    Yields (run net m request) s fun _ => Works s :=
  ⟨rfl, rfl, rfl, id⟩

theorem attends_proceed (o : Ongoing) (m : SessionMachine) (moving : s.closing = none) :
    Yields (proceed net o m) s (Attends o.id s) := by
  refine (works_run m o.task).bind fun (task, m') s₁ works => ?_
  dsimp only
  have moving₁ : s₁.closing = none := works.closing.trans moving
  cases waits : task.result? with
  | some result =>
      refine .map ((attends_finish o m' result moving₁).mono fun r s' attends => ?_)
      cases attends with
      | answered _ same none moving unread =>
          exact .answered r same none moving (unread.trans works.unread)
  | none =>
      obtain ⟨id, place, before⟩ := o
      cases place with
      | current isNew =>
          exact .underWay ⟨id, .current isNew, task⟩ rfl rfl waits moving₁ works.unread
      | left previous =>
          exact .underWay ⟨id, .left m', task⟩ rfl rfl waits moving₁ works.unread

theorem Attends.trans {id : Json} {r : Option Response} {s₁ : Server τ}
    (attends : Attends id s₁ r s') (unread : s₁.unread = s.unread) : Attends id s r s' := by
  cases attends with
  | answered r same none moving unread' => exact .answered r same none moving (unread'.trans unread)
  | underWay o same some waits moving unread' =>
      exact .underWay o same some waits moving (unread'.trans unread)
  | closing c same some waits none current unread' =>
      exact .closing c same some waits none current (unread'.trans unread)

theorem attends_beginWork (id : Json) (work : SessionWork Json) (current : s.session.isSome = true)
    (moving : s.closing = none) : Yields (beginWork net id work) s (Attends id s) := by
  obtain ⟨m, here⟩ := Option.isSome_iff_exists.mp current
  refine .afterGet ?_
  rw [here]
  exact attends_proceed _ m moving

theorem attends_close (c : Closing) (none : s.ongoing = none) (current : s.session.isSome = true) :
    Yields (close net c) s (Attends c.id s) := by
  refine (works_run c.session c.task).bind fun (task, m) s₁ works => ?_
  dsimp only
  have none₁ : s₁.ongoing = .none := works.ongoing.trans none
  cases waits : task.result? with
  | some result =>
      refine .afterModify ((attends_beginWork c.id c.work ?_ rfl).mono fun r s' attends => ?_)
      · exact works.session current
      · exact attends.trans works.unread
  | none =>
      refine .afterModify (.pure ?_)
      exact .closing { c with session := m, task } rfl rfl waits none₁ (works.session current)
        works.unread

theorem attends_connect (id : Json) (agent : Endpoint) (config : SessionConfig)
    (work : SessionWork Json) (none : s.ongoing = none) (moving : s.closing = .none) :
    Yields (connect net id agent config work) s (Attends id s) := by
  refine .afterGet (.afterSet ?_)
  split
  · exact .pure (.answered _ rfl none moving rfl)
  · refine .afterModify ?_
    split
    · refine Yields.mono (attends_beginWork id work ?_ moving) fun r s' attends => attends.trans rfl
      exact rfl
    · refine Yields.mono (attends_close _ none ?_) fun r s' attends => attends.trans rfl
      exact rfl

theorem attends_disconnect (id : Json) (kill : Bool) (none : s.ongoing = none)
    (moving : s.closing = .none) : Yields (disconnect net id kill) s (Attends id s) := by
  refine .afterGet ?_
  split
  · exact .pure (.answered _ rfl none moving rfl)
  · refine .afterModify (.mono (attends_proceed _ _ ?_) fun r s' attends => ?_)
    · exact moving
    · exact attends.trans rfl

theorem attends_perform (id : Json) (request : Request) (none : s.ongoing = none)
    (moving : s.closing = .none) : Yields (perform net id request) s (Attends id s) := by
  cases request with
  | capabilities => exact .pure (.answered _ rfl none moving rfl)
  | launch agent config request => exact attends_connect id agent config _ none moving
  | attach agent config pid => exact attends_connect id agent config _ none moving
  | disconnect kill => exact attends_disconnect id kill none moving
  | session request =>
      refine .afterGet ?_
      split
      · exact .pure (.answered _ rfl none moving rfl)
      · exact attends_proceed _ _ moving

/-- The ids that were owed and those that came are those answered, and then those owed. -/
def KeepsCount (s : Server τ) (came : List Json) (answers : List Response) (s' : Server τ) : Prop :=
  ∀ owed, s.Owes owed → ∃ owed', s'.Owes owed' ∧ owed ++ came = answers.map Response.id ++ owed'

namespace KeepsCount

theorem refl (s : Server τ) : KeepsCount s [] [] s :=
  fun owed owes => ⟨owed, owes, List.append_nil owed⟩

theorem append {came more : List Json} {answers later : List Response} {s₁ : Server τ}
    (first : KeepsCount s came answers s₁) (second : KeepsCount s₁ more later s') :
    KeepsCount s (came ++ more) (answers ++ later) s' := by
  intro owed owes
  obtain ⟨owed₁, owes₁, account₁⟩ := first owed owes
  obtain ⟨owed', owes', account'⟩ := second owed₁ owes₁
  refine ⟨owed', owes', ?_⟩
  rw [← List.append_assoc, account₁, List.append_assoc, account', List.map_append,
    List.append_assoc]

end KeepsCount

/-- A request that is attended to by an idle server is answered or owed. -/
theorem Attends.owes {id : Json} {r : Option Response} (attends : Attends id s r s')
    (read : s.unread = []) :
    ∃ owed, s'.Owes owed ∧ [id] = r.toList.map Response.id ++ owed := by
  cases attends with
  | answered r same none moving unread =>
      exact ⟨[], .nothing none moving (unread.trans read), by simp [same]⟩
  | underWay o same some waits moving unread =>
      refine ⟨_, .ongoing o some waits moving, ?_⟩
      simp [unread, read, same]
  | closing c same some waits none current unread =>
      refine ⟨_, .closing c some waits none current, ?_⟩
      simp [unread, read, same]

theorem attends_respond (line : String) (none : s.ongoing = none) (moving : s.closing = .none) :
    Yields (respond net line) s
      (Attends (((Json.parse? line).bind Message.read?).elim .null (·.id)) s) := by
  unfold respond
  cases Json.parse? line with
  | none => exact .pure (.answered _ rfl none moving rfl)
  | some j =>
      dsimp only [Option.bind_some]
      cases Message.read? j with
      | none => exact .pure (.answered _ rfl none moving rfl)
      | some m =>
          dsimp only [Option.elim]
          split
          · exact .pure (.answered _ rfl none moving rfl)
          · exact attends_perform m.id _ none moving

theorem Owes.keep {owed : List Json} (owes : s.Owes owed) (busy : s.isIdle = false)
    (line : String) :
    Owes { s with unread := s.unread ++ [line] } (owed ++ (answerId? line).toList) := by
  have one : [line].filterMap answerId? = (answerId? line).toList := by
    rw [List.filterMap_cons]
    cases answerId? line <;> rfl
  cases owes with
  | nothing none moving read => simp [isIdle, none, moving] at busy
  | ongoing o some waits moving =>
      rw [List.cons_append, ← one, ← List.filterMap_append]
      exact .ongoing o some waits moving
  | closing c some waits none current =>
      rw [List.cons_append, ← one, ← List.filterMap_append]
      exact .closing c some waits none current

theorem counts_receive (line : String) :
    Yields (receive net line) s fun r => KeepsCount s (answerId? line).toList r.toList := by
  refine .afterGet ?_
  split
  · next busy =>
    refine .afterModify (.pure fun owed owes => ?_)
    exact ⟨_, owes.keep (by simpa using busy) line, rfl⟩
  · next idle =>
    split
    · next blank =>
      refine .pure fun owed owes => ⟨owed, owes, ?_⟩
      simp [answerId?, blank]
    · next written =>
      obtain ⟨none, moving⟩ := isIdle_iff.mp (by simpa using idle)
      refine (attends_respond (Text.trim line) none moving).mono fun r s' attends owed owes => ?_
      cases owes with
      | ongoing o some _ => rw [none] at some; cases some
      | closing c some => rw [moving] at some; cases some
      | nothing _ _ read =>
          obtain ⟨owed', owes', account⟩ := attends.owes read
          refine ⟨owed', owes', ?_⟩
          rw [answerId?, if_neg written]
          exact account

theorem counts_serve (lines : List String) (s : Server τ) :
    Yields (serve net lines) s (KeepsCount s (lines.filterMap answerId?)) := by
  induction lines generalizing s with
  | nil => exact .pure (.refl s)
  | cons line rest inductionHypothesis =>
      have split : (line :: rest).filterMap answerId? =
          (answerId? line).toList ++ rest.filterMap answerId? := by
        rw [List.filterMap_cons]
        cases answerId? line <;> rfl
      rw [serve_cons, split]
      refine (counts_receive line).bind fun r s₁ first => ?_
      refine (inductionHypothesis s₁).bind fun answers s' second => ?_
      exact .pure (first.append second)

/-- The lines that had to wait are taken in as if they came now. -/
theorem counts_catchUp (none : s.ongoing = none) (moving : s.closing = .none) :
    Yields (catchUp net) s fun answers s' => ∃ owed, s'.Owes owed ∧
      s.unread.filterMap answerId? = answers.map Response.id ++ owed := by
  refine .afterGet (.afterModify ?_)
  refine (counts_serve s.unread _).mono fun answers s' counts => ?_
  exact counts [] (.nothing none moving rfl)

/-- What goes on is owed its answer, and the lines that wait are owed theirs behind that. -/
theorem counts_answering (id : Json) {p : Serving τ (Option Response)}
    (owing : ∀ owed, s.Owes owed → owed = id :: s.unread.filterMap answerId?)
    (attends : Yields p s (Attends id s)) : Yields (answering net p) s (KeepsCount s []) := by
  refine attends.bind fun r s₁ attends => ?_
  cases attends with
  | underWay o same some waits moving read =>
      refine .pure fun owed owes => ⟨owed, ?_, List.append_nil owed⟩
      rw [owing owed owes, ← same, ← read]
      exact .ongoing o some waits moving
  | closing c same some waits none current read =>
      refine .pure fun owed owes => ⟨owed, ?_, List.append_nil owed⟩
      rw [owing owed owes, ← same, ← read]
      exact .closing c some waits none current
  | answered r same none moving read =>
      refine (counts_catchUp none moving).bind fun answers s' caughtUp => .pure ?_
      intro owed owes
      obtain ⟨owed', owes', account⟩ := caughtUp
      refine ⟨owed', owes', ?_⟩
      rw [owing owed owes, ← read, account, List.append_nil, List.map_cons, List.cons_append, same]

theorem counts_notify (events : List NativeEvent) :
    Yields (notify net events) s (KeepsCount s []) := by
  refine .afterGet ?_
  split
  · exact .pure (.refl s)
  · refine (works_run _ _).bind fun (_, m') s₁ works => .afterModify (.pure fun owed owes => ?_)
    have works : Works s { s₁ with session := some m' } :=
      ⟨works.ongoing, works.closing, works.unread, fun _ => rfl⟩
    exact ⟨owed, works.owes owes, List.append_nil owed⟩
  · next _ _ o some =>
    extract_lets m?
    cases m? with
    | none => exact .pure (.refl s)
    | some m =>
      cases moving : s.closing with
      | some c => exact fun owed owes => absurd owes (not_owes_of_both some moving)
      | none =>
          exact counts_answering o.id (fun _ owes => owes.eq_of_ongoing some)
            (attends_proceed o _ moving)

theorem counts_notifyReplaced (events : List NativeEvent) :
    Yields (notifyReplaced net events) s (KeepsCount s []) := by
  refine .afterGet ?_
  split
  · exact .pure (.refl s)
  · next c closing =>
    -- without a session in its place no session is on its way to its end
    intro owed owes
    obtain ⟨-, none, current⟩ := owes.eq_of_closing closing
    refine counts_answering c.id ?_ ?_ owed owes
    · exact fun owed owes => (owes.eq_of_closing closing).1
    · exact attends_close { c with session := c.session.raise events } none current

/-! ## Histories -/

theorem counts_live (net : Network τ) (occurrences : List Occurrence) (s : Server τ) :
    Yields (live net occurrences) s
      (KeepsCount s ((Occurrence.lines occurrences).filterMap answerId?)) := by
  induction occurrences generalizing s with
  | nil => exact .pure (.refl s)
  | cons o rest inductionHypothesis =>
      have now : Yields (occur net o) s
          (KeepsCount s ((Occurrence.lines [o]).filterMap answerId?)) := by
        cases o with
        | line text =>
            have one : [text].filterMap answerId? = (answerId? text).toList := by
              rw [List.filterMap_cons]
              cases answerId? text <;> rfl
            refine (counts_receive text).bind fun r s₁ counts => .pure ?_
            exact one ▸ counts
        | notified events => exact counts_notify events
        | notifiedReplaced events => exact counts_notifyReplaced events
        | told =>
            have works : Works s { s with events := [] } := ⟨rfl, rfl, rfl, id⟩
            exact fun owed owes => ⟨owed, works.owes owes, List.append_nil owed⟩
      have split : (Occurrence.lines (o :: rest)).filterMap answerId? =
          (Occurrence.lines [o]).filterMap answerId? ++
            (Occurrence.lines rest).filterMap answerId? := by
        rw [← List.filterMap_append, Occurrence.lines, Occurrence.lines, Occurrence.lines,
          ← List.filterMap_append, List.singleton_append]
      rw [split]
      refine now.bind fun answers s₁ first => ?_
      refine (inductionHypothesis s₁).bind fun later s' second => ?_
      exact .pure (first.append second)

/-- Nothing was ever opened. -/
structure Vacant (s : Server τ) : Prop where
  session : s.session = none
  ongoing : s.ongoing = none
  closing : s.closing = none

theorem Vacant.isIdle (vacant : s.Vacant) : s.isIdle = true := by
  simp [Server.isIdle, vacant.ongoing, vacant.closing]

section Unreachable

variable (unreachable : ∀ agent t, (net.connect agent t).1 = false)

include unreachable

theorem vacant_perform (id : Json) (request : Request) (vacant : s.Vacant) :
    Yields (perform net id request) s fun _ => Vacant := by
  have connect (agent : Endpoint) (config : SessionConfig) (work : SessionWork Json) :
      Yields (connect net id agent config work) s fun _ => Vacant := by
    refine .afterGet (.afterSet ?_)
    rw [unreachable, Bool.not_false, if_pos rfl]
    exact .pure ⟨vacant.session, vacant.ongoing, vacant.closing⟩
  cases request with
  | capabilities => exact .pure vacant
  | launch agent config request => exact connect agent config _
  | attach agent config pid => exact connect agent config _
  | disconnect kill =>
      refine .afterGet ?_
      rw [vacant.session]
      exact .pure vacant
  | session request =>
      refine .afterGet ?_
      rw [vacant.session]
      exact .pure vacant

theorem invariant_vacant : Invariant net Vacant where
  waiting _ _ _ vacant := ⟨vacant.session, vacant.ongoing, vacant.closing⟩
  performed _ id request _ vacant := vacant_perform unreachable id request vacant
  goesOn _ o _ _ underWay _ vacant :=
    absurd (vacant.ongoing.symm.trans underWay) (Option.some_ne_none o).symm
  notified s events _ vacant := by
    refine .afterGet ?_
    rw [vacant.ongoing, vacant.session]
    exact .pure vacant
  closes _ c _ closing vacant :=
    absurd (vacant.closing.symm.trans closing) (Option.some_ne_none c).symm

end Unreachable

/-- Whatever reaches a server, it answers the lines that are not blank once each and in order, up to
one that it is at work on and those that came later. Where nobody can be reached it is never at work
after a line. The id of a line is the one in its record if the record names a method too. -/
theorem answers_inOrder (net : Network τ) (target : τ) (occurrences : List Occurrence) :
    let (answers, s) := live net occurrences (start target)
    let ids := (Occurrence.lines occurrences).filterMap answerId?
    (∃ owed, s.Owes owed ∧ answers.map Response.id ++ owed = ids) ∧
    (s.isIdle = true → answers.map Response.id = ids) ∧
    ((∀ agent t, (net.connect agent t).1 = false) → s.isIdle = true) ∧
    (∀ r ∈ answers, r.json.member? "id" = some r.id) ∧
    ∀ line members id, Json.parse? (Text.trim line) = some (.obj members) →
      (Json.obj members).member? "id" = some id →
      answerId? line = some (if (((Json.obj members).member? "method").bind Json.str?).isSome
        then id else .null) := by
  dsimp only
  obtain ⟨owed, owes, account⟩ :=
    counts_live net occurrences (start target) [] (.nothing rfl rfl rfl)
  have account := account.symm.trans (List.nil_append _)
  refine ⟨⟨owed, owes, account⟩, fun idle => ?_, fun unreachable => ?_, fun r _ => ?_, ?_⟩
  · rw [owes.nothing_iff.mpr idle, List.append_nil] at account
    exact account
  · exact ((invariant_vacant unreachable).live occurrences ⟨rfl, rfl, rfl⟩).isIdle
  · exact r.member_json_id
  · intro line members id record has
    exact answerId?_of_record record has

/-- A record with an id and without a method is answered under no id. -/
theorem id_lost_withoutMethod :
    Json.parse? (Text.trim "\x7b\"id\":5\x7d") = some (.obj [("id", .int 5)]) ∧
    (live Network.offline [.line "\x7b\"id\":5\x7d"] (start ())).1.map (·.json.member? "id") =
      [some .null] := by
  have parsed : Json.parse? (Text.trim "\x7b\"id\":5\x7d") = some (.obj [("id", .int 5)]) := by cbv
  refine ⟨parsed, ?_⟩
  have responds : receive Network.offline "\x7b\"id\":5\x7d" (start ()) =
      respond Network.offline (Text.trim "\x7b\"id\":5\x7d") (start ()) := rfl
  have refused : (receive Network.offline "\x7b\"id\":5\x7d" (start ())).1 =
      some ⟨.null, .error .notARequest⟩ := by
    rw [responds, respond, parsed]
    rfl
  have alone : (live Network.offline [.line "\x7b\"id\":5\x7d"] (start ())).1 =
      (receive Network.offline "\x7b\"id\":5\x7d" (start ())).1.toList ++ [] := rfl
  rw [alone, refused]
  rfl

end Server

end ManagedDebugger
