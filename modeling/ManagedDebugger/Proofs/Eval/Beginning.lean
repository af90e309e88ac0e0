import ManagedDebugger.Proofs.Eval.Compiled
import ManagedDebugger.Proofs.Expr.Access

/-!
# Evaluations that begin as others

An expression with an access behind it is evaluated by evaluating the expression first. Names are
bound late, so this is no matter of the stack alone: while no variable has the name at the head of
a chain, the types that its leading parts may name are looked up, and the lookup for a longer chain
begins as the one for the shorter.
-/

namespace ManagedDebugger

namespace Eval

variable {α β γ : Type} {p : Eval α} {q : Eval β} {f : α → Option (Eval β)}

/-- `q` begins as `p` does. Where `p` comes to a result from which `f` says how to go on, `q` goes
on so. -/
def Begins (q : Eval β) (p : Eval α) (f : α → Option (Eval β)) : Prop :=
  ∀ es b, q.run.Plays es b → ∃ first r rest, p.run.Plays first r ∧ es = first ++ rest ∧
    ∀ a k, r = .ok a → f a = some k → k.run.Plays rest b

theorem begins_bind (p : Eval α) (g : α → Eval β) : (p >>= g).Begins p fun a => some (g a) := by
  intro es b played
  obtain ⟨first, r, rest, left, right, rfl⟩ := Program.plays_bind_iff.mp played
  refine ⟨first, r, rest, left, rfl, fun a k same known => ?_⟩
  subst same
  obtain rfl := Option.some.inj known
  exact right

theorem begins_pure {a : α} (goesOn : ∀ k, f a = some k → q = k) : q.Begins (pure a) f := by
  intro es b played
  refine ⟨[], .ok a, es, .done _, rfl, fun c k same known => ?_⟩
  obtain rfl := Except.ok.inj same
  exact goesOn k known ▸ played

theorem begins_throw (e : EvalError) : q.Begins (throw e) f :=
  fun es _ _ => ⟨[], .error e, es, .done _, rfl, fun _ _ same => nomatch same⟩

namespace Begins

/-- After a common part. -/
theorem after {m : Eval γ} {p : γ → Eval α} {q : γ → Eval β}
    (begins : ∀ c, (q c).Begins (p c) f) : (m >>= q).Begins (m >>= p) f := by
  intro es b played
  obtain ⟨front, r, back, left, right, rfl⟩ := Program.plays_bind_iff.mp played
  cases r with
  | error e =>
      refine ⟨front ++ [], .error e, back, Program.Plays.bind left (.done _), ?_, ?_⟩
      · rw [List.append_nil]
      · exact fun _ _ same => nomatch same
  | ok c =>
      obtain ⟨first, r, rest, start, rfl, goesOn⟩ := begins c back b right
      refine ⟨front ++ first, r, rest, Program.Plays.bind left start, ?_, goesOn⟩
      rw [List.append_assoc]

protected theorem bind (begins : q.Begins p f) (g : β → Eval γ) :
    (q >>= g).Begins p fun a => (f a).map (· >>= g) := by
  intro es b played
  obtain ⟨front, c, back, left, right, rfl⟩ := Program.plays_bind_iff.mp played
  obtain ⟨first, r, rest, start, rfl, goesOn⟩ := begins front c left
  refine ⟨first, r, rest ++ back, start, List.append_assoc .., fun a k same known => ?_⟩
  obtain ⟨l, goes, rfl⟩ := Option.map_eq_some_iff.mp known
  exact Program.Plays.bind (goesOn a l same goes) right

theorem trans {f : α → Eval β} {g : α → Eval γ} {h : γ → Option (Eval β)}
    (begins : q.Begins p fun a => some (f a)) (goesOn : ∀ a, (f a).Begins (g a) h) :
    q.Begins (p >>= g) h := by
  intro es b played
  obtain ⟨first, r, rest, left, rfl, following⟩ := begins es b played
  cases r with
  | error e =>
      refine ⟨first ++ [], .error e, rest, Program.Plays.bind left (.done _), ?_, ?_⟩
      · rw [List.append_nil]
      · exact fun _ _ same => nomatch same
  | ok a =>
      obtain ⟨second, r, back, right, rfl, last⟩ := goesOn a rest b (following a _ rfl rfl)
      refine ⟨first ++ second, r, back, Program.Plays.bind left right, ?_, last⟩
      rw [List.append_assoc]

end Begins

end Eval

open Eval

namespace EvalScope

variable (s : EvalScope)

theorem members_append (target : Resolved) (editable : Bool) (segments more : List Segment) :
    s.members target editable (segments ++ more) =
      s.members target editable segments >>= fun x => s.members x.1 x.2 more := by
  induction segments generalizing target editable with
  | nil => rw [List.nil_append, members, pure_bind]
  | cons segment segments inductionHypothesis =>
      simp only [List.cons_append, members, bind_assoc, inductionHypothesis]

theorem members_single (target : Resolved) (editable : Bool) (segment : Segment) :
    s.members target editable [segment] = s.member target segment := by
  rw [members]
  exact bind_pure _

theorem leadingType_append (path : List String) (segments more : List Segment) :
    s.leadingType path (segments ++ more) = s.leadingType path segments >>= fun
      | some (t, rest) => pure (some (t, rest ++ more))
      | none => s.leadingType (path ++ segments.map (·.metadataName)) more := by
  induction segments generalizing path with
  | nil => simp only [List.nil_append, leadingType, pure_bind, List.map_nil, List.append_nil]
  | cons segment segments inductionHypothesis =>
      simp only [List.cons_append, leadingType, bind_assoc]
      refine bind_congr fun found => ?_
      cases found with
      | none =>
          simp only [inductionHypothesis, List.map_cons, List.append_assoc, List.singleton_append]
      | some t => simp only [pure_bind]

/-- The type at the head of a chain, if a leading part of the chain names one. -/
def typeHead (segments : List Segment) (missing : String) :
    Eval (Resolved × Bool × List Segment) := do
  match ← s.leadingType [] segments with
  | some (t, rest) => return (.type t, false, rest)
  | none => throw (.nameNotFound missing)

theorem begins_typeHead (segments more : List Segment) (missing : String) :
    (s.typeHead (segments ++ more) missing).Begins (s.typeHead segments missing)
      fun x => some (pure (x.1, x.2.1, x.2.2 ++ more)) := by
  rw [typeHead, leadingType_append, bind_assoc, typeHead]
  refine Begins.after fun found => ?_
  cases found with
  | none => exact begins_throw _
  | some x => exact begins_pure fun k known => Option.some.inj known

/-- A longer chain has the same head. -/
theorem begins_head (first : Segment) (rest more : List Segment) :
    (s.head first (rest ++ more)).Begins (s.head first rest)
      fun x => some (pure (x.1, x.2.1, x.2.2 ++ more)) := by
  have types := s.begins_typeHead (first :: rest) more first.name
  -- A variable is looked for first, by a name that both chains start with.
  unfold head
  split
  · refine Begins.after fun found => ?_
    cases found with
    | none => exact types
    | some x => exact begins_pure fun k known => Option.some.inj known
  · exact types

theorem begins_members (target : Resolved) (editable : Bool) (segments : List Segment)
    (segment : Segment) :
    (s.members target editable (segments ++ [segment])).Begins (s.members target editable segments)
      fun r => some (s.member r.1 segment) := by
  rw [members_append]
  simp only [members_single]
  exact begins_bind _ _

/-- One more member of a chain is a member of what the chain comes to. -/
theorem begins_access {x : StackEntry} (segment : Segment) (reached : x.skipped = false)
    (notNull : x.isNullLiteral = false) :
    (s.resolve (x.access segment)).Begins (s.resolve x) fun r => some (s.member r.1 segment) := by
  obtain ⟨base, chain, skipped, literal, editable⟩ := x
  obtain rfl : skipped = false := reached
  have notNull' : (StackEntry.mk base (chain ++ [segment]) false literal editable).isNullLiteral =
      false := notNull
  simp only [StackEntry.access, resolve, Bool.false_eq_true, if_false, notNull, notNull',
    Bool.false_and]
  cases base with
  | some r => exact s.begins_members r editable chain segment
  | none =>
      cases chain with
      | nil => exact begins_throw _
      | cons first rest =>
          refine ((s.begins_head first rest [segment]).bind _).trans fun x => ?_
          exact s.begins_members x.1 x.2.1 x.2.2 segment

/-- What an entry comes to, if that is a value. -/
def result (x : StackEntry) : Eval Evaluated := do
  let (r, editable) ← s.resolve x
  let v ← r.toValue
  return ⟨v, editable⟩

theorem result_of_resolve {x : StackEntry} {v : EvalValue} {editable : Bool}
    (resolved : s.resolve x = pure (.value v, editable)) : s.result x = pure ⟨v, editable⟩ := by
  rw [result, resolved]
  rfl

end EvalScope

/-- Where an evaluation comes to a value in the target, what is done with that. -/
def Evaluated.fromRemote (next : RemoteValue → Eval Evaluated) (r : Evaluated) :
    Option (Eval Evaluated) :=
  match r.value with
  | .remote v => some (next v)
  | _ => none

namespace EvalScope

variable (s : EvalScope)

/-- The member of a value in the target. -/
def remoteMember (name : String) (v : RemoteValue) : Eval Evaluated := do
  let (r, editable) ← s.member (.value (.remote v)) ⟨name, []⟩
  let v ← r.toValue
  return ⟨v, editable⟩

/-- A skipped chain is null, and so is the literal, which has no members. -/
theorem begins_null {x : StackEntry} (null : x.skipped = true ∨ x.isNullLiteral = true)
    (q : Eval Evaluated) (next : RemoteValue → Eval Evaluated) :
    q.Begins (s.result x) (Evaluated.fromRemote next) := by
  have nothing (editable : Bool) :
      q.Begins (pure ⟨.null, editable⟩) (Evaluated.fromRemote next) := begins_pure nofun
  obtain ⟨base, chain, skipped, literal, editable⟩ := x
  by_cases reached : skipped = true
  · subst reached
    have resolved : s.resolve ⟨base, chain, true, literal, editable⟩ =
        pure (.value .null, false) := rfl
    rw [s.result_of_resolve resolved]
    exact nothing false
  obtain rfl : skipped = false := eq_false_of_ne_true reached
  have isNull := null.resolve_left nofun
  obtain ⟨rfl, isBase⟩ := Bool.and_eq_true_iff.mp isNull
  obtain rfl : base = some (.value .null) := eq_of_beq isBase
  cases chain with
  | nil =>
      rw [s.result_of_resolve (StackEntry.resolve_bound _ editable true)]
      exact nothing editable
  | cons first rest => exact begins_throw _

theorem begins_result_access (x : StackEntry) (name : String) :
    (s.result (x.access ⟨name, []⟩)).Begins (s.result x)
      (Evaluated.fromRemote (s.remoteMember name)) := by
  by_cases null : x.skipped = true ∨ x.isNullLiteral = true
  · exact s.begins_null null _ _
  have reached : x.skipped = false := eq_false_of_ne_true fun skipped => null (.inl skipped)
  have notNull : x.isNullLiteral = false := eq_false_of_ne_true fun literal => null (.inr literal)
  refine ((s.begins_access ⟨name, []⟩ reached notNull).bind _).trans fun r => ?_
  obtain ⟨r, editable⟩ := r
  cases r with
  | type t => exact begins_throw _
  | value v =>
      refine begins_pure fun k known => ?_
      cases v with
      | remote v => exact Option.some.inj known
      | primitive p => cases known
      | null => cases known
      | void => cases known

/-- The element of a value in the target. -/
def remoteElement (indices : List EvalValue) (v : RemoteValue) : Eval Evaluated := do
  let (v, editable) ← s.element (.remote v) indices
  return ⟨v, editable⟩

theorem begins_result_element (x : StackEntry) (indices : List EvalValue) :
    (s.elementEntry x indices >>= s.result).Begins (s.result x)
      (Evaluated.fromRemote (s.remoteElement indices)) := by
  by_cases skipped : x.skipped = true
  · exact s.begins_null (.inl skipped) _ _
  rw [elementEntry, if_neg skipped, resolveValue]
  simp only [bind_assoc]
  refine Begins.after fun r => ?_
  obtain ⟨r, editable⟩ := r
  cases r with
  | type t => exact begins_throw _
  | value v =>
      refine begins_pure fun k known => ?_
      cases v with
      | remote v =>
          obtain rfl := Option.some.inj known
          have kept (found : EvalValue × Bool) :
              s.result (.ofValue found.1 found.2) = pure ⟨found.1, found.2⟩ :=
            s.result_of_resolve (StackEntry.resolve_bound _ _ _)
          change (s.element (.remote v) indices >>= fun found =>
            s.result (.ofValue found.1 found.2)) = _
          simp only [kept]
          rfl
      | primitive p => cases known
      | null => cases known
      | void => cases known

end EvalScope

namespace Expr

variable (s : EvalScope) (checked : Bool)

theorem evaluate_eq_result (e : Expr) :
    e.evaluate s .onUse checked = e.walk s .onUse checked >>= s.result := rfl

theorem begins_member (e : Expr) (name : String) :
    ((Access.member name).apply e |>.evaluate s .onUse checked).Begins
      (e.evaluate s .onUse checked) (Evaluated.fromRemote (s.remoteMember name)) := by
  rw [evaluate_eq_result, evaluate_eq_result, Access.apply, walk]
  simp only [EvalScope.guardedIf, Bool.false_eq_true, if_false, bind_assoc, pure_bind,
    Option.getD_none]
  exact Begins.after fun x => s.begins_result_access x name

/-- The value of an index that is written out. -/
def indexOperand (i : UInt32) : EvalValue := .primitive (indexValue i)

theorem walkAll_indices (indices : List UInt32) :
    walkAll s .onUse checked (indices.map index) >>= s.resolveValues =
      pure (indices.map indexOperand) := by
  induction indices with
  | nil => rfl
  | cons i indices inductionHypothesis =>
      have walked : (index i).walk s .onUse checked = pure (.ofLiteral (indexOperand i)) := by
        rw [index, walk]
        rfl
      have value : s.resolveValue (.ofLiteral (indexOperand i)) = pure (indexOperand i) := by
        rw [EvalScope.resolveValue, StackEntry.ofLiteral, StackEntry.resolve_bound]
        rfl
      simp only [List.map_cons, walkAll, walked, EvalScope.operand, pure_bind, bind_assoc,
        EvalScope.resolveValues, value]
      rw [EvalScope.bind_of_resolveValues inductionHypothesis]

theorem begins_element (e : Expr) (indices : List UInt32) :
    ((Access.element indices).apply e |>.evaluate s .onUse checked).Begins
      (e.evaluate s .onUse checked)
      (Evaluated.fromRemote (s.remoteElement (indices.map indexOperand))) := by
  rw [evaluate_eq_result, evaluate_eq_result, Access.apply, walk]
  simp only [EvalScope.guardedIf, Bool.false_eq_true, if_false, bind_assoc, pure_bind,
    EvalScope.indexed_onUse]
  refine Begins.after fun x => ?_
  rw [EvalScope.bind_of_resolveValues (walkAll_indices s checked indices)]
  exact s.begins_result_element x _

theorem compile_of_parse? {text : String} {e : Expr} (parsed : parse? text = some [e]) :
    compile text = e.code false := by
  unfold compile
  generalize parse? text = all at parsed
  subst parsed
  rfl

theorem codeAll_indices (indices : List UInt32) :
    codeAll checked (indices.map index) =
      .ok (indices.map fun i => ⟨.literal (.primitive (indexValue i)), checked⟩) := by
  induction indices with
  | nil => rfl
  | cons i indices inductionHypothesis =>
      rw [List.map_cons, codeAll, inductionHypothesis]
      rfl

/-- An access is compiled where what it accesses is. -/
theorem code_apply {e : Expr} {code : Code} (compiled : e.code checked = .ok code)
    {access : Access} (valid : access.Valid) :
    ∃ whole, (access.apply e).code checked = .ok whole := by
  cases access with
  | member name =>
      refine ⟨code ++ conditionalCode false checked ++
        [⟨.name name [], checked⟩, ⟨.memberAccess, checked⟩], ?_⟩
      rw [Access.apply, Expr.code, compiled]
      rfl
  | element indices =>
      obtain ⟨i, is, rfl⟩ := List.exists_cons_of_ne_nil valid
      refine ⟨code ++ conditionalCode false checked ++
        (i :: is).map (fun j => ⟨.literal (.primitive (indexValue j)), checked⟩) ++
        [⟨.elementAccess ((i :: is).map index).length, checked⟩], ?_⟩
      rw [Access.apply, Expr.code, compiled, codeAll_indices]
      rfl

end Expr

/-- What an access makes of a value in the target. -/
def EvalContext.accessed (ctx : EvalContext) (v : RemoteValue) : Expr.Access → Eval Evaluated
  | .member name => EvalScope.remoteMember ⟨ctx, .empty⟩ name v
  | .element indices => EvalScope.remoteElement ⟨ctx, .empty⟩ (indices.map Expr.indexOperand) v

/-- An expression with an access behind it is evaluated as the expression is. If that comes to a
value in the target, the value is accessed. -/
theorem begins_evaluate (ctx : EvalContext) {text : String} {e : Expr}
    (read : Expr.primary? text = some e) {access : Expr.Access} (valid : access.Valid) :
    (evaluate ctx (text ++ access.text)).Begins (evaluate ctx text)
      (Evaluated.fromRemote fun v => ctx.accessed v access) := by
  have parsed : Expr.compile text = e.code false :=
    Expr.compile_of_parse? (Expr.parse?_of_primary? read)
  have parsedAccess : Expr.compile (text ++ access.text) = (access.apply e).code false :=
    Expr.compile_of_parse? (Expr.parse?_append_access read valid)
  rw [evaluate, evaluate, parsed, parsedAccess]
  cases compiled : e.code false with
  | error reason => exact begins_throw _
  | ok code =>
      obtain ⟨whole, compiledAccess⟩ := Expr.code_apply false compiled valid
      rw [compiledAccess]
      change (whole.evaluate ctx).Begins (code.evaluate ctx) _
      rw [(evaluate_code compiled ctx).1, (evaluate_code compiledAccess ctx).1]
      refine Begins.after fun frame => ?_
      cases access with
      | member name => exact Expr.begins_member ⟨ctx, frame⟩ false e name
      | element indices => exact Expr.begins_element ⟨ctx, frame⟩ false e indices

end ManagedDebugger
