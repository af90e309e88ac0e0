import ManagedDebugger.Proofs.Eval.Compiled
import ManagedDebugger.Proofs.Eval.Orderly.Interpreter

/-!
# Compiled programs fit the stack

The code of a tree leaves one entry on top of whatever was on the stack. An entry is a name, or a
value, or null after a conditional access; from the construct that it is an operand of follows which
of these it has to be, and the compiler emits nothing else. So each instruction finds the operands
that it needs, and the errors that the machine has for programs that are no such code never come out
of one.
-/

namespace ManagedDebugger

namespace Eval

variable {α β : Type}

/-- No error in the program itself comes out, whatever is replied. -/
def Sound (p : Program evalEffect (Except EvalError α)) : Prop := p.Returns Ordinary

theorem sound_pure (a : α) : Sound (pure a : Eval α).run := Program.returns_done (.ok a)

theorem sound_throw {e : EvalError} (other : e.kind ≠ .compilation) :
    Sound (throw e : Eval α).run :=
  Program.returns_done (.error other)

/-- What follows only has to be sound on what the first part can come to. -/
theorem Sound.bind {p : Eval α} {f : α → Eval β} {P : α → Prop} (first : Sound p.run)
    (returns : p.Returns P) (second : ∀ a, P a → Sound (f a).run) : Sound (p >>= f).run := by
  intro es r played
  obtain ⟨es₁, result, es₂, left, right, rfl⟩ := Program.plays_bind_iff.mp played
  cases result with
  | ok a => exact second a (returns es₁ (.ok a) left a rfl) es₂ r right
  | error e =>
      obtain ⟨rfl, rfl⟩ := Program.plays_done_iff.mp right
      exact .error (first es₁ (.error e) left e rfl)

theorem sound_perform {op : EvalOp} {next : op.Reply → Program evalEffect (Except EvalError α)}
    (continued : ∀ reply, Sound (next reply)) :
    Sound (Program.perform (E := evalEffect) op next) := by
  intro es r played
  obtain ⟨reply, rest, rfl, following⟩ := Program.plays_perform_iff.mp played
  exact continued reply rest r following

theorem sound_native (c : NativeCall) : Sound (Eval.native c).run := by
  refine sound_perform fun reply => ?_
  cases reply with
  | ok answer => exact sound_pure answer
  | error e => exact sound_throw nofun

theorem sound_remoteCall {limit : Option Nat} {thread : ThreadId} {start : Native EvalId}
    (begun : Sound (ofNative start).run) : Sound (RemoteCall.run limit thread start).run := by
  refine begun.bind (returns_trivial _) fun eval _ => ?_
  refine sound_perform fun ticket => sound_perform fun reply => ?_
  cases reply with
  | error e => exact sound_perform fun _ => sound_throw nofun
  | ok _ =>
      refine sound_perform fun delivery => ?_
      match delivery with
      | some (.outcome (.completed result)) => exact sound_pure result
      | some (.outcome (.threw exception)) => exact sound_throw nofun
      | some .closed => exact sound_throw nofun
      | none => exact sound_perform fun _ => sound_perform fun _ => sound_throw nofun

theorem Orderly.sound {limit : Option Nat} {thread : ThreadId} {p : Eval α}
    (orderly : Orderly false limit thread p) : Sound p.run := by
  induction orderly with
  | pure a => exact sound_pure a
  | fail e blamed => exact sound_throw fun own => nomatch blamed own
  | bind _ _ first second => exact first.bind (returns_trivial _) fun a _ => second a
  | native c _ => exact sound_native c
  | attempt _ _ =>
      intro es r played
      obtain ⟨_, result, _, _, ended, _⟩ := Program.plays_bind_iff.mp played
      obtain ⟨_, rfl⟩ := Program.plays_done_iff.mp ended
      exact .ok result
  | call method typeArguments arguments => exact sound_remoteCall (sound_native _)
  | string text => exact sound_remoteCall (sound_native _)

end Eval

/-- What the code of a tree leaves on the stack. Only a name that is still to be bound can be
called, and null in place of one. -/
structure Expr.Leaves (e : Expr) (x : StackEntry) : Prop where
  bindable : x.Bindable
  called : e.callable = .ok () → x.skipped = true ∨ ∃ method, x.chain.getLast? = some method

namespace EvalScope

variable (s : EvalScope)

/-- Each instruction of a program fits the stack that it finds, and what is left is as wanted. -/
def Disciplined (Q : Stack → Prop) : Code → Stack → Prop
  | [], stack => Q stack
  | i :: rest, stack => i.operation.Fits stack ∧ stack.Bindable ∧
      (s.execute i stack).Returns (Disciplined Q rest)

variable {s} {Q : Stack → Prop} {stack : Stack}

theorem disciplined_append (front back : Code) :
    s.Disciplined Q (front ++ back) = s.Disciplined (s.Disciplined Q back) front := by
  induction front with
  | nil => rfl
  | cons i rest inductionHypothesis =>
      funext stack
      simp only [List.cons_append, Disciplined, inductionHypothesis]

theorem Disciplined.returns {code : Code} (disciplined : s.Disciplined Q code stack) :
    (s.executeAll code stack).Returns Q := by
  induction code generalizing stack with
  | nil => exact Eval.returns_pure disciplined
  | cons i rest inductionHypothesis =>
      exact disciplined.2.2.bind fun stack following => inductionHypothesis following

theorem Disciplined.fits {code front back : Code} {i : Instruction}
    (disciplined : s.Disciplined Q code stack) (split : code = front ++ i :: back) :
    (s.executeAll front stack).Returns i.operation.Fits := by
  subst split
  rw [disciplined_append] at disciplined
  exact disciplined.returns.mono fun stack following => following.1

theorem Disciplined.sound {code : Code} (disciplined : s.Disciplined Q code stack) :
    Eval.Sound (s.executeAll code stack).run := by
  induction code generalizing stack with
  | nil => exact Eval.sound_pure stack
  | cons i rest inductionHypothesis =>
      obtain ⟨fits, bindable, continued⟩ := disciplined
      have first : Eval.Sound (s.execute i stack).run :=
        Eval.Orderly.sound (Eval.orderly_execute s (fun _ => bindable) i fun _ => fits)
      exact first.bind continued fun stack following => inductionHypothesis following

/-! ## What each instruction leaves -/

variable {x : StackEntry}

theorem returns_conditionalAccess (bindable : x.Bindable)
    (next : ∀ y, y.Bindable → Q (y :: stack)) :
    (s.conditionalAccess (x :: stack)).Returns Q := by
  rw [conditionalAccess, Stack.pop, pure_bind]
  dsimp only
  split
  · exact Eval.returns_pure (next x bindable)
  · exact (Eval.returns_trivial _).bind fun found _ => Eval.returns_pure (next _ (.inr (.inl rfl)))

theorem returns_elementAccess (bindable : x.Bindable) (xs : List StackEntry)
    (next : ∀ y, y.Bindable → Q (y :: stack)) :
    (s.elementAccess xs.length (xs.reverse ++ x :: stack)).Returns Q := by
  rw [elementAccess, Stack.popMany_reverse_append, pure_bind]
  refine (Eval.returns_trivial _).bind fun indices _ => ?_
  rw [Stack.pop, pure_bind]
  dsimp only
  split
  · exact Eval.returns_pure (next x bindable)
  · refine (Eval.returns_trivial _).bind fun v _ => (Eval.returns_trivial _).bind fun found _ => ?_
    exact Eval.returns_pure (next _ (StackEntry.bindable_ofValue _ _))

theorem returns_invocation (bindable : x.Bindable) (xs : List StackEntry)
    (next : ∀ y, y.Bindable → Q (y :: stack)) :
    (s.invocation xs.length (xs.reverse ++ x :: stack)).Returns Q := by
  rw [invocation, Stack.popMany_reverse_append, pure_bind]
  refine (Eval.returns_trivial _).bind fun arguments _ => ?_
  rw [Stack.pop, pure_bind]
  dsimp only
  split
  · exact Eval.returns_pure (next x bindable)
  · refine (Eval.returns_trivial _).bind fun v _ => ?_
    exact Eval.returns_pure (next _ (StackEntry.bindable_ofValue _ _))

theorem disciplined_conditionalCode (conditional checked : Bool) (bindable : x.Bindable)
    (below : stack.Bindable) (next : ∀ y, y.Bindable → Q (y :: stack)) :
    s.Disciplined Q (Expr.conditionalCode conditional checked) (x :: stack) := by
  cases conditional with
  | false => exact next x bindable
  | true =>
      refine ⟨⟨Nat.succ_pos _, nofun, nofun⟩, below.push bindable, ?_⟩
      exact returns_conditionalAccess bindable next

theorem memberAccess_ofName (segment : Segment) :
    memberAccess (.ofName segment :: x :: stack) = pure (x.access segment :: stack) := by
  rw [memberAccess, Stack.pop, pure_bind, StackEntry.access]
  dsimp only [StackEntry.ofName]
  split <;> rfl

theorem bindable_access (bindable : x.Bindable) (segment : Segment) :
    (x.access segment).Bindable := by
  unfold StackEntry.access
  split
  · exact bindable
  · exact .inr (.inr (by simp))

/-- A name and the access to it. -/
theorem disciplined_memberAccess (segment : Segment) (checked : Bool) (bindable : x.Bindable)
    (below : stack.Bindable) (next : Q (x.access segment :: stack)) :
    s.Disciplined Q
      [⟨.name segment.name segment.typeArguments, checked⟩, ⟨.memberAccess, checked⟩]
      (x :: stack) := by
  have all : Stack.Bindable (x :: stack) := below.push bindable
  refine ⟨⟨Nat.zero_le _, nofun, nofun⟩, all, Eval.returns_pure ⟨⟨?_, ?_, nofun⟩, ?_, ?_⟩⟩
  · exact Nat.le_add_left _ _
  · exact fun _ => ⟨segment, rfl⟩
  · exact all.push (StackEntry.bindable_ofName _)
  · simp only [execute, memberAccess_ofName]
    exact Eval.returns_pure next

/-! ## What trees leave -/

/-- What cannot be called leaves anything that can be bound. -/
theorem leaves_bindable {e : Expr} (uncallable : e.callable ≠ .ok ()) (bindable : x.Bindable) :
    e.Leaves x :=
  ⟨bindable, fun callable => absurd callable uncallable⟩

theorem leaves_bound {e : Expr} (uncallable : e.callable ≠ .ok ())
    (bound : x.base.isSome = true) : e.Leaves x :=
  leaves_bindable uncallable (.inr (.inl bound))

theorem leaves_ofName (e : Expr) (segment : Segment) : e.Leaves (.ofName segment) :=
  ⟨StackEntry.bindable_ofName segment, fun _ => .inr ⟨segment, rfl⟩⟩

theorem leaves_access (e : Expr) (bindable : x.Bindable) (segment : Segment) :
    e.Leaves (x.access segment) := by
  refine ⟨bindable_access bindable segment, fun _ => ?_⟩
  unfold StackEntry.access
  split
  · rename_i skipped
    exact .inl skipped
  · exact .inr ⟨segment, by simp⟩

/-- Whatever `n` entries are pushed, the last one on top, the stack is as wanted. -/
def AfterPushing (Q : Stack → Prop) (n : Nat) (stack : Stack) : Prop :=
  ∀ xs : List StackEntry, xs.length = n → Stack.Bindable xs.reverse → Q (xs.reverse ++ stack)

theorem AfterPushing.cons {n : Nat} (next : AfterPushing Q (n + 1) stack)
    (bindable : x.Bindable) : AfterPushing Q n (x :: stack) := by
  intro xs many all
  have whole := next (x :: xs) (congrArg Nat.succ many)
  rw [List.reverse_cons, List.append_assoc] at whole
  exact whole (Stack.bindable_append_iff.mpr ⟨all, Stack.bindable_nil.push bindable⟩)

mutual

theorem disciplined_code (e : Expr) {checked : Bool} {code : Code}
    (compiled : e.code checked = .ok code) {Q : Stack → Prop} {stack : Stack}
    (below : stack.Bindable) (next : ∀ x, e.Leaves x → Q (x :: stack)) :
    s.Disciplined Q code stack := by
  cases e with
  | literal l =>
      obtain rfl := Except.ok.inj compiled
      refine ⟨⟨Nat.zero_le _, nofun, nofun⟩, below, (Eval.returns_trivial _).bind fun v _ => ?_⟩
      exact Eval.returns_pure (next _ (leaves_bound nofun rfl))
  | identifier name =>
      obtain rfl := Except.ok.inj compiled
      refine ⟨⟨Nat.zero_le _, nofun, nofun⟩, below, Eval.returns_pure ?_⟩
      exact next _ (leaves_ofName _ ⟨name, []⟩)
  | generic name arguments =>
      obtain ⟨i, named, compiled⟩ := Except.bind_eq_ok_iff.mp compiled
      obtain rfl := Except.ok.inj compiled
      obtain rfl := nameCode_eq_ok checked named
      refine ⟨⟨Nat.zero_le _, nofun, nofun⟩, below, Eval.returns_pure ?_⟩
      exact next _ (leaves_ofName _ ⟨name, arguments⟩)
  | this =>
      obtain rfl := Except.ok.inj compiled
      refine ⟨⟨Nat.zero_le _, nofun, nofun⟩, below, ?_⟩
      simp only [execute]
      split
      · exact Eval.returns_pure (next _ (leaves_bound nofun rfl))
      · exact Eval.returns_throw _
  | predefined name =>
      obtain rfl := Except.ok.inj compiled
      refine ⟨⟨Nat.zero_le _, nofun, nofun⟩, below, ?_⟩
      refine (Eval.returns_trivial _).bind fun found _ => ?_
      cases found with
      | some t => exact Eval.returns_pure (next _ (leaves_bound nofun rfl))
      | none => exact Eval.returns_throw _
  | member target name arguments conditional =>
      obtain ⟨t, compiledTarget, compiled⟩ := Except.bind_eq_ok_iff.mp compiled
      obtain ⟨i, named, compiled⟩ := Except.bind_eq_ok_iff.mp compiled
      obtain rfl := Except.ok.inj compiled
      obtain rfl := nameCode_eq_ok checked named
      rw [disciplined_append, disciplined_append]
      refine disciplined_code target compiledTarget below fun x left => ?_
      refine disciplined_conditionalCode conditional checked left.bindable below
        fun y bindable => ?_
      refine disciplined_memberAccess ⟨name, arguments.getD []⟩ checked bindable below ?_
      exact next _ (leaves_access _ bindable _)
  | element target indices conditional =>
      cases indices with
      | nil => cases compiled
      | cons first rest =>
          obtain ⟨t, compiledTarget, compiled⟩ := Except.bind_eq_ok_iff.mp compiled
          obtain ⟨is, compiledIndices, compiled⟩ := Except.bind_eq_ok_iff.mp compiled
          obtain rfl := Except.ok.inj compiled
          rw [disciplined_append, disciplined_append, disciplined_append]
          refine disciplined_code target compiledTarget below fun x left => ?_
          refine disciplined_conditionalCode conditional checked left.bindable below
            fun y bindable => ?_
          have under : Stack.Bindable (y :: stack) := below.push bindable
          refine disciplined_codeAll (first :: rest) compiledIndices under fun xs many all => ?_
          rw [← many]
          refine ⟨⟨?_, nofun, nofun⟩, Stack.bindable_append_iff.mpr ⟨all, under⟩, ?_⟩
          · simp [Operation.takes]
          · exact returns_elementAccess bindable xs fun z bound =>
              next z (leaves_bindable nofun bound)
  | invocation target arguments =>
      obtain ⟨⟨⟩, callable, compiled⟩ := Except.bind_eq_ok_iff.mp compiled
      obtain ⟨t, compiledTarget, compiled⟩ := Except.bind_eq_ok_iff.mp compiled
      obtain ⟨as, compiledArguments, compiled⟩ := Except.bind_eq_ok_iff.mp compiled
      obtain rfl := Except.ok.inj compiled
      rw [disciplined_append, disciplined_append]
      refine disciplined_code target compiledTarget below fun x left => ?_
      have under : Stack.Bindable (x :: stack) := below.push left.bindable
      refine disciplined_codeAll arguments compiledArguments under fun xs many all => ?_
      rw [← many]
      refine ⟨⟨?_, nofun, ?_⟩, Stack.bindable_append_iff.mpr ⟨all, under⟩, ?_⟩
      · simp [Operation.takes]
      · intro count same
        obtain rfl := Operation.invocation.inj same
        exact ⟨x, by simp, left.called callable⟩
      · exact returns_invocation left.bindable xs fun z bound =>
          next z (leaves_bindable nofun bound)
  | unary op operand =>
      obtain ⟨x, compiledOperand, compiled⟩ := Except.bind_eq_ok_iff.mp compiled
      obtain rfl := Except.ok.inj compiled
      rw [disciplined_append]
      refine disciplined_code operand compiledOperand below fun x left => ?_
      refine ⟨⟨Nat.succ_pos _, nofun, nofun⟩, below.push left.bindable, ?_⟩
      simp only [execute, Stack.pop, pure_bind]
      refine (Eval.returns_trivial _).bind fun v _ => (Eval.returns_trivial _).bind fun r _ => ?_
      exact Eval.returns_pure (next _ (leaves_bound nofun rfl))
  | binary op left right =>
      obtain ⟨l, compiledLeft, compiled⟩ := Except.bind_eq_ok_iff.mp compiled
      obtain ⟨r, compiledRight, compiled⟩ := Except.bind_eq_ok_iff.mp compiled
      obtain rfl := Except.ok.inj compiled
      rw [disciplined_append, disciplined_append]
      refine disciplined_code left compiledLeft below fun x onLeft => ?_
      have under : Stack.Bindable (x :: stack) := below.push onLeft.bindable
      refine disciplined_code right compiledRight under fun y onRight => ?_
      refine ⟨⟨Nat.le_add_left _ _, nofun, nofun⟩, under.push onRight.bindable, ?_⟩
      simp only [execute, Stack.pop, pure_bind]
      refine (Eval.returns_trivial _).bind fun l _ => (Eval.returns_trivial _).bind fun r _ => ?_
      refine (Eval.returns_trivial _).bind fun v _ => ?_
      exact Eval.returns_pure (next _ (leaves_bound nofun rfl))
  | checked on body =>
      -- What is in brackets of `checked` cannot be called, even if it is a name.
      exact disciplined_code body compiled below fun x left =>
        next x (leaves_bindable nofun left.bindable)
  | sizeOf type =>
      obtain rfl := Except.ok.inj compiled
      refine ⟨⟨Nat.zero_le _, nofun, nofun⟩, below, (Eval.returns_trivial _).bind fun v _ => ?_⟩
      exact Eval.returns_pure (next _ (leaves_bound nofun rfl))
  | interpolated pieces =>
      obtain ⟨holes, compiledHoles, compiled⟩ := Except.bind_eq_ok_iff.mp compiled
      obtain rfl := Except.ok.inj compiled
      rw [disciplined_append]
      refine disciplined_codePieces pieces compiledHoles below fun xs many all => ?_
      refine ⟨⟨?_, nofun, nofun⟩, Stack.bindable_append_iff.mpr ⟨all, below⟩, ?_⟩
      · simp [Operation.takes, many]
      · simp only [execute, ← many, Stack.popMany_reverse_append, pure_bind]
        refine (Eval.returns_trivial _).bind fun vs _ => (Eval.returns_trivial _).bind fun t _ => ?_
        refine (Eval.returns_trivial _).bind fun v _ => ?_
        exact Eval.returns_pure (next _ (leaves_bound nofun rfl))
  | unsupported keyword => cases compiled

theorem disciplined_codeAll (es : List Expr) {checked : Bool} {code : Code}
    (compiled : Expr.codeAll checked es = .ok code) {Q : Stack → Prop} {stack : Stack}
    (below : stack.Bindable) (next : AfterPushing Q es.length stack) :
    s.Disciplined Q code stack := by
  cases es with
  | nil =>
      obtain rfl := Except.ok.inj compiled
      exact next [] rfl Stack.bindable_nil
  | cons e rest =>
      obtain ⟨c, compiledFirst, compiled⟩ := Except.bind_eq_ok_iff.mp compiled
      obtain ⟨cs, compiledRest, compiled⟩ := Except.bind_eq_ok_iff.mp compiled
      obtain rfl := Except.ok.inj compiled
      rw [disciplined_append]
      refine disciplined_code e compiledFirst below fun x left => ?_
      have under : Stack.Bindable (x :: stack) := below.push left.bindable
      exact disciplined_codeAll rest compiledRest under (next.cons left.bindable)

theorem disciplined_codePieces (pieces : List (Piece Expr)) {checked : Bool} {code : Code}
    (compiled : Expr.codePieces checked pieces = .ok code) {Q : Stack → Prop} {stack : Stack}
    (below : stack.Bindable)
    (next : AfterPushing Q (holeCount (pieces.map Expr.Piece.erase)) stack) :
    s.Disciplined Q code stack := by
  cases pieces with
  | nil =>
      obtain rfl := Except.ok.inj compiled
      exact next [] rfl Stack.bindable_nil
  | cons piece rest =>
      cases piece with
      | text t => exact disciplined_codePieces rest compiled below next
      | hole e =>
          obtain ⟨c, compiledFirst, compiled⟩ := Except.bind_eq_ok_iff.mp compiled
          obtain ⟨cs, compiledRest, compiled⟩ := Except.bind_eq_ok_iff.mp compiled
          obtain rfl := Except.ok.inj compiled
          rw [disciplined_append]
          refine disciplined_code e compiledFirst below fun x left => ?_
          have under : Stack.Bindable (x :: stack) := below.push left.bindable
          exact disciplined_codePieces rest compiledRest under (next.cons left.bindable)

end

/-- One entry is left, and there is something to bind in it. -/
theorem disciplined_whole {e : Expr} {checked : Bool} {code : Code}
    (compiled : e.code checked = .ok code) (s : EvalScope) :
    s.Disciplined (fun stack => ∃ x, stack = [x] ∧ x.Bindable) code [] :=
  disciplined_code e compiled Stack.bindable_nil fun x left => ⟨x, rfl, left.bindable⟩

theorem sound_run {e : Expr} {checked : Bool} {code : Code} (compiled : e.code checked = .ok code)
    (s : EvalScope) : Eval.Sound (s.run code).run := by
  have disciplined := disciplined_whole compiled s
  refine disciplined.sound.bind disciplined.returns fun stack left => ?_
  obtain ⟨x, rfl, bindable⟩ := left
  have resolved : Eval.Sound (s.resolve x).run :=
    Eval.Orderly.sound (Eval.orderly_resolve s x fun _ => bindable)
  refine resolved.bind (Eval.returns_trivial _) fun found _ => ?_
  obtain ⟨r, editable⟩ := found
  have valued : Eval.Orderly false s.limit s.thread r.toValue := Eval.orderly_toValue r
  exact valued.sound.bind (Eval.returns_trivial _) fun v _ => Eval.sound_pure _

/-- Each instruction of the code of a tree finds what it needs on the stack, one entry is left at
the end, and no error comes out that says that the program is faulty. -/
theorem stack_discipline {e : Expr} {checked : Bool} {code : Code}
    (compiled : e.code checked = .ok code) (s : EvalScope) :
    (∀ front i back, code = front ++ i :: back →
      (s.executeAll front []).Returns fun stack => i.operation.Fits stack) ∧
    ((s.executeAll code []).Returns fun stack => stack.length = 1) ∧
    ∀ es error, (s.run code).run.Plays es (.error error) → error.kind ≠ .compilation := by
  have disciplined := disciplined_whole compiled s
  refine ⟨fun front i back split => disciplined.fits split, ?_, fun es error played => ?_⟩
  · refine disciplined.returns.mono fun stack left => ?_
    obtain ⟨x, rfl, -⟩ := left
    rfl
  · exact sound_run compiled s es (.error error) played error rfl

section Nested

/-- A call on an element of a conditional member, with a text as its argument. -/
def nestedCall : Expr :=
  .invocation (.member (.element (.member (.identifier "a") "b" none true)
    [.literal (.primitive (.i32 1))] false) "M" none false)
    [.interpolated [.text "x", .hole (.identifier "c")]]

def nestedCode : Code :=
  [.name "a" [], .conditionalAccess, .name "b" [], .memberAccess, .literal (.primitive (.i32 1)),
    .elementAccess 1, .name "M" [], .memberAccess, .name "c" [],
    .interpolate [.text "x", .hole ()], .invocation 1].map fun operation => ⟨operation, false⟩

theorem stack_discipline_nestedCall : nestedCall.code false = .ok nestedCode ∧
    (EvalScope.executeAll ⟨innermost, .empty⟩ (nestedCode.take 10) []).Returns
      (fun stack => (Operation.invocation 1).Fits stack) ∧
    ∀ es error, (EvalScope.run ⟨innermost, .empty⟩ nestedCode).run.Plays es (.error error) →
      error.kind ≠ .compilation := by
  have compiled : nestedCall.code false = .ok nestedCode := rfl
  have disciplined := stack_discipline compiled ⟨innermost, .empty⟩
  exact ⟨compiled, disciplined.1 (nestedCode.take 10) _ [] rfl, disciplined.2.2⟩

end Nested

end EvalScope

end ManagedDebugger
