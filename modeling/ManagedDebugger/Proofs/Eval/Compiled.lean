import ManagedDebugger.Proofs.Eval.InOrder
import ManagedDebugger.Proofs.Eval.Shape

/-!
# Compiled programs walk the syntax tree

Running the code of a tree is walking the tree: it leaves one entry on top of the stack, the one
that the walk comes to, after the same operations and with the same first error. The machine binds
what an entry holds only when an operator takes it, and so does the walk that it agrees with.
-/

namespace ManagedDebugger

theorem Except.bind_eq_ok_iff {ε α β : Type} {x : Except ε α} {f : α → Except ε β} {b : β} :
    x >>= f = .ok b ↔ ∃ a, x = .ok a ∧ f a = .ok b := by
  cases x with
  | error e => exact ⟨nofun, fun ⟨_, failed, _⟩ => nomatch failed⟩
  | ok a =>
      constructor
      · exact fun done => ⟨a, rfl, done⟩
      · intro holds
        obtain ⟨_, ⟨⟩, done⟩ := holds
        exact done

namespace EvalScope

variable (s : EvalScope)

theorem executeAll_append (front back : Code) (stack : Stack) :
    s.executeAll (front ++ back) stack = s.executeAll front stack >>= s.executeAll back := by
  induction front generalizing stack with
  | nil => rw [List.nil_append, executeAll, pure_bind]
  | cons i rest inductionHypothesis =>
      simp only [List.cons_append, executeAll, bind_assoc, inductionHypothesis]

theorem executeAll_single (i : Instruction) (stack : Stack) :
    s.executeAll [i] stack = s.execute i stack := by
  simp only [executeAll, bind_pure]

/-- Pushes the result of a walk. -/
def push (walk : Eval StackEntry) (stack : Stack) : Eval Stack := do
  let x ← walk
  return x :: stack

theorem executeAll_conditionalCode (conditional checked : Bool) (x : StackEntry) (stack : Stack) :
    s.executeAll (Expr.conditionalCode conditional checked) (x :: stack) =
      push (s.guardedIf conditional x) stack := by
  cases conditional with
  | false => simp [Expr.conditionalCode, executeAll, push, guardedIf]
  | true =>
      simp only [Expr.conditionalCode, if_true, executeAll_single, execute, conditionalAccess,
        Stack.pop, pure_bind, push, guardedIf, guarded]
      cases x.skipped with
      | true => simp
      | false =>
          simp only [Bool.false_eq_true, if_false, bind_assoc]
          refine bind_congr fun found => ?_
          obtain ⟨r, editable⟩ := found
          cases r.isNull <;> simp [StackEntry.null]

/-- Pushes the results of a walk, the last one on top. -/
def pushAll (walk : Eval (List StackEntry)) (stack : Stack) : Eval Stack := do
  let xs ← walk
  return xs.reverse ++ stack

variable (time : BindingTime) (checked : Bool)

theorem returns_walkAll (es : List Expr) :
    (Expr.walkAll s time checked es).Returns fun xs => xs.length = es.length := by
  induction es with
  | nil => exact Eval.returns_pure rfl
  | cons e rest inductionHypothesis =>
      rw [Expr.walkAll]
      refine (Eval.returns_trivial _).bind fun x _ => (Eval.returns_trivial _).bind fun x _ => ?_
      refine inductionHypothesis.bind fun xs same => Eval.returns_pure ?_
      rw [List.length_cons, List.length_cons, same]

theorem returns_walkHoles (pieces : List (Piece Expr)) :
    (Expr.walkHoles s time checked pieces).Returns fun xs =>
      xs.length = holeCount (pieces.map Expr.Piece.erase) := by
  induction pieces with
  | nil => exact Eval.returns_pure rfl
  | cons piece rest inductionHypothesis =>
      cases piece with
      | text t =>
          rw [Expr.walkHoles]
          exact inductionHypothesis
      | hole e =>
          rw [Expr.walkHoles]
          refine (Eval.returns_trivial _).bind fun walked _ => ?_
          refine (Eval.returns_trivial _).bind fun bound _ => ?_
          refine inductionHypothesis.bind fun xs same => Eval.returns_pure ?_
          rw [List.length_cons, same]
          rfl

theorem nameCode_eq_ok {name : String} {arguments : Option (List TypeExpr)} {i : Instruction}
    (compiled : Expr.nameCode name checked arguments = .ok i) :
    i = ⟨.name name (arguments.getD []), checked⟩ := by
  cases arguments with
  | none => exact (Except.ok.inj compiled).symm
  | some arguments =>
      cases arguments with
      | nil => cases compiled
      | cons t rest => exact (Except.ok.inj compiled).symm

mutual

theorem executeAll_code (e : Expr) {checked : Bool} {code : Code}
    (compiled : e.code checked = .ok code) (stack : Stack) :
    s.executeAll code stack = push (e.walk s .onUse checked) stack := by
  cases e with
  | literal l =>
      obtain rfl := Except.ok.inj compiled
      simp only [executeAll_single, execute, push, Expr.walk, literalEntry, bind_assoc, pure_bind]
      rfl
  | identifier name =>
      obtain rfl := Except.ok.inj compiled
      simp only [executeAll_single, execute, push, Expr.walk, pure_bind]
  | generic name arguments =>
      obtain ⟨i, named, compiled⟩ := Except.bind_eq_ok_iff.mp compiled
      obtain rfl := Except.ok.inj compiled
      obtain rfl := nameCode_eq_ok checked named
      simp only [executeAll_single, execute, push, Expr.walk, pure_bind, Option.getD_some]
  | this =>
      obtain rfl := Except.ok.inj compiled
      simp only [executeAll_single, execute, push, Expr.walk, thisEntry]
      cases s.frame.this with
      | some v => simp only [pure_bind]
      | none => rfl
  | predefined name =>
      obtain rfl := Except.ok.inj compiled
      simp only [executeAll_single, execute, push, Expr.walk, typeEntry, bind_assoc]
      refine bind_congr fun found => ?_
      cases found with
      | some t => rfl
      | none => rfl
  | member target name arguments conditional =>
      obtain ⟨t, compiledTarget, compiled⟩ := Except.bind_eq_ok_iff.mp compiled
      obtain ⟨i, named, compiled⟩ := Except.bind_eq_ok_iff.mp compiled
      obtain rfl := Except.ok.inj compiled
      obtain rfl := nameCode_eq_ok checked named
      simp only [executeAll_append, executeAll_code target compiledTarget, push, bind_assoc,
        pure_bind, executeAll_conditionalCode, Expr.walk]
      refine bind_congr fun x => bind_congr fun x => ?_
      simp only [executeAll, execute, pure_bind, bind_pure, memberAccess, Stack.pop,
        StackEntry.ofName, StackEntry.access]
      split <;> rfl
  | element target indices conditional =>
      cases indices with
      | nil => cases compiled
      | cons first rest =>
          obtain ⟨t, compiledTarget, compiled⟩ := Except.bind_eq_ok_iff.mp compiled
          obtain ⟨is, compiledIndices, compiled⟩ := Except.bind_eq_ok_iff.mp compiled
          obtain rfl := Except.ok.inj compiled
          simp only [executeAll_append, executeAll_code target compiledTarget,
            executeAll_codeAll (first :: rest) compiledIndices, push, pushAll, bind_assoc,
            pure_bind, executeAll_conditionalCode, Expr.walk, indexed_onUse, executeAll_single]
          refine bind_congr fun x => bind_congr fun x => ?_
          refine (returns_walkAll s .onUse checked (first :: rest)).bind_congr fun xs same => ?_
          simp only [execute, ← same, elementAccess, Stack.popMany_reverse_append, pure_bind,
            Stack.pop, elementEntry]
          refine bind_congr fun indices => ?_
          split <;> simp
  | invocation target arguments =>
      obtain ⟨⟨⟩, -, compiled⟩ := Except.bind_eq_ok_iff.mp compiled
      obtain ⟨t, compiledTarget, compiled⟩ := Except.bind_eq_ok_iff.mp compiled
      obtain ⟨as, compiledArguments, compiled⟩ := Except.bind_eq_ok_iff.mp compiled
      obtain rfl := Except.ok.inj compiled
      simp only [executeAll_append, executeAll_code target compiledTarget,
        executeAll_codeAll arguments compiledArguments, push, pushAll, bind_assoc, pure_bind,
        Expr.walk, called_onUse, executeAll_single]
      refine bind_congr fun x => ?_
      refine (returns_walkAll s .onUse checked arguments).bind_congr fun xs same => ?_
      simp only [execute, ← same, invocation, Stack.popMany_reverse_append, pure_bind, Stack.pop,
        invocationEntry]
      refine bind_congr fun arguments => ?_
      split <;> simp
  | unary op operand =>
      obtain ⟨x, compiledOperand, compiled⟩ := Except.bind_eq_ok_iff.mp compiled
      obtain rfl := Except.ok.inj compiled
      simp only [executeAll_append, executeAll_code operand compiledOperand, push, bind_assoc,
        pure_bind, executeAll_single, execute, Stack.pop, Expr.walk, unaryEntry]
  | binary op left right =>
      obtain ⟨l, compiledLeft, compiled⟩ := Except.bind_eq_ok_iff.mp compiled
      obtain ⟨r, compiledRight, compiled⟩ := Except.bind_eq_ok_iff.mp compiled
      obtain rfl := Except.ok.inj compiled
      simp only [executeAll_append, executeAll_code left compiledLeft,
        executeAll_code right compiledRight, push, bind_assoc, pure_bind, executeAll_single,
        execute, Stack.pop, Expr.walk, operand, binaryEntry]
  | checked on body => exact executeAll_code body compiled stack
  | sizeOf type =>
      obtain rfl := Except.ok.inj compiled
      simp only [executeAll_single, execute, push, Expr.walk, sizeEntry, bind_assoc, pure_bind]
  | interpolated pieces =>
      obtain ⟨holes, compiledHoles, compiled⟩ := Except.bind_eq_ok_iff.mp compiled
      obtain rfl := Except.ok.inj compiled
      simp only [executeAll_append, executeAll_codePieces pieces compiledHoles, push, pushAll,
        bind_assoc, pure_bind, Expr.walk, executeAll_single, execute]
      refine (returns_walkHoles s .onUse checked pieces).bind_congr fun xs same => ?_
      simp only [← same, Stack.popMany_reverse_append, pure_bind, interpolationEntry, bind_assoc]
  | unsupported keyword => cases compiled

theorem executeAll_codeAll (es : List Expr) {checked : Bool} {code : Code}
    (compiled : Expr.codeAll checked es = .ok code) (stack : Stack) :
    s.executeAll code stack = pushAll (Expr.walkAll s .onUse checked es) stack := by
  cases es with
  | nil =>
      obtain rfl := Except.ok.inj compiled
      simp only [executeAll, pushAll, Expr.walkAll, pure_bind, List.reverse_nil, List.nil_append]
  | cons e rest =>
      obtain ⟨c, compiledFirst, compiled⟩ := Except.bind_eq_ok_iff.mp compiled
      obtain ⟨cs, compiledRest, compiled⟩ := Except.bind_eq_ok_iff.mp compiled
      obtain rfl := Except.ok.inj compiled
      simp only [executeAll_append, executeAll_code e compiledFirst,
        executeAll_codeAll rest compiledRest, push, pushAll, bind_assoc, pure_bind,
        Expr.walkAll, operand, List.reverse_cons, List.append_assoc, List.singleton_append]

theorem executeAll_codePieces (pieces : List (Piece Expr)) {checked : Bool} {code : Code}
    (compiled : Expr.codePieces checked pieces = .ok code) (stack : Stack) :
    s.executeAll code stack = pushAll (Expr.walkHoles s .onUse checked pieces) stack := by
  cases pieces with
  | nil =>
      obtain rfl := Except.ok.inj compiled
      simp only [executeAll, pushAll, Expr.walkHoles, pure_bind, List.reverse_nil, List.nil_append]
  | cons piece rest =>
      cases piece with
      | text t =>
          rw [Expr.walkHoles]
          exact executeAll_codePieces rest compiled stack
      | hole e =>
          obtain ⟨c, compiledFirst, compiled⟩ := Except.bind_eq_ok_iff.mp compiled
          obtain ⟨cs, compiledRest, compiled⟩ := Except.bind_eq_ok_iff.mp compiled
          obtain rfl := Except.ok.inj compiled
          simp only [executeAll_append, executeAll_code e compiledFirst,
            executeAll_codePieces rest compiledRest, push, pushAll, bind_assoc, pure_bind,
            Expr.walkHoles, operand, List.reverse_cons, List.append_assoc, List.singleton_append]

end

theorem run_code {e : Expr} {checked : Bool} {code : Code} (compiled : e.code checked = .ok code) :
    s.run code = e.evaluate s .onUse checked := by
  simp only [run, executeAll_code s e compiled, push, bind_assoc, pure_bind, Expr.evaluate]

end EvalScope

/-- Running the code of a tree in a frame is walking the tree there, from left to right, where an
operand is bound when it is used. If its operands are in order, then it is as good as binding each
of them at once. -/
theorem evaluate_code {e : Expr} {code : Code} (compiled : e.code false = .ok code)
    (ctx : EvalContext) :
    code.evaluate ctx = e.evaluateIn .onUse ctx ∧
      (e.inOrder = true → code.evaluate ctx = e.evaluateIn .atOnce ctx) := by
  have walked : code.evaluate ctx = e.evaluateIn .onUse ctx :=
    bind_congr fun frame => EvalScope.run_code ⟨ctx, frame⟩ compiled
  refine ⟨walked, fun inOrder => walked.trans (bind_congr fun frame => ?_)⟩
  rw [Expr.evaluate, Expr.evaluate, Expr.walk_inOrder e inOrder false]

section Getter

/-- A frame of a type that has a static method and a static property; every call comes to 1. -/
def oneReply : (op : EvalOp) → op.Reply
  | .native (.frames _) => .ok [⟨.managed, some ⟨1, 1⟩, 0⟩]
  | .native (.arguments ..) | .native (.locals ..) => .ok []
  | .native (.methodInfo method) => .ok ⟨method, "M", ⟨1, 1, "A"⟩, true, [], 0, "", false⟩
  | .native (.typeInfo type) =>
    .ok ⟨type, none, false, [], [⟨"P", "System.Int32", some ⟨1, 3⟩, true⟩],
      [⟨⟨1, 2⟩, "F", type, true, [], 0, "System.Int32", false⟩]⟩
  | .native (.beginCall ..) => .ok ⟨1⟩
  | .native .continueProcess => .ok ()
  | .native (.readPrimitive _) => .ok (.i32 1)
  | .native _ => .error .connectionClosed
  | .register .. => (1 : Nat)
  | .cancel _ => ()
  | .wait .. => some (.outcome (.completed (some ⟨⟨1⟩, .primitive .i4, "System.Int32"⟩)))

/-- The methods that an evaluation calls, and what it comes to. -/
def callsOf (p : Eval Evaluated) : List MethodRef × Option Evaluated :=
  let (es, _, r) := p.run.simulate (fun _ op => (oneReply op, ())) ()
  (es.filterMap fun x => match x.op with
    | .native (.beginCall _ method _ _) => some method
    | _ => none, r.toOption)

def innermost : EvalContext := ⟨.empty, [], 1, 0, none⟩

/-- The property plus what the method returns. -/
def getterFirst : Expr := .binary .add (.identifier "P") (.invocation (.identifier "F") [])

/-- The other way round. -/
def getterLast : Expr := .binary .add (.invocation (.identifier "F") []) (.identifier "P")

theorem evaluate_getterLast : ∃ code, getterLast.code false = .ok code ∧
    code.evaluate innermost = getterLast.evaluateIn .onUse innermost ∧
    code.evaluate innermost = getterLast.evaluateIn .atOnce innermost := by
  refine ⟨_, rfl, ?_⟩
  have walked := evaluate_code (e := getterLast) rfl innermost
  exact ⟨walked.1, walked.2 rfl⟩

/-- The getter of an operand is called after the method that stands to its right. -/
theorem getter_after_method : ∃ code, getterFirst.code false = .ok code ∧
    callsOf (code.evaluate innermost) =
      ([⟨1, 2⟩, ⟨1, 3⟩], some ⟨.primitive (.i32 2), false⟩) ∧
    callsOf (getterFirst.evaluateIn .atOnce innermost) =
      ([⟨1, 3⟩, ⟨1, 2⟩], some ⟨.primitive (.i32 2), false⟩) :=
  ⟨_, rfl, by decide +kernel, by decide +kernel⟩

end Getter

end ManagedDebugger
