import ManagedDebugger.Proofs.Eval.Orderly.Members
import ManagedDebugger.Proofs.Eval.Shape

/-!
# Expressions are evaluated in an orderly way

Each instruction of the evaluation stack is an orderly evaluation with the thread and the limit of
its scope, and so is the evaluation of any text in any frame.
-/

namespace ManagedDebugger.Eval

variable {faulty : Bool} {limit : Option Nat} {thread : ThreadId}

section Operators

/-- No error in the program itself. -/
def Ordinary {α : Type} (r : Except EvalError α) : Prop :=
  ∀ e, r = .error e → e.kind ≠ .compilation

theorem Ordinary.ok {α : Type} (a : α) : Ordinary (.ok a) := nofun

theorem Ordinary.error {α : Type} {e : EvalError} (other : e.kind ≠ .compilation) :
    Ordinary (.error e : Except EvalError α) := by
  intro _ same
  cases same
  exact other

variable {otherwise : EvalError} (other : otherwise.kind ≠ .compilation)

theorem ordinary_result (t : WordType) (checked : Bool) (exact : Int) :
    Ordinary (t.result checked exact) := by
  unfold WordType.result
  split
  · exact .error nofun
  · exact .ok _

theorem ordinary_divided (t : WordType) (x y exact : Int) : Ordinary (t.divided x y exact) := by
  unfold WordType.divided
  split
  · exact .error nofun
  · split
    · exact .ok _
    · exact .error nofun

include other

theorem ordinary_onWords (op : BinaryOp) (checked : Bool) (t : WordType) (x y : Int) :
    Ordinary (op.onWords checked t x y otherwise) := by
  cases op with
  | add | sub | mul => exact ordinary_result t checked _
  | div | rem => exact ordinary_divided t x y _
  | _ => first | exact .ok _ | exact .error other

theorem ordinary_onSingles (op : BinaryOp) (a b : UInt32) :
    Ordinary (op.onSingles a b otherwise) := by
  cases op with
  | _ => first | exact .ok _ | exact .error other

theorem ordinary_onDoubles (op : BinaryOp) (a b : UInt64) :
    Ordinary (op.onDoubles a b otherwise) := by
  cases op with
  | _ => first | exact .ok _ | exact .error other

theorem ordinary_onBools (op : BinaryOp) (x y : Bool) : Ordinary (op.onBools x y otherwise) := by
  cases op with
  | _ => first | exact .ok _ | exact .error other

theorem ordinary_negate (checked : Bool) (x : Operand) :
    Ordinary (x.negate checked otherwise) := by
  unfold Operand.negate
  split
  · exact .error other
  · exact .ok _
  · exact ordinary_result _ _ _
  · exact .ok _
  · exact .ok _

theorem ordinary_complement (x : Operand) : Ordinary (x.complement otherwise) := by
  cases x with
  | word t x => exact .ok _
  | single bits => exact .error other
  | double bits => exact .error other

omit other

theorem ordinary_shifted (op : BinaryOp) (a b : Primitive) : Ordinary (op.shifted a b) := by
  unfold BinaryOp.shifted
  split
  · exact .ok _
  · exact .error nofun

theorem ordinary_commonPair (op : BinaryOp) (a b : Primitive) : Ordinary (commonPair op a b) := by
  unfold commonPair
  split
  · split
    · exact .ok _
    · exact .error nofun
  · split
    · exact .ok _
    · exact .ok _
    · exact .ok _
  · exact .error nofun

theorem ordinary_binary (op : BinaryOp) (checked : Bool) (a b : Primitive) :
    Ordinary (op.apply checked a b) := by
  have other : (notApplicable op a b).kind ≠ .compilation := nofun
  unfold BinaryOp.apply
  split
  · exact ordinary_onBools other op _ _
  · exact .error nofun
  · exact .error nofun
  · exact .error nofun
  · exact ordinary_shifted _ _ _
  · exact ordinary_shifted _ _ _
  · cases common : commonPair op a b with
    | error e => exact .error (ordinary_commonPair op a b e common)
    | ok pair =>
        cases pair with
        | words t x y => exact ordinary_onWords other op checked t x y
        | singles x y => exact ordinary_onSingles other op x y
        | doubles x y => exact ordinary_onDoubles other op x y

theorem ordinary_unary (op : UnaryOp) (checked : Bool) (a : Primitive) :
    Ordinary (op.apply checked a) := by
  have other : (EvalError.unaryNotApplicable op a.type.keyword).kind ≠ .compilation := nofun
  unfold UnaryOp.apply
  dsimp only
  split
  · exact .ok _
  · exact .ok _
  · exact ordinary_negate other checked _
  · exact ordinary_complement other _
  · exact .error other

end Operators

section Scope

variable (s : EvalScope)

theorem orderly_resolve (e : StackEntry) (bindable : faulty = false → e.Bindable) :
    Orderly faulty s.limit s.thread (s.resolve e) := by
  unfold EvalScope.resolve
  split
  · exact .pure _
  · rename_i reached
    split
    · exact .fail _ nofun
    · split
      · exact orderly_members s _ _ _
      · rename_i unbound unnamed
        refine .fault _ fun sound => ?_
        rcases bindable sound with skipped | bound | named
        · exact reached skipped
        · rw [unbound] at bound
          cases bound
        · exact named unnamed
      · exact .bind (orderly_head s _ _) fun found => orderly_members s _ _ _

theorem orderly_toValue (r : Resolved) : Orderly faulty limit thread r.toValue := by
  cases r with
  | value v => exact .pure v
  | type t => exact .fail _ nofun

theorem orderly_resolveValue (e : StackEntry) (bindable : faulty = false → e.Bindable) :
    Orderly faulty s.limit s.thread (s.resolveValue e) :=
  .bind (orderly_resolve s e bindable) fun found => orderly_toValue found.1

theorem orderly_resolveValues (es : List StackEntry)
    (bindable : faulty = false → Stack.Bindable es) :
    Orderly faulty s.limit s.thread (s.resolveValues es) := by
  induction es with
  | nil => exact .pure []
  | cons e rest inductionHypothesis =>
      refine .bind (orderly_resolveValue s e fun sound => ?_) fun v => ?_
      · exact (Stack.bindable_cons_iff.mp (bindable sound)).1
      · refine .bind (inductionHypothesis fun sound => ?_) fun vs => .pure (v :: vs)
        exact (Stack.bindable_cons_iff.mp (bindable sound)).2

theorem orderly_newString (text : String) : Orderly faulty s.limit s.thread (s.newString text) := by
  refine .bind (.bind (.string text) fun result => ?_) fun v => .pure _
  cases result with
  | none => exact .fail _ nofun
  | some value => exact .pure value

theorem orderly_scopeCall (m : MethodInfo) (receiver : Option RemoteValue)
    (arguments : List EvalValue) (typeArguments : List TypeRef) :
    Orderly faulty s.limit s.thread (s.call m receiver arguments typeArguments) :=
  orderly_callMethod m receiver arguments typeArguments

theorem orderly_callFound (lookup : MethodLookup) (q : MethodQuery)
    (receiver : Option RemoteValue) (typeArguments : List TypeRef) (missing : EvalError)
    (other : missing.kind ≠ .compilation) :
    Orderly faulty s.limit s.thread (s.callFound lookup q receiver typeArguments missing) := by
  cases lookup with
  | found m => exact orderly_scopeCall s m receiver q.arguments typeArguments
  | wrongArguments => exact .fail _ nofun
  | missing => exact .fail missing fun own => absurd own other

theorem orderly_ownMethod (q : MethodQuery) : Orderly faulty limit thread (s.ownMethod q) := by
  unfold EvalScope.ownMethod
  split
  · exact .bind (.native _ rfl) fun type => orderly_findMethod _ type
  · exact .pure _

theorem orderly_enclosingMethod (q : MethodQuery) :
    Orderly faulty limit thread (s.enclosingMethod q) := by
  unfold EvalScope.enclosingMethod
  split
  · exact orderly_findMethod _ _
  · exact .pure _

theorem orderly_invokeByName (q : MethodQuery) (typeArguments : List TypeRef) :
    Orderly faulty s.limit s.thread (s.invokeByName q typeArguments) := by
  refine .bind (orderly_ownMethod s q) fun own => ?_
  split
  · exact orderly_scopeCall s _ _ _ _
  · refine .bind (orderly_enclosingMethod s q) fun enclosing => ?_
    split
    · exact orderly_scopeCall s _ _ _ _
    · exact .fail _ nofun
    · exact .fail _ nofun

theorem orderly_receiver (v : EvalValue) : Orderly faulty limit thread (s.receiver v) := by
  cases v with
  | null => exact .fail _ nofun
  | void => exact .fail _ nofun
  | remote v =>
      unfold EvalScope.receiver
      dsimp only
      split
      · exact .fail _ nofun
      · exact .pure v
  | primitive p => exact .native _ rfl

theorem orderly_invokeOn (target : Resolved) (q : MethodQuery) (typeArguments : List TypeRef) :
    Orderly faulty s.limit s.thread (s.invokeOn target q typeArguments) := by
  cases target with
  | type t =>
      refine .bind (orderly_findMethod _ t) fun lookup => ?_
      exact orderly_callFound s lookup _ _ _ _ nofun
  | value v =>
      refine .bind (orderly_receiver s v) fun object => ?_
      refine .bind (.native _ rfl) fun type => ?_
      refine .bind (orderly_findMethod _ type) fun lookup => ?_
      exact orderly_callFound s lookup _ _ _ _ nofun

theorem orderly_invoke (e : StackEntry) (arguments : List EvalValue)
    (named : faulty = false → ∃ method, e.chain.getLast? = some method) :
    Orderly faulty s.limit s.thread (s.invoke e arguments) := by
  unfold EvalScope.invoke
  split
  · rename_i unnamed
    refine .fault _ fun sound => ?_
    obtain ⟨method, last⟩ := named sound
    rw [unnamed] at last
    cases last
  · refine .bind (orderly_typeArguments s _) fun types => ?_
    dsimp only
    split
    · exact orderly_invokeByName s _ types
    · rename_i something
      refine .bind (orderly_resolve s _ fun _ => ?_) fun found => orderly_invokeOn s _ _ types
      cases bound : e.base with
      | some r => exact .inr (.inl rfl)
      | none =>
          refine .inr (.inr fun nothing => something ?_)
          have nothing : e.chain.dropLast = [] := nothing
          simp [bound, nothing]

theorem orderly_indexOf (v : EvalValue) : Orderly faulty limit thread (EvalScope.indexOf v) := by
  refine .bind (orderly_localize v) fun local_ => ?_
  cases local_ with
  | primitive p =>
      dsimp only
      split
      · exact .pure _
      · exact .fail _ nofun
  | null => exact .fail _ nofun
  | remote v => exact .fail _ nofun
  | void => exact .fail _ nofun

theorem orderly_position (indices : List EvalValue) (dims : List UInt32) :
    Orderly faulty limit thread (EvalScope.position indices dims) := by
  induction indices generalizing dims with
  | nil => exact .pure []
  | cons v indices inductionHypothesis =>
      cases dims with
      | nil => exact .pure []
      | cons d dims =>
          refine .bind (orderly_indexOf v) fun i => ?_
          split
          · exact .fail _ nofun
          · exact .bind (inductionHypothesis dims) fun rest => .pure _

theorem orderly_elementOfArray (array : RemoteValue) (indices : List EvalValue) :
    Orderly faulty limit thread (EvalScope.elementOfArray array indices) := by
  refine .bind (.native _ rfl) fun dims => ?_
  split
  · exact .fail _ nofun
  · refine .bind (orderly_position indices dims) fun place => ?_
    exact .bind (.native _ rfl) fun v => .pure _

theorem orderly_unitOfString (text : RemoteValue) (index : EvalValue) :
    Orderly faulty limit thread (EvalScope.unitOfString text index) := by
  refine .bind (orderly_indexOf index) fun i => ?_
  refine .bind (.native _ rfl) fun units => ?_
  dsimp only
  split
  · exact .fail _ nofun
  · split
    · exact .pure _
    · exact .fail _ nofun

theorem orderly_elementByIndexer (object : RemoteValue) (indices : List EvalValue) :
    Orderly faulty s.limit s.thread (s.elementByIndexer object indices) := by
  refine .bind (.native _ rfl) fun type => ?_
  refine .bind (orderly_findMethod _ type) fun lookup => ?_
  cases lookup with
  | found m => exact orderly_scopeCall s m _ _ _
  | wrongArguments => exact .fail _ nofun
  | missing => exact .fail _ nofun

theorem orderly_element (target : EvalValue) (indices : List EvalValue) :
    Orderly faulty s.limit s.thread (s.element target indices) := by
  unfold EvalScope.element
  split
  · exact .fail _ nofun
  · split
    · exact .fail _ nofun
    · exact .bind (orderly_elementOfArray _ _) fun e => .pure _
    · exact .bind (orderly_unitOfString _ _) fun u => .pure _
    · exact .bind (orderly_elementByIndexer s _ _) fun e => .pure _
  · exact .fail _ nofun

theorem orderly_except {α : Type} (r : Except EvalError α)
    (ordinary : faulty = false → Ordinary r) : Orderly faulty limit thread (liftM r : Eval α) := by
  cases r with
  | ok a => exact .pure a
  | error e =>
      exact .fail e fun own => eq_true_of_ne_false fun sound => ordinary sound e rfl own

theorem orderly_unary (op : UnaryOp) (checked : Bool) (operand : EvalValue) :
    Orderly faulty s.limit s.thread (s.unary op checked operand) := by
  refine .bind (orderly_localize operand) fun v => ?_
  cases v with
  | primitive p =>
      refine .bind (orderly_except _ fun _ => ordinary_unary op checked p) fun r => .pure _
  | null => exact .pure _
  | void => exact .fail _ nofun
  | remote v =>
      refine .bind (.native _ rfl) fun type => ?_
      refine .bind (orderly_findMethod _ type) fun lookup => ?_
      cases lookup with
      | found m => exact .bind (orderly_scopeCall s m none _ []) fun r => orderly_localize r
      | wrongArguments => exact .fail _ nofun
      | missing => exact .fail _ nofun

theorem orderly_declaredOperator (name : String) (operands rest : List EvalValue) :
    Orderly faulty s.limit s.thread (s.declaredOperator name operands rest) := by
  induction rest with
  | nil => exact .pure none
  | cons v rest inductionHypothesis =>
      cases v with
      | primitive p => exact inductionHypothesis
      | null => exact inductionHypothesis
      | void => exact inductionHypothesis
      | remote v =>
          refine .bind (.native _ rfl) fun type => ?_
          refine .bind (orderly_findMethod _ type) fun lookup => ?_
          cases lookup with
          | found m =>
              refine .bind (orderly_scopeCall s m none operands []) fun r => ?_
              exact .bind (orderly_localize r) fun r => .pure (some r)
          | wrongArguments => exact inductionHypothesis
          | missing => exact inductionHypothesis

theorem orderly_identity (op : BinaryOp) (l r : EvalValue) :
    Orderly faulty limit thread (EvalScope.identity op l r) := by
  unfold EvalScope.identity
  split
  · refine .bind (.native _ rfl) fun x => ?_
    exact .bind (.native _ rfl) fun y => .pure _
  · exact .fail _ nofun

theorem orderly_onObjects (op : BinaryOp) (l r : EvalValue) :
    Orderly faulty s.limit s.thread (s.onObjects op l r) := by
  unfold EvalScope.onObjects
  split
  · refine .bind (orderly_declaredOperator s _ [l, r] [l, r]) fun found => ?_
    cases found with
    | none => exact orderly_identity op l r
    | some v => exact .pure v
  · exact orderly_identity op l r

theorem orderly_concat (l r : EvalValue) : Orderly faulty s.limit s.thread (s.concat l r) := by
  refine .bind (orderly_stringify l) fun a => ?_
  exact .bind (orderly_stringify r) fun b => orderly_newString s (a ++ b)

theorem orderly_binary (op : BinaryOp) (checked : Bool) (l r : EvalValue) :
    Orderly faulty s.limit s.thread (s.binary op checked l r) := by
  refine .bind (orderly_localize l) fun l => ?_
  refine .bind (orderly_localize r) fun r => ?_
  split
  · exact .pure _
  · split
    · exact .fail _ nofun
    · split
      · exact orderly_concat s l r
      · split
        · exact .pure _
        · split
          · refine .bind (orderly_except _ fun _ => ?_) fun p => .pure _
            exact ordinary_binary op checked _ _
          · exact orderly_onObjects s op l r

theorem orderly_literal (l : Literal) : Orderly faulty s.limit s.thread (s.literal l) := by
  cases l with
  | primitive p => exact .pure _
  | null => exact .pure _
  | string text => exact orderly_newString s text

theorem orderly_sizeOf (type : TypeExpr) : Orderly faulty limit thread (EvalScope.sizeOf type) := by
  unfold EvalScope.sizeOf
  split
  · exact .pure _
  · exact .fail _ nofun

theorem orderly_joinPieces (pieces : List (Piece Unit)) (values : List EvalValue) :
    Orderly faulty s.limit s.thread (s.joinPieces pieces values) := by
  induction pieces generalizing values with
  | nil => exact .pure ""
  | cons piece pieces inductionHypothesis =>
      cases piece with
      | text t => exact .bind (inductionHypothesis values) fun rest => .pure _
      | hole _ =>
          cases values with
          | nil => exact inductionHypothesis []
          | cons v values =>
              refine .bind (orderly_stringify v) fun t => ?_
              exact .bind (inductionHypothesis values) fun rest => .pure _

/-! Each instruction on a stack that fits it. -/

section Instructions

variable {stack : Stack} (bindable : faulty = false → stack.Bindable)

theorem orderly_memberAccess (fits : faulty = false → Operation.memberAccess.Fits stack) :
    Orderly faulty limit thread (EvalScope.memberAccess stack) := by
  cases stack with
  | nil => exact .fault .stackUnderflow fun sound => (fits sound).not_short (Nat.succ_pos _)
  | cons name rest =>
      rw [EvalScope.memberAccess, Stack.pop, pure_bind]
      dsimp only
      split
      · rename_i unnamed
        refine .fault _ fun sound => ?_
        obtain ⟨segment, top⟩ := (fits sound).named rfl
        obtain rfl := Option.some.inj top
        cases unnamed
      · exact .fault _ fun sound => (fits sound).not_short (Nat.lt_succ_self _)
      · split
        · exact .pure _
        · exact .pure _

include bindable

theorem orderly_conditionalAccess
    (fits : faulty = false → Operation.conditionalAccess.Fits stack) :
    Orderly faulty s.limit s.thread (s.conditionalAccess stack) := by
  cases stack with
  | nil => exact .fault .stackUnderflow fun sound => (fits sound).not_short (Nat.succ_pos _)
  | cons e rest =>
      rw [EvalScope.conditionalAccess, Stack.pop, pure_bind]
      dsimp only
      split
      · exact .pure _
      · refine .bind (orderly_resolve s e fun sound => ?_) fun found => .pure _
        exact (Stack.bindable_cons_iff.mp (bindable sound)).1

theorem orderly_elementAccess (count : Nat)
    (fits : faulty = false → (Operation.elementAccess count).Fits stack) :
    Orderly faulty s.limit s.thread (s.elementAccess count stack) := by
  rcases stack.popMany_cases count with ⟨few, failed⟩ | ⟨indices, rest, many, rfl, popped⟩
  · rw [EvalScope.elementAccess, failed]
    exact .fault .stackUnderflow fun sound => (fits sound).not_short (Nat.lt_succ_of_lt few)
  · rw [EvalScope.elementAccess, popped, pure_bind]
    have parts (sound : faulty = false) := Stack.bindable_append_iff.mp (bindable sound)
    refine .bind (orderly_resolveValues s indices fun sound e member => ?_) fun values => ?_
    · exact (parts sound).1 e (List.mem_reverse.mpr member)
    · cases rest with
      | nil =>
          exact .fault .stackUnderflow fun sound =>
            (fits sound).not_short (by simp [Operation.takes, many])
      | cons target rest =>
          rw [Stack.pop, pure_bind]
          dsimp only
          split
          · exact .pure _
          · refine .bind (orderly_resolveValue s target fun sound => ?_) fun v => ?_
            · exact (Stack.bindable_cons_iff.mp (parts sound).2).1
            · exact .bind (orderly_element s v values) fun found => .pure _

theorem orderly_invocation (count : Nat)
    (fits : faulty = false → (Operation.invocation count).Fits stack) :
    Orderly faulty s.limit s.thread (s.invocation count stack) := by
  rcases stack.popMany_cases count with ⟨few, failed⟩ | ⟨arguments, rest, many, rfl, popped⟩
  · rw [EvalScope.invocation, failed]
    exact .fault .stackUnderflow fun sound => (fits sound).not_short (Nat.lt_succ_of_lt few)
  · rw [EvalScope.invocation, popped, pure_bind]
    have parts (sound : faulty = false) := Stack.bindable_append_iff.mp (bindable sound)
    refine .bind (orderly_resolveValues s arguments fun sound e member => ?_) fun values => ?_
    · exact (parts sound).1 e (List.mem_reverse.mpr member)
    · cases rest with
      | nil =>
          exact .fault .stackUnderflow fun sound =>
            (fits sound).not_short (by simp [Operation.takes, many])
      | cons target rest =>
          rw [Stack.pop, pure_bind]
          dsimp only
          split
          · exact .pure _
          · rename_i reached
            refine .bind (orderly_invoke s target values fun sound => ?_) fun v => .pure _
            obtain ⟨other, place, called⟩ := (fits sound).called count rfl
            have same : other = target := by simpa [← many] using place.symm
            exact (same ▸ called).resolve_left reached

theorem orderly_executeUnary (op : UnaryOp) (checked : Bool)
    (fits : faulty = false → (Operation.unary op).Fits stack) :
    Orderly faulty s.limit s.thread (s.execute ⟨.unary op, checked⟩ stack) := by
  cases stack with
  | nil => exact .fault .stackUnderflow fun sound => (fits sound).not_short (Nat.succ_pos _)
  | cons e rest =>
      simp only [EvalScope.execute, Stack.pop, pure_bind]
      refine .bind (orderly_resolveValue s e fun sound => ?_) fun v => ?_
      · exact (Stack.bindable_cons_iff.mp (bindable sound)).1
      · exact .bind (orderly_unary s op checked v) fun r => .pure _

theorem orderly_executeBinary (op : BinaryOp) (checked : Bool)
    (fits : faulty = false → (Operation.binary op).Fits stack) :
    Orderly faulty s.limit s.thread (s.execute ⟨.binary op, checked⟩ stack) := by
  match stack with
  | [] => exact .fault .stackUnderflow fun sound => (fits sound).not_short (Nat.succ_pos _)
  | [_] =>
      exact .fault .stackUnderflow fun sound => (fits sound).not_short (Nat.lt_succ_self _)
  | right :: left :: rest =>
      simp only [EvalScope.execute, Stack.pop, pure_bind]
      have parts (sound : faulty = false) := Stack.bindable_cons_iff.mp (bindable sound)
      refine .bind (orderly_resolveValue s left fun sound => ?_) fun l => ?_
      · exact (Stack.bindable_cons_iff.mp (parts sound).2).1
      · refine .bind (orderly_resolveValue s right fun sound => (parts sound).1) fun r => ?_
        exact .bind (orderly_binary s op checked l r) fun v => .pure _

theorem orderly_executeInterpolate (pieces : List (Piece Unit)) (checked : Bool)
    (fits : faulty = false → (Operation.interpolate pieces).Fits stack) :
    Orderly faulty s.limit s.thread (s.execute ⟨.interpolate pieces, checked⟩ stack) := by
  rcases stack.popMany_cases (EvalScope.holeCount pieces) with
    ⟨few, failed⟩ | ⟨values, rest, many, rfl, popped⟩
  · simp only [EvalScope.execute, failed]
    exact .fault .stackUnderflow fun sound => (fits sound).not_short few
  · simp only [EvalScope.execute, popped, pure_bind]
    refine .bind (orderly_resolveValues s values fun sound e member => ?_) fun values => ?_
    · exact (Stack.bindable_append_iff.mp (bindable sound)).1 e (List.mem_reverse.mpr member)
    · refine .bind (orderly_joinPieces s pieces values) fun text => ?_
      exact .bind (orderly_newString s text) fun v => .pure _

theorem orderly_execute (i : Instruction) (fits : faulty = false → i.operation.Fits stack) :
    Orderly faulty s.limit s.thread (s.execute i stack) := by
  obtain ⟨operation, checked⟩ := i
  cases operation with
  | name name arguments => exact .pure _
  | this =>
      simp only [EvalScope.execute]
      split
      · exact .pure _
      · exact .fail _ nofun
  | predefined name =>
      refine .bind (orderly_findType s name) fun found => ?_
      cases found with
      | none => exact .fail _ nofun
      | some t => exact .pure _
  | literal l => exact .bind (orderly_literal s l) fun v => .pure _
  | memberAccess => exact orderly_memberAccess fits
  | conditionalAccess => exact orderly_conditionalAccess s bindable fits
  | elementAccess count => exact orderly_elementAccess s bindable count fits
  | invocation count => exact orderly_invocation s bindable count fits
  | unary op => exact orderly_executeUnary s bindable op checked fits
  | binary op => exact orderly_executeBinary s bindable op checked fits
  | sizeOf type => exact .bind (orderly_sizeOf type) fun v => .pure _
  | interpolate pieces => exact orderly_executeInterpolate s bindable pieces checked fits

end Instructions

/-! Any program at all, which may well be faulty. -/

theorem orderly_executeAll (code : Code) (stack : Stack) :
    Orderly true s.limit s.thread (s.executeAll code stack) := by
  induction code generalizing stack with
  | nil => exact .pure stack
  | cons i rest inductionHypothesis =>
      refine .bind (orderly_execute s ?_ i nofun) fun stack => inductionHypothesis stack
      intro sound
      cases sound

theorem orderly_run (code : Code) : Orderly true s.limit s.thread (s.run code) := by
  refine .bind (orderly_executeAll s code []) fun stack => ?_
  split
  · refine .bind (orderly_resolve s _ nofun) fun found => ?_
    exact .bind (orderly_toValue found.1) fun v => .pure _
  · exact .fault _ nofun

end Scope

theorem inspects_frameScope (ctx : EvalContext) : (FrameScope.load ctx).Inspects := by
  refine .bind (.call _ rfl) fun frames => ?_
  split
  · exact .pure _
  · refine .bind (.call _ rfl) fun info => ?_
    refine .bind (.call _ rfl) fun arguments => ?_
    exact .bind (.call _ rfl) fun values => .pure _

/-- Whatever text is evaluated, in whatever frame. -/
theorem orderly_evaluate (ctx : EvalContext) (text : String) :
    Orderly true ctx.limit ctx.thread (evaluate ctx text) := by
  refine .bind (orderly_except (Expr.compile text) nofun) fun code => ?_
  refine .bind (.ofNative (inspects_frameScope ctx)) fun frame => ?_
  exact orderly_run ⟨ctx, frame⟩ code

end ManagedDebugger.Eval
