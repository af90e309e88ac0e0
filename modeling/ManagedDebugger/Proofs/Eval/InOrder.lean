import ManagedDebugger.Proofs.Eval.Walk
import ManagedDebugger.Proofs.Program.Transcript

/-!
# Trees that are evaluated in order

Binding an operand at once or only when it is used makes no difference if the operand is settled by
the walk already, or if nothing happens between. A tree in which every operand is like that is
evaluated strictly from left to right either way.
-/

namespace ManagedDebugger

namespace Eval

variable {α β : Type}

/-- Every result has a property. -/
def Returns (p : Eval α) (P : α → Prop) : Prop := p.run.Returns fun r => ∀ a, r = .ok a → P a

theorem returns_pure {a : α} {P : α → Prop} (holds : P a) : Eval.Returns (pure a) P := by
  refine Program.returns_done ?_
  intro _ returned
  cases returned
  exact holds

theorem returns_throw {P : α → Prop} (e : EvalError) : Eval.Returns (throw e) P :=
  Program.returns_done nofun

theorem returns_trivial (p : Eval α) : p.Returns fun _ => True := fun _ _ _ _ _ => trivial

theorem Returns.bind {p : Eval α} {f : α → Eval β} {P : α → Prop} {Q : β → Prop}
    (first : p.Returns P) (second : ∀ a, P a → (f a).Returns Q) : (p >>= f).Returns Q := by
  refine Program.Returns.bind first fun r holds => ?_
  cases r with
  | ok a => exact second a (holds a rfl)
  | error e => exact Program.returns_done nofun

theorem Returns.mono {p : Eval α} {P Q : α → Prop} (returns : p.Returns P)
    (implied : ∀ a, P a → Q a) : p.Returns Q :=
  Program.Returns.mono returns fun _ holds a returned => implied a (holds a returned)

theorem Returns.bind_congr {p : Eval α} {f g : α → Eval β} {P : α → Prop} (returns : p.Returns P)
    (same : ∀ a, P a → f a = g a) : p >>= f = p >>= g := by
  refine Program.Returns.bind_congr returns fun r holds => ?_
  cases r with
  | ok a => exact same a (holds a rfl)
  | error e => rfl

end Eval

namespace StackEntry

/-- The entry holds a value, and it takes nothing to get it. -/
def Settled (s : EvalScope) (x : StackEntry) : Prop :=
  ∃ v editable, s.resolve x = pure (.value v, editable)

variable {s : EvalScope} {x : StackEntry}

theorem resolve_bound (r : Resolved) (editable literal : Bool) :
    s.resolve { base := some r, chain := [], literal, editable } = pure (r, editable) := by
  simp [EvalScope.resolve, EvalScope.members]

theorem Settled.ofValue (v : EvalValue) (editable : Bool) :
    (StackEntry.ofValue v editable).Settled s :=
  ⟨v, editable, resolve_bound (.value v) editable false⟩

theorem Settled.ofLiteral (v : EvalValue) : (StackEntry.ofLiteral v).Settled s :=
  ⟨v, false, resolve_bound (.value v) false true⟩

theorem Settled.ofSkipped (skipped : x.skipped = true) : x.Settled s :=
  ⟨.null, false, by simp [EvalScope.resolve, skipped]⟩

theorem resolveValue_ofValue (v : EvalValue) (editable : Bool) :
    s.resolveValue (ofValue v editable) = pure v := by
  simp only [EvalScope.resolveValue, ofValue, resolve_bound, pure_bind, Resolved.toValue]

theorem Settled.resolveValue (settled : x.Settled s) : ∃ v, s.resolveValue x = pure v := by
  obtain ⟨v, editable, resolved⟩ := settled
  exact ⟨v, by simp only [EvalScope.resolveValue, resolved, pure_bind, Resolved.toValue]⟩

end StackEntry

namespace EvalScope

open StackEntry

variable {s : EvalScope}

theorem returns_guardedIf {x : StackEntry} (settled : x.Settled s) (conditional : Bool) :
    (s.guardedIf conditional x).Returns (·.Settled s) := by
  cases conditional with
  | false => exact Eval.returns_pure settled
  | true =>
      change (s.guarded x).Returns _
      unfold guarded
      split
      · exact Eval.returns_pure settled
      · obtain ⟨v, editable, resolved⟩ := settled
        rw [resolved, pure_bind]
        refine Eval.returns_pure ?_
        split
        · exact .ofSkipped rfl
        · exact ⟨v, editable, resolve_bound (.value v) editable false⟩

theorem returns_elementEntry (x : StackEntry) (indices : List EvalValue) :
    (s.elementEntry x indices).Returns (·.Settled s) := by
  unfold elementEntry
  split
  case isTrue skipped => exact Eval.returns_pure (.ofSkipped skipped)
  case isFalse =>
    refine (Eval.returns_trivial _).bind fun v _ => (Eval.returns_trivial _).bind fun found _ => ?_
    exact Eval.returns_pure (.ofValue _ _)

theorem returns_invocationEntry (x : StackEntry) (arguments : List EvalValue) :
    (s.invocationEntry x arguments).Returns (·.Settled s) := by
  unfold invocationEntry
  split
  case isTrue skipped => exact Eval.returns_pure (.ofSkipped skipped)
  case isFalse =>
    exact (Eval.returns_trivial _).bind fun v _ => Eval.returns_pure (.ofValue _ _)

/-- A settled target is there before the indices, whenever it is bound. -/
theorem indexed_settled {x : StackEntry} (settled : x.Settled s) :
    ∃ bound, s.indexed .atOnce x = pure bound ∧
      ∀ indices, s.elementEntry bound indices = s.elementEntry x indices := by
  unfold indexed
  split
  case isTrue => exact ⟨x, rfl, fun _ => rfl⟩
  case isFalse reached =>
    obtain ⟨v, value⟩ := settled.resolveValue
    refine ⟨.ofValue v false, by simp only [operand, value, pure_bind], fun indices => ?_⟩
    simp only [elementEntry, reached, value, pure_bind, resolveValue_ofValue]
    simp [ofValue]

/-- Binding first and taking then is just taking. -/
theorem indexed_elementEntry (x : StackEntry) (indices : List EvalValue) :
    (do
      let x ← s.indexed .atOnce x
      s.elementEntry x indices) = s.elementEntry x indices := by
  unfold indexed elementEntry
  split
  case isTrue skipped => simp [skipped]
  case isFalse skipped =>
    simp only [operand, bind_assoc, pure_bind, resolveValue_ofValue]
    simp [ofValue]

theorem bind_resolveValues_congr {early late : Eval (List StackEntry)}
    (same : early >>= s.resolveValues = late >>= s.resolveValues) {β : Type}
    (next : List EvalValue → Eval β) :
    (early >>= fun xs => s.resolveValues xs >>= next) =
      late >>= fun xs => s.resolveValues xs >>= next := by
  rw [← bind_assoc, same, bind_assoc]

/-- An operand can be bound first if it is settled, or if the walk of the others does nothing. -/
theorem operand_resolveValues {walk : Eval StackEntry} {early late : Eval (List StackEntry)}
    (ready : walk.Returns (·.Settled s) ∨ ∃ xs, late = pure xs)
    (rest : early >>= s.resolveValues = late >>= s.resolveValues) :
    (do
      let x ← walk
      let x ← s.operand .atOnce x
      let xs ← early
      s.resolveValues (x :: xs)) =
      (do
        let x ← walk
        let xs ← late
        s.resolveValues (x :: xs)) := by
  simp only [operand, bind_assoc, pure_bind, resolveValues, resolveValue_ofValue,
    bind_resolveValues_congr rest]
  obtain settled | ⟨xs, rfl⟩ := ready
  · refine settled.bind_congr fun x settled => ?_
    obtain ⟨v, value⟩ := settled.resolveValue
    simp only [value, pure_bind]
  · simp only [pure_bind]

theorem bind_of_resolveValues {walk : Eval (List StackEntry)} {vs : List EvalValue}
    (values : walk >>= s.resolveValues = pure vs) {β : Type} (next : List EvalValue → Eval β) :
    (walk >>= fun xs => s.resolveValues xs >>= next) = next vs := by
  rw [← bind_assoc, values, pure_bind]

theorem indexed_onUse (x : StackEntry) : s.indexed .onUse x = pure x := by
  simp [indexed, operand]

theorem called_onUse (x : StackEntry) : s.called .onUse x = pure x := rfl

/-- There is nothing before a name alone. -/
theorem called_ofName (time : BindingTime) (name : Segment) :
    s.called time (ofName name) = pure (ofName name) := by
  cases time with
  | atOnce => rfl
  | onUse => rfl

section Called

variable {x : StackEntry} {method : Segment}

/-- What a call asks for. -/
def query (method : Segment) (arguments : List EvalValue) : MethodQuery :=
  ⟨method.name, arguments, method.typeArguments.length.toUInt32, false⟩

/-- The call itself, on what stands before the method. -/
def callOn (s : EvalScope) (x : StackEntry) (q : MethodQuery) (types : List TypeRef) :
    Eval EvalValue :=
  if x.base.isNone && x.chain.isEmpty then s.invokeByName q types
  else do
    let (r, _) ← s.resolve x
    s.invokeOn r q types

theorem called_access (reached : x.skipped = false) :
    s.called .atOnce (x.access method) =
      if x.base.isNone && x.chain.isEmpty then pure (x.access method)
      else do
        let (r, editable) ← s.resolve x
        return { base := some r, chain := [method], editable } := by
  obtain ⟨base, chain, skipped, literal, editable⟩ := x
  obtain rfl : skipped = false := reached
  simp [called, access]

theorem called_access_skipped (skipped : x.skipped = true) :
    s.called .atOnce (x.access method) = pure (x.access method) := by
  have same : x.access method = x := by simp [access, skipped]
  rw [same]
  cases last : x.chain.getLast? with
  | none => simp [called, last]
  | some m => simp [called, last, skipped]

theorem invocationEntry_access (reached : x.skipped = false) (arguments : List EvalValue) :
    s.invocationEntry (x.access method) arguments = do
      let types ← s.typeArguments method.typeArguments
      let v ← s.callOn x (query method arguments) types
      return .ofValue v false := by
  obtain ⟨base, chain, skipped, literal, editable⟩ := x
  obtain rfl : skipped = false := reached
  simp only [invocationEntry, invoke, access, query, callOn, Bool.false_eq_true, if_false,
    List.getLast?_append, List.getLast?_singleton, Option.some_or, List.dropLast_concat, bind_assoc]

theorem invocationEntry_bound (r : Resolved) (editable : Bool) (arguments : List EvalValue) :
    s.invocationEntry { base := some r, chain := [method], editable } arguments = do
      let types ← s.typeArguments method.typeArguments
      let v ← s.invokeOn r (query method arguments) types
      return .ofValue v false := by
  simp [invocationEntry, invoke, query, resolve_bound]

/-- A settled receiver is there before the arguments, whenever it is bound. -/
theorem called_settled (method : Segment) (settled : x.Settled s) :
    ∃ bound, s.called .atOnce (x.access method) = pure bound ∧
      ∀ arguments, s.invocationEntry bound arguments =
        s.invocationEntry (x.access method) arguments := by
  cases skipped : x.skipped with
  | true => exact ⟨_, called_access_skipped skipped, fun _ => rfl⟩
  | false =>
      obtain ⟨v, editable, resolved⟩ := settled
      rw [called_access skipped, resolved, pure_bind]
      split
      case isTrue => exact ⟨_, rfl, fun _ => rfl⟩
      case isFalse some =>
        refine ⟨_, rfl, fun arguments => ?_⟩
        rw [invocationEntry_bound, invocationEntry_access skipped]
        simp only [callOn, resolved, some, if_false, pure_bind, Bool.false_eq_true]

/-- Binding the receiver first and calling then is just calling, if there are no type arguments. -/
theorem called_invocationEntry (plain : method.typeArguments = []) (arguments : List EvalValue) :
    (do
      let x ← s.called .atOnce (x.access method)
      s.invocationEntry x arguments) = s.invocationEntry (x.access method) arguments := by
  cases skipped : x.skipped with
  | true => rw [called_access_skipped skipped, pure_bind]
  | false =>
      rw [called_access skipped, invocationEntry_access skipped]
      split
      case isTrue none =>
        rw [pure_bind, invocationEntry_access skipped]
      case isFalse some =>
        simp only [callOn, some, bind_assoc, pure_bind, invocationEntry_bound, plain,
          typeArguments, if_false, Bool.false_eq_true]

end Called

end EvalScope

namespace Expr

/-- The walk comes to a value. -/
def isSettled : Expr → Bool
  | literal _ | this | element .. | invocation .. | unary .. | binary .. | sizeOf _
  | interpolated _ => true
  | .checked _ body => body.isSettled
  | _ => false

/-- The walk does nothing. -/
def isInert : Expr → Bool
  | literal (.primitive _) | literal .null | identifier _ | generic .. => true
  | member target _ _ conditional => !conditional && target.isInert
  | .checked _ body => body.isInert
  | _ => false

/-- Neither the walk nor the binding does anything. -/
def isConstant : Expr → Bool
  | literal (.primitive _) | literal .null => true
  | .checked _ body => body.isConstant
  | _ => false

/-- What a method is called on is bound before the arguments, or it makes no difference. -/
def receivesInOrder (arguments : List Expr) : Expr → Bool
  | identifier _ | generic .. => true
  | member receiver _ typeArguments _ =>
    receiver.isSettled || arguments.all isConstant && (typeArguments.getD []).isEmpty
  | _ => false

/-- The walk of no hole does anything. -/
def holesInert : List (Piece Expr) → Bool
  | [] => true
  | .text _ :: rest => holesInert rest
  | .hole e :: rest => e.isInert && holesInert rest

mutual

/-- Every operand is settled, or what comes between its walk and its use does nothing. -/
def inOrder : Expr → Bool
  | member target .. => target.inOrder
  | element target indices _ =>
    target.inOrder && allInOrder indices && (target.isSettled || indices.all isConstant)
  | invocation target arguments =>
    target.inOrder && allInOrder arguments && target.receivesInOrder arguments
  | unary _ operand => operand.inOrder
  | binary _ left right => left.inOrder && right.inOrder && (left.isSettled || right.isInert)
  | .checked _ body => body.inOrder
  | interpolated pieces => holesInOrder pieces
  | _ => true

def allInOrder : List Expr → Bool
  | [] => true
  | e :: rest => e.inOrder && allInOrder rest && (e.isSettled || rest.all isInert)

def holesInOrder : List (Piece Expr) → Bool
  | [] => true
  | .text _ :: rest => holesInOrder rest
  | .hole e :: rest => e.inOrder && holesInOrder rest && (e.isSettled || holesInert rest)

end

variable {s : EvalScope} {time : BindingTime}

theorem returns_walk (e : Expr) (settled : e.isSettled = true) (checked : Bool) :
    (e.walk s time checked).Returns (·.Settled s) := by
  cases e with
  | literal l =>
      rw [walk]
      exact (Eval.returns_trivial _).bind fun v _ => Eval.returns_pure (.ofLiteral v)
  | this =>
      rw [walk, EvalScope.thisEntry]
      cases s.frame.this with
      | some v => exact Eval.returns_pure (.ofValue _ _)
      | none => exact Eval.returns_throw _
  | element target indices conditional =>
      rw [walk]
      refine (Eval.returns_trivial _).bind fun x _ => (Eval.returns_trivial _).bind fun x _ => ?_
      refine (Eval.returns_trivial _).bind fun x _ => (Eval.returns_trivial _).bind fun xs _ => ?_
      exact (Eval.returns_trivial _).bind fun is _ => EvalScope.returns_elementEntry x is
  | invocation target arguments =>
      rw [walk]
      refine (Eval.returns_trivial _).bind fun x _ => (Eval.returns_trivial _).bind fun x _ => ?_
      refine (Eval.returns_trivial _).bind fun xs _ => (Eval.returns_trivial _).bind fun as _ => ?_
      exact EvalScope.returns_invocationEntry x as
  | unary op operand =>
      rw [walk]
      refine (Eval.returns_trivial _).bind fun x _ => (Eval.returns_trivial _).bind fun v _ => ?_
      exact (Eval.returns_trivial _).bind fun r _ => Eval.returns_pure (.ofValue _ _)
  | binary op left right =>
      rw [walk]
      refine (Eval.returns_trivial _).bind fun x _ => (Eval.returns_trivial _).bind fun x _ => ?_
      refine (Eval.returns_trivial _).bind fun y _ => (Eval.returns_trivial _).bind fun l _ => ?_
      refine (Eval.returns_trivial _).bind fun r _ => (Eval.returns_trivial _).bind fun v _ => ?_
      exact Eval.returns_pure (.ofValue _ _)
  | checked on body =>
      rw [walk]
      exact returns_walk body settled on
  | sizeOf type =>
      rw [walk]
      exact (Eval.returns_trivial _).bind fun v _ => Eval.returns_pure (.ofValue _ _)
  | interpolated pieces =>
      rw [walk]
      refine (Eval.returns_trivial _).bind fun xs _ => (Eval.returns_trivial _).bind fun vs _ => ?_
      refine (Eval.returns_trivial _).bind fun t _ => (Eval.returns_trivial _).bind fun v _ => ?_
      exact Eval.returns_pure (.ofValue _ _)
  | identifier name => cases settled
  | generic name arguments => cases settled
  | predefined name => cases settled
  | member target name arguments conditional => cases settled
  | unsupported keyword => cases settled

theorem walk_inert (e : Expr) (inert : e.isInert = true) (checked : Bool) :
    ∃ x, e.walk s time checked = pure x := by
  cases e with
  | literal l =>
      cases l with
      | primitive p => exact ⟨_, by rw [walk]; rfl⟩
      | null => exact ⟨_, by rw [walk]; rfl⟩
      | string text => cases inert
  | identifier name => exact ⟨_, by rw [walk]⟩
  | generic name arguments => exact ⟨_, by rw [walk]⟩
  | member target name arguments conditional =>
      cases conditional with
      | true => cases inert
      | false =>
          obtain ⟨x, walked⟩ := walk_inert target inert checked
          exact ⟨_, by rw [walk, walked]; rfl⟩
  | checked on body =>
      rw [walk]
      exact walk_inert body inert on
  | this => cases inert
  | predefined name => cases inert
  | element target indices conditional => cases inert
  | invocation target arguments => cases inert
  | unary op operand => cases inert
  | binary op left right => cases inert
  | sizeOf type => cases inert
  | interpolated pieces => cases inert
  | unsupported keyword => cases inert

theorem walk_constant (e : Expr) (constant : e.isConstant = true) (checked : Bool) :
    ∃ v, e.walk s time checked = pure (.ofLiteral v) := by
  cases e with
  | literal l =>
      cases l with
      | primitive p => exact ⟨_, by rw [walk]; rfl⟩
      | null => exact ⟨_, by rw [walk]; rfl⟩
      | string text => cases constant
  | checked on body =>
      rw [walk]
      exact walk_constant body constant on
  | identifier name => cases constant
  | generic name arguments => cases constant
  | member target name arguments conditional => cases constant
  | this => cases constant
  | predefined name => cases constant
  | element target indices conditional => cases constant
  | invocation target arguments => cases constant
  | unary op operand => cases constant
  | binary op left right => cases constant
  | sizeOf type => cases constant
  | interpolated pieces => cases constant
  | unsupported keyword => cases constant

theorem walkAll_inert (es : List Expr) (inert : es.all isInert = true) (checked : Bool) :
    ∃ xs, walkAll s .onUse checked es = pure xs := by
  induction es with
  | nil => exact ⟨[], by rw [walkAll]⟩
  | cons e rest inductionHypothesis =>
      obtain ⟨here, there⟩ := Bool.and_eq_true_iff.mp inert
      obtain ⟨x, walked⟩ : ∃ x, e.walk s .onUse checked = pure x := walk_inert e here checked
      obtain ⟨xs, walkedRest⟩ := inductionHypothesis there
      exact ⟨x :: xs, by simp only [walkAll, walked, walkedRest, EvalScope.operand, pure_bind]⟩

theorem walkHoles_inert (pieces : List (Piece Expr)) (inert : holesInert pieces = true)
    (checked : Bool) : ∃ xs, walkHoles s .onUse checked pieces = pure xs := by
  induction pieces with
  | nil => exact ⟨[], by rw [walkHoles]⟩
  | cons piece rest inductionHypothesis =>
      cases piece with
      | text t =>
          rw [walkHoles]
          exact inductionHypothesis inert
      | hole e =>
          obtain ⟨here, there⟩ := Bool.and_eq_true_iff.mp inert
          obtain ⟨x, walked⟩ : ∃ x, e.walk s .onUse checked = pure x := walk_inert e here checked
          obtain ⟨xs, walkedRest⟩ := inductionHypothesis there
          refine ⟨x :: xs, ?_⟩
          simp only [walkHoles, walked, walkedRest, EvalScope.operand, pure_bind]

/-- Constants are there at any time. -/
theorem walkAll_constant (es : List Expr) (constant : es.all isConstant = true) (checked : Bool) :
    ∃ vs, walkAll s .onUse checked es >>= s.resolveValues = pure vs := by
  induction es with
  | nil => exact ⟨[], by simp only [walkAll, pure_bind, EvalScope.resolveValues]⟩
  | cons e rest inductionHypothesis =>
      obtain ⟨here, there⟩ := Bool.and_eq_true_iff.mp constant
      obtain ⟨v, walked⟩ : ∃ v, e.walk s .onUse checked = pure (.ofLiteral v) :=
        walk_constant e here checked
      obtain ⟨w, value⟩ := (StackEntry.Settled.ofLiteral (s := s) v).resolveValue
      obtain ⟨vs, values⟩ := inductionHypothesis there
      refine ⟨w :: vs, ?_⟩
      simp only [walkAll, walked, EvalScope.operand, pure_bind, bind_assoc,
        EvalScope.resolveValues, value]
      rw [← bind_assoc, values, pure_bind]

mutual

/-- In such a tree it makes no difference when operands are bound. -/
theorem walk_inOrder (e : Expr) (inOrder : e.inOrder = true) (checked : Bool) :
    e.walk s .atOnce checked = e.walk s .onUse checked := by
  cases e with
  | member target name arguments conditional =>
      simp only [walk, walk_inOrder target inOrder checked]
  | element target indices conditional =>
      obtain ⟨both, ready⟩ := Bool.and_eq_true_iff.mp inOrder
      obtain ⟨onTarget, onIndices⟩ := Bool.and_eq_true_iff.mp both
      have bound := walkAll_inOrder indices onIndices checked
      simp only [walk, walk_inOrder target onTarget checked,
        EvalScope.bind_resolveValues_congr bound, EvalScope.indexed_onUse, pure_bind]
      cases Bool.or_eq_true_iff.mp ready with
      | inl settled =>
          refine (returns_walk target settled checked).bind_congr fun x settled => ?_
          refine (EvalScope.returns_guardedIf settled conditional).bind_congr fun x settled => ?_
          obtain ⟨early, indexed, same⟩ := EvalScope.indexed_settled settled
          simp only [indexed, pure_bind, same]
      | inr constant =>
          obtain ⟨vs, values⟩ := walkAll_constant (s := s) indices constant checked
          simp only [EvalScope.bind_of_resolveValues values, EvalScope.indexed_elementEntry]
  | invocation target arguments =>
      obtain ⟨both, ready⟩ := Bool.and_eq_true_iff.mp inOrder
      obtain ⟨onTarget, onArguments⟩ := Bool.and_eq_true_iff.mp both
      have bound := walkAll_inOrder arguments onArguments checked
      rw [walk, walk, walk_inOrder target onTarget checked]
      simp only [EvalScope.bind_resolveValues_congr bound, EvalScope.called_onUse, pure_bind]
      cases target with
      | identifier name => simp only [walk, pure_bind, EvalScope.called_ofName]
      | generic name typeArguments => simp only [walk, pure_bind, EvalScope.called_ofName]
      | member receiver name typeArguments conditional =>
          simp only [walk, bind_assoc, pure_bind]
          cases Bool.or_eq_true_iff.mp ready with
          | inl settled =>
              refine (returns_walk receiver settled checked).bind_congr fun x settled => ?_
              refine (EvalScope.returns_guardedIf settled conditional).bind_congr
                fun x settled => ?_
              obtain ⟨early, called, same⟩ :=
                EvalScope.called_settled ⟨name, typeArguments.getD []⟩ settled
              simp only [called, pure_bind, same]
          | inr constant =>
              obtain ⟨constant, plain⟩ := Bool.and_eq_true_iff.mp constant
              obtain ⟨vs, values⟩ := walkAll_constant (s := s) arguments constant checked
              have plain : (⟨name, typeArguments.getD []⟩ : Segment).typeArguments = [] :=
                List.isEmpty_iff.mp plain
              simp only [EvalScope.bind_of_resolveValues values,
                EvalScope.called_invocationEntry plain]
      | _ => cases ready
  | unary op operand => simp only [walk, walk_inOrder operand inOrder checked]
  | binary op left right =>
      obtain ⟨both, ready⟩ := Bool.and_eq_true_iff.mp inOrder
      obtain ⟨onLeft, onRight⟩ := Bool.and_eq_true_iff.mp both
      simp only [walk, walk_inOrder left onLeft checked, walk_inOrder right onRight checked,
        EvalScope.operand, bind_assoc, pure_bind, EvalScope.binaryEntry,
        StackEntry.resolveValue_ofValue]
      cases Bool.or_eq_true_iff.mp ready with
      | inl settled =>
          refine (returns_walk left settled checked).bind_congr fun x settled => ?_
          obtain ⟨v, value⟩ := settled.resolveValue
          simp only [value, pure_bind]
      | inr inert =>
          obtain ⟨y, walked⟩ : ∃ x, right.walk s .onUse checked = pure x :=
            walk_inert right inert checked
          simp only [walked, pure_bind]
  | checked on body =>
      rw [walk, walk]
      exact walk_inOrder body inOrder on
  | interpolated pieces =>
      rw [walk, walk, EvalScope.bind_resolveValues_congr (walkHoles_inOrder pieces inOrder checked)]
  | literal l => rw [walk, walk]
  | identifier name => rw [walk, walk]
  | generic name arguments => rw [walk, walk]
  | this => rw [walk, walk]
  | predefined name => rw [walk, walk]
  | sizeOf type => rw [walk, walk]
  | unsupported keyword => rw [walk, walk]

theorem walkAll_inOrder (es : List Expr) (inOrder : allInOrder es = true) (checked : Bool) :
    walkAll s .atOnce checked es >>= s.resolveValues =
      walkAll s .onUse checked es >>= s.resolveValues := by
  cases es with
  | nil => rw [walkAll, walkAll]
  | cons e rest =>
      obtain ⟨both, ready⟩ := Bool.and_eq_true_iff.mp inOrder
      obtain ⟨here, there⟩ := Bool.and_eq_true_iff.mp both
      have ready : (e.walk s .onUse checked).Returns (·.Settled s) ∨
          ∃ xs, walkAll s .onUse checked rest = pure xs :=
        (Bool.or_eq_true_iff.mp ready).imp (fun settled => returns_walk e settled checked)
          fun inert => walkAll_inert rest inert checked
      have bound := EvalScope.operand_resolveValues ready (walkAll_inOrder rest there checked)
      simpa only [walkAll, walk_inOrder e here checked, bind_assoc, pure_bind,
        EvalScope.operand] using bound

theorem walkHoles_inOrder (pieces : List (Piece Expr)) (inOrder : holesInOrder pieces = true)
    (checked : Bool) :
    walkHoles s .atOnce checked pieces >>= s.resolveValues =
      walkHoles s .onUse checked pieces >>= s.resolveValues := by
  cases pieces with
  | nil => rw [walkHoles, walkHoles]
  | cons piece rest =>
      cases piece with
      | text t =>
          rw [walkHoles, walkHoles]
          exact walkHoles_inOrder rest inOrder checked
      | hole e =>
          obtain ⟨both, ready⟩ := Bool.and_eq_true_iff.mp inOrder
          obtain ⟨here, there⟩ := Bool.and_eq_true_iff.mp both
          have ready : (e.walk s .onUse checked).Returns (·.Settled s) ∨
              ∃ xs, walkHoles s .onUse checked rest = pure xs :=
            (Bool.or_eq_true_iff.mp ready).imp (fun settled => returns_walk e settled checked)
              fun inert => walkHoles_inert rest inert checked
          have bound := EvalScope.operand_resolveValues ready (walkHoles_inOrder rest there checked)
          simpa only [walkHoles, walk_inOrder e here checked, bind_assoc, pure_bind,
            EvalScope.operand] using bound

end

end Expr

end ManagedDebugger
