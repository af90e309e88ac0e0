import ManagedDebugger.Proofs.Eval.ConditionalChain
import ManagedDebugger.Proofs.Eval.LeftBehind
import ManagedDebugger.Proofs.Eval.Overloads
import ManagedDebugger.Proofs.Value.Words

/-!
# Passing arguments

A method is called with one value for each argument, behind the receiver. For a parameter of a
primitive type, an argument that is a primitive itself arrives as a primitive of that type and with
the same number. The lookup accepts other arguments as well, a boxed value above all, if their type
has the name of the parameter. They are passed as they are.
-/

namespace ManagedDebugger

/-- The method that is called in the target, and with what. -/
def Exchange.called? : Exchange evalEffect → Option (MethodRef × List RemoteValue)
  | ⟨.native (.beginCall _ method _ arguments), _⟩ => some (method, arguments)
  | _ => none

/-- The value is a primitive, here or in the target. -/
def EvalValue.isPrimitive : EvalValue → Bool
  | primitive _ => true
  | remote v => v.kind.isPrimitive
  | null | void => false

/-! ## What is accepted -/

/-- What is known of an argument that is accepted for a parameter of a primitive type, whatever is
said of types. -/
def ElementType.Admits (wanted : ElementType) : EvalValue → Prop
  | .primitive p => p.type.widensTo wanted = true
  | .null | .void => False
  | .remote v =>
    match v.kind with
    | .primitive type => type.widensTo wanted = true
    | .nullReference => False
    | _ => True

/-- What is known of an argument that is accepted for a parameter of the named type. -/
structure Accepted (parameter : String) (a : EvalValue) : Prop where
  value : a ≠ .void
  admits : ∀ wanted, ElementType.ofRuntimeName? parameter = some wanted → wanted.Admits a

/-- The arguments are accepted by the method. -/
def Takes (m : MethodInfo) (arguments : List EvalValue) : Prop :=
  List.Forall₂ (fun a p => Accepted p.typeName a) arguments m.parameters

theorem widensTo_of_primitiveFits {type wanted : ElementType} {parameter : String}
    (named : ElementType.ofRuntimeName? parameter = some wanted)
    (fits : primitiveFits type parameter = true) : type.widensTo wanted = true := by
  rwa [primitiveFits, named] at fits

theorem returns_isCompatible (parameter : String) (a : EvalValue) :
    (isCompatible parameter a).Returns fun fits => fits = true → Accepted parameter a := by
  cases a with
  | primitive p =>
      apply Eval.returns_pure
      intro fits
      exact ⟨nofun, fun wanted named => widensTo_of_primitiveFits named fits⟩
  | null =>
      apply Eval.returns_pure
      intro none
      exact ⟨nofun, fun wanted named => by simp [named] at none⟩
  | void => exact Eval.returns_pure nofun
  | remote v =>
      obtain ⟨id, kind, typeName⟩ := v
      cases kind with
      | primitive type =>
          apply Eval.returns_pure
          intro fits
          exact ⟨nofun, fun wanted named => widensTo_of_primitiveFits named fits⟩
      | nullReference =>
          apply Eval.returns_pure
          intro none
          exact ⟨nofun, fun wanted named => by simp [named] at none⟩
      | string | object | array | boxed =>
          exact (Eval.returns_trivial _).mono fun _ _ _ => ⟨nofun, fun _ _ => trivial⟩

theorem returns_allCompatible {arguments : List EvalValue} {parameters : List Parameter}
    (sameLength : parameters.length = arguments.length) :
    (allCompatible arguments parameters).Returns fun fit => fit = true →
      List.Forall₂ (fun a p => Accepted p.typeName a) arguments parameters := by
  induction arguments generalizing parameters with
  | nil =>
      obtain rfl := List.length_eq_zero_iff.mp sameLength
      exact Eval.returns_pure fun _ => .nil
  | cons a arguments inductionHypothesis =>
      cases parameters with
      | nil => cases sameLength
      | cons p parameters =>
          refine (returns_isCompatible p.typeName a).bind fun fits accepted => ?_
          cases fits with
          | false => exact Eval.returns_pure nofun
          | true =>
              have rest := inductionHypothesis (Nat.succ.inj sameLength)
              exact rest.mono fun _ others fit => .cons (accepted rfl) (others fit)

variable {q : MethodQuery}

theorem returns_firstMatch (methods : List MethodInfo) :
    (firstMatch q methods).Returns fun found => ∀ m, found = some m → Takes m q.arguments := by
  induction methods with
  | nil => exact Eval.returns_pure nofun
  | cons m rest inductionHypothesis =>
      unfold firstMatch
      by_cases like : (q.named m && q.shaped m) = true
      · rw [if_pos like]
        have sameLength := (MethodQuery.shaped_iff.mp (Bool.and_eq_true_iff.mp like).2).1
        refine (returns_allCompatible sameLength).bind fun fit taken => ?_
        cases fit with
        | false => exact inductionHypothesis
        | true =>
            apply Eval.returns_pure
            rintro _ ⟨⟩
            exact taken rfl
      · rw [if_neg like]
        exact inductionHypothesis

theorem returns_findMethodIn (seen : Bool) (n : Nat) (type : Option TypeRef) :
    (findMethodIn q seen n type).Returns fun lookup =>
      ∀ m, lookup = .found m → Takes m q.arguments := by
  induction n generalizing seen type with
  | zero =>
      apply Eval.returns_pure
      cases seen <;> nofun
  | succ n inductionHypothesis =>
      cases type with
      | none =>
          apply Eval.returns_pure
          cases seen <;> nofun
      | some type =>
          refine (Eval.returns_trivial (Eval.native (.typeInfo type))).bind fun info _ => ?_
          refine (returns_firstMatch info.methods).bind fun found taken => ?_
          cases found with
          | none => exact inductionHypothesis _ info.base
          | some m =>
              apply Eval.returns_pure
              rintro _ ⟨⟩
              exact taken m rfl

/-! ## What is made of it -/

/-- What primitives in the target are worth. -/
structure Contents where
  value : RemoteValue → Primitive
  type_value : ∀ v type, v.kind = .primitive type → (value v).type = type

namespace Contents

variable (C : Contents)

/-- Primitives are read and made as they are. -/
def Reports : Exchange evalEffect → Prop
  | ⟨.native (.readPrimitive v), .ok p⟩ => p = C.value v
  | ⟨.native (.createPrimitive _ p), .ok v⟩ => v.kind = .primitive p.type ∧ C.value v = p
  | _ => True

/-- The number of a primitive, here or in the target. -/
def number? : EvalValue → Option Int
  | .primitive p => p.toInt?
  | .remote v => if v.kind.isPrimitive then (C.value v).toInt? else none
  | .null | .void => none

/-- What arrives of an argument for a parameter of a primitive type. -/
structure Arrives (wanted : ElementType) (a : EvalValue) (v : RemoteValue) : Prop where
  kind_iff : v.kind = .primitive wanted ↔ a.isPrimitive = true
  number : a.isPrimitive = true → wanted.isIntegral = true → C.number? (.remote v) = C.number? a
  unchanged : a.isPrimitive = false → a = .remote v ∧ v.isNull = false

/-- One value for each parameter, in their order. -/
inductive Passed : List EvalValue → List Parameter → List RemoteValue → Prop where
  | nil : Passed [] [] []
  | cons {a : EvalValue} {p : Parameter} {v : RemoteValue} {arguments : List EvalValue}
      {parameters : List Parameter} {values : List RemoteValue} :
      (∀ wanted, ElementType.ofRuntimeName? p.typeName = some wanted → C.Arrives wanted a v) →
      Passed arguments parameters values →
      Passed (a :: arguments) (p :: parameters) (v :: values)

/-- How something ends that is made in the target: with what was to be made, or because a call has
failed. -/
inductive Outcome {α : Type} (P : α → Prop) (es : List (Exchange evalEffect)) :
    Except EvalError α → Prop where
  | made {a : α} : P a → Outcome P es (.ok a)
  | failed {call : NativeCall} {e : NativeError} :
      ⟨.native call, .error e⟩ ∈ es → Outcome P es (.error (.native e))

/-- While something is made in a target that reports, no method is called. -/
def Makes {α : Type} (p : Eval α) (P : α → Prop) : Prop :=
  ∀ es r, p.run.Plays es r → (∀ x ∈ es, C.Reports x) →
    es.filterMap Exchange.called? = [] ∧ Outcome P es r

variable {C} {α β : Type}

theorem Outcome.mono {P Q : α → Prop} {es es' : List (Exchange evalEffect)}
    {r : Except EvalError α} (outcome : Outcome P es r) (implied : ∀ a, P a → Q a)
    (within : ∀ x ∈ es, x ∈ es') : Outcome Q es' r := by
  cases outcome with
  | made holds => exact .made (implied _ holds)
  | failed among => exact .failed (within _ among)

namespace Makes

theorem pure {a : α} {P : α → Prop} (holds : P a) : C.Makes (Pure.pure a) P := by
  intro es r played _
  obtain ⟨rfl, rfl⟩ := Program.plays_done_iff.mp played
  exact ⟨rfl, .made holds⟩

theorem bind {p : Eval α} {f : α → Eval β} {P : α → Prop} {Q : β → Prop} (first : C.Makes p P)
    (second : ∀ a, P a → C.Makes (f a) Q) : C.Makes (p >>= f) Q := by
  intro es r played reported
  obtain ⟨es₁, a, es₂, left, right, rfl⟩ := Program.plays_bind_iff.mp played
  obtain ⟨reported₁, reported₂⟩ := List.forall_mem_append.mp reported
  obtain ⟨silent₁, outcome⟩ := first es₁ a left reported₁
  cases outcome with
  | made holds =>
      obtain ⟨silent₂, outcome⟩ := second _ holds es₂ r right reported₂
      refine ⟨by simp [silent₁, silent₂], outcome.mono (fun _ holds => holds) ?_⟩
      exact fun _ => List.mem_append_right es₁
  | failed among =>
      obtain ⟨rfl, rfl⟩ := Program.plays_done_iff.mp right
      exact ⟨by simp [silent₁], .failed (List.mem_append_left [] among)⟩

theorem mono {p : Eval α} {P Q : α → Prop} (makes : C.Makes p P) (implied : ∀ a, P a → Q a) :
    C.Makes p Q := by
  intro es r played reported
  obtain ⟨silent, outcome⟩ := makes es r played reported
  exact ⟨silent, outcome.mono implied fun _ among => among⟩

theorem native {call : NativeCall} {P : call.Answer → Prop}
    (silent : ∀ reply : call.Reply, Exchange.called? ⟨.native call, reply⟩ = none)
    (reports : ∀ a : call.Answer, C.Reports ⟨.native call, .ok a⟩ → P a) :
    C.Makes (Eval.native call) P := by
  intro es r played reported
  obtain ⟨reply, rfl, rfl⟩ := RemoteCall.plays_call played
  refine ⟨by simp [silent reply], ?_⟩
  cases reply with
  | ok a => exact .made (reports a (reported _ List.mem_cons_self))
  | error e => exact .failed List.mem_cons_self

end Makes

theorem isPrimitive_of_kind {v : RemoteValue} {type : ElementType} (kind : v.kind = .primitive type) :
    v.kind.isPrimitive = true := by
  rw [kind]
  rfl

/-- A primitive arrives if it is converted to the type of the parameter. -/
theorem arrives_of_converted {a : EvalValue} {p converted : Primitive} {wanted : ElementType}
    {v : RemoteValue} (isPrimitive : a.isPrimitive = true) (number : C.number? a = p.toInt?)
    (widens : p.type.widensTo wanted = true) (converts : (p.convert? wanted).getD p = converted)
    (kind : v.kind = .primitive converted.type) (value : C.value v = converted) :
    C.Arrives wanted a v := by
  obtain ⟨_, same, type, kept⟩ := Primitive.convert?_of_widensTo widens
  rw [same, Option.getD_some] at converts
  subst converts type
  constructor
  case kind_iff => exact iff_of_true kind isPrimitive
  case number =>
    intro _ integral
    rw [number, ← kept integral, ← value]
    exact if_pos (isPrimitive_of_kind kind)
  case unchanged => exact fun other => Bool.noConfusion (other.symm.trans isPrimitive)

variable {thread : ThreadId} {parameter : String} {v : RemoteValue} {wanted : ElementType}

theorem materialize_unnamed (unnamed : ElementType.ofRuntimeName? parameter = none) :
    materialize thread parameter (.remote v) = pure v := by
  obtain ⟨id, kind, typeName⟩ := v
  cases kind <;> simp [materialize, unnamed]

/-- A primitive of another type is read and made anew. What is no primitive is left alone. -/
theorem makes_remote (named : ElementType.ofRuntimeName? parameter = some wanted)
    (admits : wanted.Admits (.remote v)) :
    C.Makes (materialize thread parameter (.remote v)) (C.Arrives wanted (.remote v)) := by
  obtain ⟨id, kind, typeName⟩ := v
  cases kind with
  | primitive type =>
      simp only [materialize, named]
      by_cases same : type = wanted
      · subst same
        rw [if_pos rfl]
        exact .pure ⟨iff_of_true rfl rfl, fun _ _ => rfl, nofun⟩
      · rw [if_neg same]
        refine Makes.bind (.native (fun _ => rfl) fun p reports => reports) fun p read => ?_
        apply Makes.native (fun _ => rfl)
        intro created reports
        -- What is read is of the type that the lookup went by, so the conversion succeeds.
        have type_eq : p.type = type := read ▸ C.type_value _ type rfl
        refine arrives_of_converted rfl ?_ ?_ rfl reports.1 reports.2
        · rw [read]
          rfl
        · rw [type_eq]
          exact admits
  | nullReference => exact admits.elim
  | string | object | array | boxed =>
      exact .pure ⟨iff_of_false nofun nofun, nofun, fun _ => ⟨rfl, rfl⟩⟩

theorem makes_materialize {a : EvalValue} (accepted : Accepted parameter a) :
    C.Makes (materialize thread parameter a) fun v =>
      ∀ wanted, ElementType.ofRuntimeName? parameter = some wanted → C.Arrives wanted a v := by
  obtain ⟨value, admits⟩ := accepted
  cases a with
  | primitive p =>
      apply Makes.native (fun _ => rfl)
      intro v reports wanted named
      rw [named] at reports
      exact arrives_of_converted rfl rfl (admits wanted named) rfl reports.1 reports.2
  | null => exact Makes.native (fun _ => rfl) fun _ _ wanted named => (admits wanted named).elim
  | void => exact absurd rfl value
  | remote v =>
      cases named : ElementType.ofRuntimeName? parameter with
      | none =>
          rw [materialize_unnamed named]
          exact .pure nofun
      | some wanted =>
          apply (makes_remote named (admits wanted named)).mono
          rintro v arrives _ ⟨⟩
          exact arrives

theorem makes_materializeAll {arguments : List EvalValue} {parameters : List Parameter}
    (accepted : List.Forall₂ (fun a p => Accepted p.typeName a) arguments parameters) :
    C.Makes (materializeAll thread arguments parameters) (C.Passed arguments parameters) := by
  induction accepted with
  | nil => exact .pure .nil
  | cons accepted _ inductionHypothesis =>
      refine (makes_materialize accepted).bind fun v arrives => ?_
      refine inductionHypothesis.bind fun values passed => ?_
      exact .pure (.cons arrives passed)

end Contents

/-! ## The call -/

theorem RemoteCall.called_of_plays {limit : Option Nat} {thread : ThreadId} {method : MethodRef}
    {typeArguments : List TypeRef} {arguments : List RemoteValue} {es : List (Exchange evalEffect)}
    {r : Except EvalError (Option RemoteValue)}
    (played : (call limit thread method typeArguments arguments).run.Plays es r) :
    es.filterMap Exchange.called? = [(method, arguments)] := by
  rw [call, run_eq] at played
  obtain ⟨first, begun, rest, left, right, rfl⟩ := Program.plays_bind_iff.mp played
  obtain ⟨reply, rfl, rfl⟩ := plays_call left
  cases reply with
  | error e =>
      obtain ⟨rfl, -⟩ := Program.plays_done_iff.mp right
      rfl
  | ok eval =>
      cases course_of_plays right <;> rfl

/-- If the target reports, then either the method that was found is called once, with the receiver
and one value for each parameter, or it is not called because the target refused to make one of
them. For a parameter of a primitive type, the value is a primitive of the type exactly if the
argument is a primitive, and then an integer stays the same. Any other argument, boxed or not, is
passed as it is. -/
theorem callMethod_passes {C : Contents} {limit : Option Nat} {thread : ThreadId}
    {q : MethodQuery} {type : TypeRef} {m : MethodInfo} {receiver : Option RemoteValue}
    {typeArguments : List TypeRef} {asked es : List (Exchange evalEffect)}
    {r : Except EvalError EvalValue} (found : (findMethod q type).run.Plays asked (.ok (.found m)))
    (called : (callMethod limit thread m receiver q.arguments typeArguments).run.Plays es r)
    (reported : ∀ x ∈ es, C.Reports x) :
    (∃ values, C.Passed q.arguments m.parameters values ∧
      es.filterMap Exchange.called? = [(m.method, receiver.toList ++ values)]) ∨
    (es.filterMap Exchange.called? = [] ∧
      ∃ call e, ⟨.native call, .error e⟩ ∈ es ∧ r = .error (.native e)) := by
  have accepted := returns_findMethodIn false maxTypeDepth (some type) asked _ found _ rfl m rfl
  obtain ⟨making, made, rest, left, right, rfl⟩ := Program.plays_bind_iff.mp called
  obtain ⟨reported, -⟩ := List.forall_mem_append.mp reported
  obtain ⟨silent, outcome⟩ := Contents.makes_materializeAll accepted making made left reported
  cases outcome with
  | failed among =>
      obtain ⟨rfl, rfl⟩ := Program.plays_done_iff.mp right
      exact .inr ⟨by simp [silent], _, _, List.mem_append_left [] among, rfl⟩
  | @made values passed =>
      obtain ⟨calling, result, last, begun, ended, rfl⟩ := Program.plays_bind_iff.mp right
      -- Behind the call, only its result is looked at.
      have nothing : last = [] := by
        match result with
        | .ok (some v) => exact (Program.plays_done_iff.mp ended).1
        | .ok none => exact (Program.plays_done_iff.mp ended).1
        | .error e => exact (Program.plays_done_iff.mp ended).1
      have once := RemoteCall.called_of_plays begun
      exact .inl ⟨values, passed, by simp [silent, nothing, once]⟩

section OneArgument

/-- Every number in the target is a five. -/
def fives : Contents where
  value v :=
    match v.kind with
    | .primitive type => .ofPattern type 5
    | _ => .bool true
  type_value v type kind := by
    rw [kind]
    exact Primitive.type_ofPattern type 5

def byteValue : RemoteValue := ⟨⟨7⟩, .primitive .u1, "System.Byte"⟩

def longValue : RemoteValue := ⟨⟨8⟩, .primitive .i8, "System.Int64"⟩

def boxedValue : RemoteValue := ⟨⟨9⟩, .boxed, "System.Int32"⟩

/-- The method `F` of the first type is asked for. -/
def passing (v : RemoteValue) : MethodQuery := ⟨"F", [.remote v], 0, false⟩

/-- The type has a method with one parameter. -/
def typeWithF (parameter : String) : List (Exchange evalEffect) :=
  [⟨.native (.typeInfo (rung 0)), .ok ⟨rung 0, none, false, [], [], [methodF 0 parameter]⟩⟩]

/-- The method is called, and returns nothing. -/
def callOfF (v : RemoteValue) : List (Exchange evalEffect) :=
  [⟨.native (.beginCall 1 ⟨1, 0⟩ [] [v]), .ok ⟨1⟩⟩, ⟨.register ⟨1⟩ 1, 0⟩,
    ⟨.native .continueProcess, .ok ()⟩, ⟨.wait 0 none, some (.outcome (.completed none))⟩]

/-- A byte is read and made into a long, which the method is called with. -/
def callWithByte : List (Exchange evalEffect) :=
  ⟨.native (.readPrimitive byteValue), .ok (.u8 5)⟩ ::
    ⟨.native (.createPrimitive 1 (.i64 5)), .ok longValue⟩ :: callOfF longValue

theorem callMethod_passes_byte :
    (findMethod (passing byteValue) (rung 0)).run.Plays (typeWithF "System.Int64")
      (.ok (.found (methodF 0 "System.Int64"))) ∧
    (callMethod none 1 (methodF 0 "System.Int64") none (passing byteValue).arguments []).run.Plays
      callWithByte (.ok .void) ∧
    (∀ x ∈ callWithByte, fives.Reports x) ∧
    fives.Passed [.remote byteValue] [⟨"x", "System.Int64"⟩] [longValue] := by
  have found : (findMethod (passing byteValue) (rung 0)).run.Plays (typeWithF "System.Int64")
      (.ok (.found (methodF 0 "System.Int64"))) := .perform (.done _)
  have called : (callMethod none 1 (methodF 0 "System.Int64") none (passing byteValue).arguments
      []).run.Plays callWithByte (.ok .void) :=
    .perform (.perform (.perform (.perform (.perform (.perform (.done _))))))
  have reported : ∀ x ∈ callWithByte, fives.Reports x := by
    simp [callWithByte, callOfF, Contents.Reports, fives, byteValue, longValue]
    exact ⟨rfl, rfl, rfl⟩
  obtain ⟨values, passed, once⟩ | ⟨silent, -⟩ := callMethod_passes found called reported
  · cases once
    exact ⟨found, called, reported, passed⟩
  · cases silent

/-- A boxed number that is accepted for a number arrives in its box. -/
theorem boxed_passed : ¬ ∀ {C : Contents} {limit : Option Nat} {thread : ThreadId}
    {q : MethodQuery} {type : TypeRef} {m : MethodInfo} {receiver : Option RemoteValue}
    {typeArguments : List TypeRef} {asked es : List (Exchange evalEffect)}
    {r : Except EvalError EvalValue} {values : List RemoteValue},
    (findMethod q type).run.Plays asked (.ok (.found m)) →
    (callMethod limit thread m receiver q.arguments typeArguments).run.Plays es r →
    (∀ x ∈ es, C.Reports x) →
    es.filterMap Exchange.called? = [(m.method, receiver.toList ++ values)] →
    List.Forall₂ (fun p v => ∀ wanted, ElementType.ofRuntimeName? p.typeName = some wanted →
      v.kind = .primitive wanted) m.parameters values := by
  intro holds
  have found : (findMethod (passing boxedValue) (rung 0)).run.Plays (typeWithF "System.Int32")
      (.ok (.found (methodF 0 "System.Int32"))) := .perform (.done _)
  have called : (callMethod none 1 (methodF 0 "System.Int32") none (passing boxedValue).arguments
      []).run.Plays (callOfF boxedValue) (.ok .void) :=
    .perform (.perform (.perform (.perform (.done _))))
  have reported : ∀ x ∈ callOfF boxedValue, fives.Reports x := by
    simp [callOfF, Contents.Reports]
  have once : (callOfF boxedValue).filterMap Exchange.called? = [(⟨1, 0⟩, [boxedValue])] := rfl
  have arrive := holds found called reported once
  cases arrive with
  | cons arrives _ => cases arrives .i4 rfl

end OneArgument

end ManagedDebugger
