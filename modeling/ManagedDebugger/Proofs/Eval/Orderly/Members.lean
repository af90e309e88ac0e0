import ManagedDebugger.Eval.Names
import ManagedDebugger.Proofs.Eval.Orderly

/-!
# Looking up members and names

Every search through types and their bases, every choice of an overload and every name that is bound
is an orderly evaluation.
-/

namespace ManagedDebugger.Eval

variable {faulty : Bool} {limit : Option Nat} {thread : ThreadId}

theorem orderly_searchBases {α : Type} {visit : TypeInfo → Eval (Option α)}
    (visited : ∀ info, Orderly faulty limit thread (visit info)) (n : Nat)
    (type : Option TypeRef) : Orderly faulty limit thread (searchBases visit n type) := by
  induction n generalizing type with
  | zero => exact .pure none
  | succ n inductionHypothesis =>
      cases type with
      | none => exact .pure none
      | some type =>
          refine .bind (.native _ rfl) fun info => ?_
          refine .bind (visited info) fun found => ?_
          cases found with
          | none => exact inductionHypothesis info.base
          | some a => exact .pure (some a)

theorem orderly_callGetter (getter : MethodRef) (receiver : Option RemoteValue) :
    Orderly faulty limit thread (callGetter limit thread getter receiver) := by
  refine .bind (.call getter [] receiver.toList) fun result => ?_
  cases result with
  | none => exact .native _ rfl
  | some value => exact .pure value

theorem orderly_instanceMember (object : RemoteValue) (name : String) :
    Orderly faulty limit thread (instanceMember limit thread object name) := by
  refine .bind (.native _ rfl) fun type => ?_
  refine orderly_searchBases (fun info => ?_) maxTypeDepth (some type)
  split
  · exact .bind (.native _ rfl) fun value => .pure _
  · exact .bind (orderly_callGetter _ _) fun value => .pure _
  · exact .pure none

theorem orderly_staticMember (type : TypeRef) (name : String) :
    Orderly faulty limit thread (staticMember limit thread type name) := by
  refine orderly_searchBases (fun info => ?_) maxTypeDepth (some type)
  split
  · exact .bind (.native _ rfl) fun value => .pure _
  · exact .bind (orderly_callGetter _ _) fun value => .pure _
  · exact .pure none

theorem orderly_derivesFromIn (name : String) (n : Nat) (type : Option TypeRef) :
    Orderly faulty limit thread (derivesFromIn name n type) := by
  induction n generalizing type with
  | zero => exact .pure false
  | succ n inductionHypothesis =>
      cases type with
      | none => exact .pure false
      | some type =>
          unfold derivesFromIn
          split
          · exact .pure true
          · split
            · exact .pure false
            · exact .bind (.native _ rfl) fun info => inductionHypothesis info.base

theorem orderly_derivesFrom (value : RemoteValue) (name : String) :
    Orderly faulty limit thread (derivesFrom value name) :=
  .bind (.native _ rfl) fun type => orderly_derivesFromIn name maxTypeDepth (some type)

theorem orderly_isCompatible (parameter : String) (v : EvalValue) :
    Orderly faulty limit thread (isCompatible parameter v) := by
  cases v with
  | primitive p => exact .pure _
  | null => exact .pure _
  | void => exact .pure _
  | remote v =>
      unfold isCompatible
      dsimp only
      split
      · exact .pure _
      · exact .pure _
      · split
        · exact .pure true
        · exact orderly_derivesFrom v parameter

theorem orderly_allCompatible (arguments : List EvalValue) (parameters : List Parameter) :
    Orderly faulty limit thread (allCompatible arguments parameters) := by
  induction arguments generalizing parameters with
  | nil => exact .pure true
  | cons a arguments inductionHypothesis =>
      cases parameters with
      | nil => exact .pure true
      | cons p parameters =>
          refine .bind (orderly_isCompatible p.typeName a) fun fits => ?_
          cases fits with
          | true => exact inductionHypothesis parameters
          | false => exact .pure false

theorem orderly_firstMatch (q : MethodQuery) (methods : List MethodInfo) :
    Orderly faulty limit thread (firstMatch q methods) := by
  induction methods with
  | nil => exact .pure none
  | cons m rest inductionHypothesis =>
      unfold firstMatch
      split
      · refine .bind (orderly_allCompatible q.arguments m.parameters) fun fits => ?_
        cases fits with
        | true => exact .pure (some m)
        | false => exact inductionHypothesis
      · exact inductionHypothesis

theorem orderly_findMethodIn (q : MethodQuery) (seen : Bool) (n : Nat) (type : Option TypeRef) :
    Orderly faulty limit thread (findMethodIn q seen n type) := by
  induction n generalizing seen type with
  | zero => exact .pure _
  | succ n inductionHypothesis =>
      cases type with
      | none => exact .pure _
      | some type =>
          refine .bind (.native _ rfl) fun info => ?_
          refine .bind (orderly_firstMatch q info.methods) fun found => ?_
          cases found with
          | none => exact inductionHypothesis _ info.base
          | some m => exact .pure _

theorem orderly_findMethod (q : MethodQuery) (type : TypeRef) :
    Orderly faulty limit thread (findMethod q type) :=
  orderly_findMethodIn q false maxTypeDepth (some type)

theorem orderly_materialize (parameter : String) (v : EvalValue) :
    Orderly faulty limit thread (materialize thread parameter v) := by
  cases v with
  | primitive p => exact .native _ rfl
  | null => exact .native _ rfl
  | void => exact .fail _ nofun
  | remote v =>
      unfold materialize
      dsimp only
      split
      · split
        · exact .pure v
        · exact .bind (.native _ rfl) fun p => .native _ rfl
      · exact .pure v

theorem orderly_materializeAll (arguments : List EvalValue) (parameters : List Parameter) :
    Orderly faulty limit thread (materializeAll thread arguments parameters) := by
  induction arguments generalizing parameters with
  | nil => exact .pure []
  | cons a arguments inductionHypothesis =>
      cases parameters with
      | nil => exact .pure []
      | cons p parameters =>
          refine .bind (orderly_materialize p.typeName a) fun v => ?_
          exact .bind (inductionHypothesis parameters) fun vs => .pure (v :: vs)

theorem orderly_callMethod (method : MethodInfo) (receiver : Option RemoteValue)
    (arguments : List EvalValue) (typeArguments : List TypeRef) :
    Orderly faulty limit thread
      (callMethod limit thread method receiver arguments typeArguments) := by
  refine .bind (orderly_materializeAll arguments method.parameters) fun values => ?_
  refine .bind (.call method.method typeArguments _) fun result => ?_
  cases result with
  | none => exact .pure _
  | some value => exact .pure _

theorem orderly_localize (v : EvalValue) : Orderly faulty limit thread (localize v) := by
  cases v with
  | primitive p => exact .pure _
  | null => exact .pure _
  | void => exact .pure _
  | remote v =>
      unfold localize
      dsimp only
      split
      · exact .pure _
      · exact .bind (.native _ rfl) fun p => .pure _
      · refine .bind (.native _ rfl) fun inner => ?_
        split
        · exact .bind (.native _ rfl) fun p => .pure _
        · exact .pure _
      · exact .pure _

theorem orderly_objectText (v : RemoteValue) :
    Orderly faulty limit thread (objectText limit thread v) := by
  refine .bind (.native _ rfl) fun type => ?_
  refine .bind (orderly_findMethod _ type) fun lookup => ?_
  cases lookup with
  | found m =>
      refine .bind (orderly_callMethod m (some v) [] []) fun result => ?_
      cases result with
      | remote text =>
          dsimp only
          split
          · exact .native _ rfl
          · exact .pure v.typeName
      | primitive p => exact .pure v.typeName
      | null => exact .pure v.typeName
      | void => exact .pure v.typeName
  | wrongArguments => exact .pure v.typeName
  | missing => exact .pure v.typeName

theorem orderly_stringify (v : EvalValue) :
    Orderly faulty limit thread (stringify limit thread v) := by
  cases v with
  | primitive p => exact .pure _
  | null => exact .pure ""
  | void => exact .fail _ nofun
  | remote v =>
      unfold stringify
      dsimp only
      split
      · exact .native _ rfl
      · exact .pure ""
      · exact .bind (.native _ rfl) fun p => .pure _
      · exact orderly_objectText v

theorem orderly_findTypeIn (name : String) (modules : List ModuleId) :
    Orderly faulty limit thread (EvalScope.findTypeIn name modules) := by
  induction modules with
  | nil => exact .pure none
  | cons m rest inductionHypothesis =>
      refine .bind (.native _ rfl) fun found => ?_
      cases found with
      | none => exact inductionHypothesis
      | some t => exact .pure (some t)

section Scope

variable (s : EvalScope)

theorem orderly_findType (name : String) : Orderly faulty limit thread (s.findType name) :=
  orderly_findTypeIn name s.context.modules

theorem orderly_firstType (names : List String) :
    Orderly faulty limit thread (s.firstType names) := by
  induction names with
  | nil => exact .pure none
  | cons name rest inductionHypothesis =>
      refine .bind (orderly_findType s name) fun found => ?_
      cases found with
      | none => exact inductionHypothesis
      | some t => exact .pure (some t)

theorem orderly_lookupType (path : String) : Orderly faulty limit thread (s.lookupType path) :=
  orderly_firstType s (s.candidates path)

theorem orderly_typeArgument (t : TypeExpr) : Orderly faulty limit thread (s.typeArgument t) := by
  refine .bind (orderly_findType s t.metadataName) fun found => ?_
  cases found with
  | some type => exact .pure type
  | none =>
      refine .bind (orderly_lookupType s t.metadataName) fun found => ?_
      cases found with
      | some type => exact .pure type
      | none => exact .fail _ nofun

theorem orderly_typeArguments (ts : List TypeExpr) :
    Orderly faulty limit thread (s.typeArguments ts) := by
  induction ts with
  | nil => exact .pure []
  | cons t rest inductionHypothesis =>
      refine .bind (orderly_typeArgument s t) fun type => ?_
      exact .bind inductionHypothesis fun types => .pure (type :: types)

theorem orderly_leadingType (path : List String) (segments : List Segment) :
    Orderly faulty limit thread (s.leadingType path segments) := by
  induction segments generalizing path with
  | nil => exact .pure none
  | cons segment rest inductionHypothesis =>
      refine .bind (orderly_lookupType s _) fun found => ?_
      cases found with
      | some t => exact .pure (some (t, rest))
      | none => exact inductionHypothesis _

theorem orderly_variableOf (name : String) :
    Orderly faulty s.limit s.thread (s.variableOf name) := by
  unfold EvalScope.variableOf
  extract_lets missing outer
  have orderly_outer : Orderly faulty s.limit s.thread (outer ()) := by
    unfold outer
    cases s.declaringType? with
    | none => exact .pure none
    | some type =>
        refine .bind (orderly_staticMember type name) fun found => ?_
        cases found with
        | none => exact .pure none
        | some found => exact .pure (some found)
  cases s.frame.variable? name with
  | some v => exact .pure (some (v, true))
  | none =>
      cases s.frame.this with
      | none => exact orderly_outer
      | some this =>
          refine .bind (orderly_instanceMember this name) fun found => ?_
          cases found with
          | none => exact orderly_outer
          | some found => exact .pure (some found)

theorem orderly_head (first : Segment) (rest : List Segment) :
    Orderly faulty s.limit s.thread (s.head first rest) := by
  unfold EvalScope.head
  extract_lets typed
  have orderly_typed : Orderly faulty s.limit s.thread (typed ()) := by
    refine .bind (orderly_leadingType s [] (first :: rest)) fun found => ?_
    cases found with
    | none => exact .fail _ nofun
    | some found => exact .pure _
  split
  · refine .bind (orderly_variableOf s first.name) fun found => ?_
    cases found with
    | none => exact orderly_typed
    | some found => exact .pure _
  · exact orderly_typed

theorem orderly_builtinMember (v : RemoteValue) (name : String) :
    Orderly faulty limit thread (EvalScope.builtinMember v name) := by
  unfold EvalScope.builtinMember
  split
  · split
    · exact .bind (.native _ rfl) fun dims => .pure _
    · exact .pure none
  · split
    · exact .bind (.native _ rfl) fun text => .pure _
    · exact .pure none
  · exact .pure none

theorem orderly_memberOfType (type : TypeRef) (segment : Segment) :
    Orderly faulty s.limit s.thread (s.memberOfType type segment) := by
  unfold EvalScope.memberOfType
  extract_lets nested
  have orderly_nested : Orderly faulty s.limit s.thread (nested ()) := by
    refine .bind (orderly_findType s _) fun found => ?_
    cases found with
    | none => exact .fail _ nofun
    | some inner => exact .pure _
  split
  · refine .bind (orderly_staticMember type segment.name) fun found => ?_
    cases found with
    | none => exact orderly_nested
    | some found => exact .pure _
  · exact orderly_nested

theorem orderly_memberOfRemote (v : RemoteValue) (name : String) :
    Orderly faulty s.limit s.thread (s.memberOfRemote v name) := by
  refine .bind (orderly_builtinMember v name) fun builtin => ?_
  cases builtin with
  | some p => exact .pure _
  | none =>
      refine .bind (orderly_instanceMember v name) fun found => ?_
      cases found with
      | none => exact .fail _ nofun
      | some found => exact .pure _

theorem orderly_member (target : Resolved) (segment : Segment) :
    Orderly faulty s.limit s.thread (s.member target segment) := by
  unfold EvalScope.member
  split
  · exact orderly_memberOfType s _ segment
  · exact .fail _ nofun
  · exact .fail _ nofun
  · exact .fail _ nofun
  · split
    · exact .fail _ nofun
    · exact orderly_memberOfRemote s _ segment.name

theorem orderly_members (target : Resolved) (editable : Bool) (segments : List Segment) :
    Orderly faulty s.limit s.thread (s.members target editable segments) := by
  induction segments generalizing target editable with
  | nil => exact .pure (target, editable)
  | cons segment rest inductionHypothesis =>
      refine .bind (orderly_member s target segment) fun found => ?_
      exact inductionHypothesis found.1 found.2

end Scope

end ManagedDebugger.Eval
