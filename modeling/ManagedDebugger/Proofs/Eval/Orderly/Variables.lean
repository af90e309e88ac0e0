import ManagedDebugger.Proofs.Eval.Orderly.Members
import ManagedDebugger.Session.Variables
import ManagedDebugger.Step.Identity

/-!
# Variables are expanded in an orderly way

Showing a value only inspects the target. Getters of properties are called, with the thread of the
reference and the limit of the settings, when an object is expanded and when the identity of an
asynchronous invocation is read.
-/

namespace ManagedDebugger

namespace Native

theorem inspects_mapM {α β : Type} {f : α → Native β} (inspects : ∀ a, (f a).Inspects)
    (as : List α) : (as.mapM f).Inspects := by
  induction as with
  | nil => exact .pure []
  | cons a rest inductionHypothesis =>
      rw [List.mapM_cons]
      refine .bind (inspects a) fun b => ?_
      exact .bind inductionHypothesis fun bs => .pure (b :: bs)

theorem inspects_remoteDisplay (v : RemoteValue) : v.display.Inspects := by
  unfold RemoteValue.display
  split
  · exact .pure "null"
  · exact .bind (.call _ rfl) fun p => .pure _
  · exact .bind (.call _ rfl) fun text => .pure _
  · exact .bind (.call _ rfl) fun dims => .pure _
  · refine .bind (.call _ rfl) fun inner => ?_
    split
    · exact .bind (.call _ rfl) fun p => .pure _
    · exact .pure _
  · exact .pure _

theorem inspects_display (v : EvalValue) : v.display.Inspects := by
  cases v with
  | primitive p => exact .pure _
  | null => exact .pure _
  | void => exact .pure _
  | remote v => exact inspects_remoteDisplay v

theorem inspects_isExpandable (v : RemoteValue) : v.isExpandable.Inspects := by
  unfold RemoteValue.isExpandable
  split
  · exact .pure true
  · exact .pure true
  · exact .bind (.call _ rfl) fun inner => .pure _
  · exact .pure false

theorem inspects_describe (thread : ThreadId) (depth : UInt32) (c : Child) :
    (c.describe thread depth).Inspects := by
  unfold Child.describe
  split
  · refine .bind (inspects_remoteDisplay _) fun text => ?_
    exact .bind (inspects_isExpandable _) fun expandable => .pure _
  · exact .pure _
  · exact .pure _

theorem inspects_describeValue (name : String) (v : RemoteValue) (thread : ThreadId)
    (depth : UInt32) : (describeValue name v thread depth).Inspects :=
  inspects_describe thread depth ⟨name, .value v, some name⟩

theorem inspects_frameChildren (ctx : ExpandContext) : ctx.frameChildren.Inspects := by
  refine .bind (.call _ rfl) fun frames => ?_
  split
  · exact .pure []
  · refine .bind (.call _ rfl) fun arguments => ?_
    exact .bind (.call _ rfl) fun values => .pure _

theorem inspects_arrayChildren (ctx : ExpandContext) (array : RemoteValue) (parent : String)
    (start count : Nat) : (ctx.arrayChildren array parent start count).Inspects := by
  refine .bind (.call _ rfl) fun dims => ?_
  refine inspects_mapM (fun n => ?_) _
  exact .bind (.call _ rfl) fun v => .pure _

theorem inspects_staticFieldChildren (ctx : ExpandContext) (type : TypeRef) (owner : String)
    (fields : List FieldInfo) : (ctx.staticFieldChildren type owner fields).Inspects := by
  refine inspects_mapM (fun f => ?_) _
  exact .bind (.call _ rfl) fun v => .pure _

theorem inspects_findInBases {α : Type} (pick : TypeInfo → Option α) (n : Nat)
    (type : Option TypeRef) : (Step.findInBases pick n type).Inspects := by
  induction n generalizing type with
  | zero => exact .pure none
  | succ n inductionHypothesis =>
      cases type with
      | none => exact .pure none
      | some type =>
          refine .bind (.call _ rfl) fun info => ?_
          split
          · exact .pure _
          · exact inductionHypothesis info.base

theorem inspects_fetchBuilder (far : Nat) (thread : ThreadId) :
    (Step.fetchBuilder far thread).Inspects := by
  refine .bind (.call _ rfl) fun arguments => ?_
  split
  · exact .pure none
  · refine .bind (.call _ rfl) fun type => ?_
    refine .bind (inspects_findInBases Step.builderOf far (some type)) fun found => ?_
    cases found with
    | none => exact .pure none
    | some field => exact .bind (.call _ rfl) fun builder => .pure _

end Native

namespace Eval

theorem orderly_fetchIdentity (limit : Option Nat) (thread : ThreadId) :
    Orderly false limit thread (Step.fetchIdentity limit thread) := by
  refine .bind (.ofNative (Native.inspects_fetchBuilder _ thread)) fun found => ?_
  cases found with
  | none => exact .pure none
  | some builder =>
      refine .bind (.native _ rfl) fun type => ?_
      refine .bind (.ofNative (Native.inspects_findInBases _ _ _)) fun getter => ?_
      cases getter with
      | none => exact .pure none
      | some getter => exact .bind (.call getter [] [builder]) fun id => .pure _

section Expand

variable (ctx : ExpandContext)

theorem orderly_getterChild (name typeName : String) (getter : MethodRef)
    (receiver : Option RemoteValue) (evaluateName : Option String) :
    Orderly false ctx.config.evalTimeout ctx.thread
      (ctx.getterChild name typeName getter receiver evaluateName) :=
  .bind (.attempt (.call getter [] receiver.toList)) fun _ => .pure _

theorem orderly_fieldChildren {limit : Option Nat} {thread : ThreadId} (object : RemoteValue)
    (parent : String) (seen : List String) (fields : List FieldInfo) :
    Orderly false limit thread (ExpandContext.fieldChildren object parent seen fields) := by
  induction fields generalizing seen with
  | nil => exact .pure ([], seen)
  | cons f rest inductionHypothesis =>
      unfold ExpandContext.fieldChildren
      split
      · exact inductionHypothesis seen
      · refine .bind (.native _ rfl) fun v => ?_
        exact .bind (inductionHypothesis (f.name :: seen)) fun found => .pure _

theorem orderly_propertyChildren (object : RemoteValue) (parent : String) (seen : List String)
    (properties : List PropertyInfo) :
    Orderly false ctx.config.evalTimeout ctx.thread
      (ctx.propertyChildren object parent seen properties) := by
  induction properties generalizing seen with
  | nil => exact .pure ([], seen)
  | cons p rest inductionHypothesis =>
      unfold ExpandContext.propertyChildren
      split
      · exact inductionHypothesis seen
      · split
        · exact inductionHypothesis seen
        · refine .bind (orderly_getterChild ctx _ _ _ _ _) fun child => ?_
          exact .bind (inductionHypothesis (p.name :: seen)) fun found => .pure _

theorem orderly_membersFrom (object : RemoteValue) (parent : String) (first : Bool)
    (seen : List String) (n : Nat) (type : Option TypeRef) :
    Orderly false ctx.config.evalTimeout ctx.thread
      (ctx.membersFrom object parent first seen n type) := by
  induction n generalizing first seen type with
  | zero => exact .pure []
  | succ n inductionHypothesis =>
      cases type with
      | none => exact .pure []
      | some type =>
          unfold ExpandContext.membersFrom
          split
          · exact .pure []
          · refine .bind (.native _ rfl) fun info => ?_
            refine .bind (orderly_fieldChildren object parent seen info.fields) fun fields => ?_
            have inherited (properties : List Child × List String) :
                Orderly false ctx.config.evalTimeout ctx.thread (do
                  let inherited ← ctx.membersFrom object parent false properties.2 n info.base
                  return fields.1 ++ properties.1 ++
                    (if first then ExpandContext.staticsNode info else []) ++ inherited) :=
              .bind (inductionHypothesis false properties.2 info.base) fun rest => .pure _
            dsimp only
            split
            · exact .bind (orderly_propertyChildren ctx object parent fields.2 info.properties)
                fun properties => inherited properties
            · exact inherited ([], fields.2)

theorem orderly_objectChildren (object : RemoteValue) (parent : String) :
    Orderly false ctx.config.evalTimeout ctx.thread (ctx.objectChildren object parent) :=
  .bind (.native _ rfl) fun type =>
    orderly_membersFrom ctx object parent true [] maxTypeDepth (some type)

theorem orderly_staticPropertyChildren (owner : String) (properties : List PropertyInfo) :
    Orderly false ctx.config.evalTimeout ctx.thread
      (ctx.staticPropertyChildren owner properties) := by
  induction properties with
  | nil => exact .pure []
  | cons p rest inductionHypothesis =>
      unfold ExpandContext.staticPropertyChildren
      split
      · refine .bind (orderly_getterChild ctx _ _ _ _ _) fun child => ?_
        exact .bind inductionHypothesis fun children => .pure _
      · exact inductionHypothesis

theorem orderly_staticChildren (type : TypeRef) :
    Orderly false ctx.config.evalTimeout ctx.thread (ctx.staticChildren type) := by
  refine .bind (.native _ rfl) fun info => ?_
  refine .bind (.ofNative (Native.inspects_staticFieldChildren ctx type _ info.fields))
    fun fields => ?_
  dsimp only
  split
  · exact .bind (orderly_staticPropertyChildren ctx _ info.properties) fun properties => .pure _
  · exact .pure _

theorem orderly_valueChildren (v : RemoteValue) (parent : String) (start count : Nat) :
    Orderly false ctx.config.evalTimeout ctx.thread (ctx.valueChildren v parent start count) := by
  unfold ExpandContext.valueChildren
  split
  · exact .ofNative (Native.inspects_arrayChildren ctx v parent start count)
  · refine .bind (.native _ rfl) fun inner => ?_
    split
    · exact .pure []
    · exact orderly_objectChildren ctx inner parent
  · exact orderly_objectChildren ctx v parent
  · exact .pure []

theorem orderly_children (target : Expandable) (parent : String) (start count : Nat) :
    Orderly false ctx.config.evalTimeout ctx.thread (ctx.children target parent start count) := by
  cases target with
  | frame => exact .ofNative (Native.inspects_frameChildren ctx)
  | statics type => exact orderly_staticChildren ctx type
  | value v => exact orderly_valueChildren ctx v parent start count

end Expand

theorem orderly_expand (symbols : SymbolTable) (config : SessionConfig) (r : VariablesReference)
    (start count : Nat) :
    Orderly false config.evalTimeout r.thread (expand symbols config r start count) := by
  refine .bind (orderly_children ⟨symbols, config, r.thread, r.depth⟩ _ _ _ _) fun children => ?_
  exact .ofNative (Native.inspects_mapM (Native.inspects_describe r.thread r.depth) children)

end Eval

end ManagedDebugger
