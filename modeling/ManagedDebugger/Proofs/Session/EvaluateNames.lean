import ManagedDebugger.Proofs.Session.ElementReads

/-!
# Evaluating the names of children

A child of a value is named after the expression that the value came from and the place that the
child has in it. If the expression is one term and what follows it, evaluating the name evaluates
the expression first; and if that comes to the same value, the lookup reads what the listing read.
-/

namespace ManagedDebugger

/-- What a value is expanded by, if it can be, is the value under the expression that it came
from. -/
theorem returns_describeValue (text : String) (v : RemoteValue) (thread : ThreadId)
    (depth : UInt32) : (describeValue text v thread depth).run.Returns fun r =>
      ∀ shown reference, r = .ok shown → shown.expand = some reference →
        reference = ⟨.value v, thread, depth, text⟩ := by
  refine Program.returns_run_bind (fun _ _ _ same => by cases same) fun shownAs => ?_
  refine Program.returns_run_bind (fun _ _ _ same => by cases same) fun expandable => ?_
  refine Program.returns_done fun shown reference same expands => ?_
  obtain rfl := Except.ok.inj same
  cases expandable with
  | true => exact (Option.some.inj expands).symm
  | false => cases expands

namespace ExpandContext

variable {ctx : ExpandContext} {v w : RemoteValue} {parent : String} {start count : Nat}
  {es : List (Exchange evalEffect)} {children : List Child} {c : Child}

/-- A child that shows a field of an object or an element of an array, as the listing read it. The
name of a field has to be one that can be written, and no property may hide the field without being
listed; an element has to have an index. -/
inductive ShowsPart (config : SessionConfig) (es : List (Exchange evalEffect)) (v : RemoteValue)
    (c : Child) (w : RemoteValue) : Prop where
  | field {f : FieldInfo} : v.kind = .object → c.value = .value w → c.name = f.name →
      answered (.fieldValue v f) w ∈ es → Expr.isName f.name = true →
      Unshadowed config es f.name → ShowsPart config es v c w
  | element : v.kind = .array → c.value = .value w → c.name ≠ "[]" → ShowsPart config es v c w

/-- How a listing and a later access fit together. -/
structure Accesses (es : List (Exchange evalEffect)) (v w : RemoteValue) (access : Expr.Access) :
    Prop where
  valid : access.Valid
  again : ∀ (ctx : EvalContext) (rest : List (Exchange evalEffect))
    (r : Except EvalError Evaluated), Repeats es rest →
      (ctx.accessed v access).run.Plays rest r → r = .ok ⟨.remote w, true⟩

theorem objectChildren_of_children (isObject : v.kind = .object) :
    ctx.children (.value v) parent start count = ctx.objectChildren v parent := by
  obtain ⟨id, kind, typeName⟩ := v
  obtain rfl : kind = .object := isObject
  rfl

theorem arrayChildren_of_children (isArray : v.kind = .array) :
    ctx.children (.value v) parent start count =
      Eval.ofNative (ctx.arrayChildren v parent start count) := by
  obtain ⟨id, kind, typeName⟩ := v
  obtain rfl : kind = .array := isArray
  rfl

theorem memberName_of_nonempty (nonempty : parent.isEmpty = false) (name : String) :
    memberName parent name = some (parent ++ (Expr.Access.member name).text) := by
  rw [memberName, nonempty, Expr.Access.text, ← String.append_assoc]
  rfl

/-- A child is named after its parent by an access that reads what the child shows. -/
theorem exists_access (nonempty : parent.isEmpty = false)
    (listed : (ctx.children (.value v) parent start count).run.Plays es (.ok children))
    (isChild : c ∈ children) (shows : ShowsPart ctx.config es v c w) :
    ∃ access, Accesses es v w access ∧ c.evaluateName = some (parent ++ access.text) := by
  cases shows with
  | @field f isObject value name read isName unshadowed =>
      rw [objectChildren_of_children isObject, objectChildren] at listed
      obtain ⟨type, rest, rfl, members⟩ := Eval.plays_native_bind_ok_iff.mp listed
      have lists := listsMembers members
      have later : answered (.fieldValue v f) w ∈ rest := by
        rcases List.mem_cons.mp read with same | later
        · cases same
        · exact later
      have within : ∀ x ∈ rest, x ∈ answered (.typeOf v) type :: rest :=
        fun x isElement => List.mem_cons_of_mem _ isElement
      obtain ⟨-, -, base, same, holds⟩ := lists.read f w later (unshadowed.mono within)
      obtain rfl := Option.some.inj same
      refine ⟨.member f.name, ⟨isName, fun ctx back r repeats played => ?_⟩, ?_⟩
      · exact EvalScope.field_again isObject repeats List.mem_cons_self (holds.mono within) played
      · rcases lists.named c isChild with known | ⟨statics, other⟩
        · rw [known, name, memberName_of_nonempty nonempty]
        · rw [value] at other
          cases other
  | element isArray value name =>
      rw [arrayChildren_of_children isArray] at listed
      obtain ⟨dims, isRead, elements⟩ := listsElements listed
      obtain ⟨indices, w', shown⟩ := elements c isChild
      obtain rfl : w' = w := ChildValue.value.inj (shown.value.symm.trans value)
      refine ⟨.element indices, ⟨?_, fun ctx back r repeats played => ?_⟩, ?_⟩
      · rintro rfl
        exact name shown.name
      · exact EvalScope.element_again isArray repeats isRead shown.inBounds shown.read played
      · rw [shown.evaluateName, nonempty]
        rfl

end ExpandContext

open ExpandContext

/-- An expression that is one term and what follows it came to a value, and the value was expanded.
The name of a child that shows a field or an element is evaluated by evaluating the expression
first. If that comes to the same value again, the name comes to the very value that the child shows,
which is a place. -/
theorem evaluate_evaluateName {e : Expr} {text : String} (read : Expr.primary? text = some e)
    {v w : RemoteValue} {thread : ThreadId} {depth : UInt32}
    {asked : List (Exchange nativeEffect)} {shown : PendingVariable}
    (described : (describeValue text v thread depth).run.Plays asked (.ok shown))
    {reference : VariablesReference} (expands : shown.expand = some reference)
    {ctx : ExpandContext} {start count : Nat} {es : List (Exchange evalEffect)}
    {children : List Child} (listed : (ctx.children reference.target reference.evaluateName start
      count).run.Plays es (.ok children)) {c : Child} (isChild : c ∈ children)
    (shows : ShowsPart ctx.config es v c w) :
    ∃ name, c.evaluateName = some name ∧ ∀ (frame : EvalContext) (all : List (Exchange evalEffect))
      (r : Except EvalError Evaluated), (evaluate frame name).run.Plays all r →
      ∃ first again rest, (evaluate frame text).run.Plays first again ∧ all = first ++ rest ∧
        ∀ editable, again = .ok ⟨.remote v, editable⟩ → Repeats es rest →
          r = .ok ⟨.remote w, true⟩ := by
  obtain rfl := returns_describeValue text v thread depth asked _ described shown reference rfl
    expands
  have nonempty : text.isEmpty = false := Expr.nonempty_of_primary? read
  obtain ⟨access, accesses, named⟩ := exists_access nonempty listed isChild shows
  refine ⟨_, named, fun frame all r played => ?_⟩
  obtain ⟨first, again, rest, start, rfl, goesOn⟩ :=
    begins_evaluate frame read accesses.valid all r played
  refine ⟨first, again, rest, start, rfl, fun editable same repeats => ?_⟩
  exact accesses.again frame rest r repeats (goesOn _ _ same rfl)

section Holder

/-- An object that holds another one in its only field. -/
def holder : RemoteValue := ⟨⟨1⟩, .object, "A"⟩

def held : RemoteValue := ⟨⟨2⟩, .object, "B"⟩

def holderField : FieldInfo := ⟨1, "F", "B", false⟩

def holderInfo : TypeInfo := ⟨⟨1, 1, "A"⟩, none, false, [holderField], [], []⟩

/-- A frame whose only argument is that object. -/
def holderReply : (op : EvalOp) → op.Reply
  | .native (.frames _) => .ok [⟨.managed, some ⟨1, 1⟩, 0⟩]
  | .native (.arguments ..) => .ok [⟨"a", holder⟩]
  | .native (.locals ..) => .ok []
  | .native (.methodInfo method) => .ok ⟨method, "M", holderInfo.type, true, [], 0, "", false⟩
  | .native (.typeOf _) => .ok holderInfo.type
  | .native (.typeInfo _) => .ok holderInfo
  | .native (.fieldValue ..) => .ok held
  | .native _ => .error .connectionClosed
  | .register .. => (1 : Nat)
  | .cancel _ => ()
  | .wait .. => none

/-- What an evaluation in that frame comes to. -/
def atHolder {α : Type} (p : Eval α) : Option α :=
  (p.run.simulate (fun (_ : Unit) op => (holderReply op, ())) ()).2.2.toOption

def holderContext : ExpandContext := ⟨.empty, {}, 1, 0⟩

def holderListing : List (Exchange evalEffect) :=
  [answered (.typeOf holder) holderInfo.type, answered (.typeInfo holderInfo.type) holderInfo,
    answered (.fieldValue holder holderField) held]

theorem plays_holderListing : (holderContext.children (.value holder) "a" 0 0).run.Plays
    holderListing (.ok [⟨"F", .value held, some "a.F"⟩]) := by
  have named : memberName "a" "F" = some "a.F" := by decide +kernel
  have fields : (fieldChildren holder "a" [] holderInfo.fields).run.Plays
      [answered (.fieldValue holder holderField) held]
      (.ok ([⟨"F", .value held, some "a.F"⟩], ["F"])) := by
    rw [← named, holderInfo, fieldChildren, if_neg (by decide +kernel)]
    exact Eval.plays_native_bind_ok_iff.mpr ⟨held, [], rfl, .done _⟩
  rw [objectChildren_of_children rfl, objectChildren]
  refine Eval.plays_native_bind_ok_iff.mpr ⟨holderInfo.type, _, rfl, ?_⟩
  rw [maxTypeDepth, membersFrom_succ (by decide +kernel)]
  refine Eval.plays_native_bind_ok_iff.mpr ⟨holderInfo, _, rfl, ?_⟩
  exact Eval.plays_bind_ok_iff.mpr ⟨_, _, [], fields, .done _, rfl⟩

def holderShown : PendingVariable :=
  ⟨"a", "\x7bA\x7d", "A", some "a", some ⟨.value holder, ⟨1⟩, 0, "a"⟩⟩

theorem plays_holderShown : (describeValue "a" holder ⟨1⟩ 0).run.Plays [] (.ok holderShown) := by
  have text : Type.shownObject "A" = "\x7bA\x7d" := by decide +kernel
  have type : Type.shown "A" = "A" := by decide +kernel
  rw [holderShown, ← text, ← type]
  exact .done _

/-- The argument `a` holds an object in its field `F`, which `a.F` reads. -/
theorem evaluate_evaluateName_holder :
    (∃ e, Expr.primary? "a" = some e) ∧
    (describeValue "a" holder ⟨1⟩ 0).run.Plays [] (.ok holderShown) ∧
    holderShown.expand = some ⟨.value holder, ⟨1⟩, 0, "a"⟩ ∧
    (holderContext.children (.value holder) "a" 0 0).run.Plays holderListing
      (.ok [⟨"F", .value held, some "a.F"⟩]) ∧
    ShowsPart holderContext.config holderListing holder ⟨"F", .value held, some "a.F"⟩ held ∧
    (∃ name, some "a.F" = some name ∧ ∀ (all : List (Exchange evalEffect))
      (r : Except EvalError Evaluated), (evaluate innermost name).run.Plays all r →
      ∃ first again rest, (evaluate innermost "a").run.Plays first again ∧ all = first ++ rest ∧
        ∀ editable, again = .ok ⟨.remote holder, editable⟩ → Repeats holderListing rest →
          r = .ok ⟨.remote held, true⟩) ∧
    atHolder (evaluate innermost "a") = some ⟨.remote holder, true⟩ ∧
    atHolder (evaluate innermost "a.F") = some ⟨.remote held, true⟩ := by
  obtain ⟨e, read⟩ : ∃ e, Expr.primary? "a" = some e :=
    Option.isSome_iff_exists.mp (by decide +kernel)
  have shows : ShowsPart holderContext.config holderListing holder
      ⟨"F", .value held, some "a.F"⟩ held :=
    .field rfl rfl rfl (f := holderField) (by simp [holderListing]) (by decide) (.inl rfl)
  obtain ⟨name, named, runs⟩ :=
    evaluate_evaluateName read plays_holderShown rfl plays_holderListing List.mem_cons_self shows
  exact ⟨⟨e, read⟩, plays_holderShown, rfl, plays_holderListing, shows,
    ⟨name, named, runs innermost⟩, by decide +kernel, by decide +kernel⟩

/-- The access after an operator belongs to the last operand: the field of what `a ?? a` comes to is
named `a ?? a.F`, which comes to the object and not to what its field holds. -/
theorem coalesce_lost : holder ≠ held ∧
    atHolder (evaluate innermost "a ?? a") = some ⟨.remote holder, false⟩ ∧
    atHolder (holderContext.children (.value holder) "a ?? a" 0 0) =
      some [⟨"F", .value held, some "a ?? a.F"⟩] ∧
    atHolder (evaluate innermost "a ?? a.F") = some ⟨.remote holder, false⟩ :=
  ⟨by decide, by decide +kernel, by decide +kernel, by decide +kernel⟩

end Holder

end ManagedDebugger
