import ManagedDebugger.Proofs.Eval.Orderly.Variables
import ManagedDebugger.Proofs.Session.Task

/-!
# How far walks along bases go

The target may report any type to be the base of any other, a type of itself as well. A walk asks
about a type and goes on with the base that is reported for it, so it is only a count of its own
that makes it end. All walks of evaluations and of listings have the count of 64. The search for the
identity of an invocation has none: however far it is followed, it is up to the types that the
target reports whether it goes on.
-/

namespace ManagedDebugger

/-- A question about a type. -/
def EvalOp.asksType : EvalOp → Bool
  | native (.typeInfo _) => true
  | _ => false

/-- Nothing is asked about types. -/
def AsksNoType (es : List (Exchange evalEffect)) : Prop := ∀ x ∈ es, x.op.asksType = false

/-- The types that are asked about, in order. -/
def askedTypes (es : List (Exchange evalEffect)) : List TypeRef :=
  es.filterMap fun
    | ⟨.native (.typeInfo type), _⟩ => some type
    | _ => none

@[simp]
theorem askedTypes_append (first second : List (Exchange evalEffect)) :
    askedTypes (first ++ second) = askedTypes first ++ askedTypes second :=
  List.filterMap_append

theorem askedTypes_of_asksNoType {es : List (Exchange evalEffect)} (untyped : AsksNoType es) :
    askedTypes es = [] := by
  refine List.filterMap_eq_nil_iff.mpr fun x among => ?_
  have other := untyped x among
  split
  · cases other
  · rfl

/-- The transcript of a walk that asks about at most `n` types: the one that it begins with, then
the base that was reported for that, and so on. Between two of them something is done with the
type. -/
inductive BaseWalk (visits : List (Exchange evalEffect) → Prop) :
    Nat → Option TypeRef → List (Exchange evalEffect) → Prop where
  | ended (n : Nat) (type : Option TypeRef) : BaseWalk visits n type []
  | refused (n : Nat) (type : TypeRef) (e : NativeError) :
      BaseWalk visits (n + 1) (some type) [⟨.native (.typeInfo type), .error e⟩]
  | onward {n : Nat} {type : TypeRef} {info : TypeInfo} {visit rest : List (Exchange evalEffect)} :
      visits visit → BaseWalk visits n info.base rest →
      BaseWalk visits (n + 1) (some type) (⟨.native (.typeInfo type), .ok info⟩ :: (visit ++ rest))

/-- A walk that begins with the type of a value. -/
inductive ValueWalk (visits : List (Exchange evalEffect) → Prop) (n : Nat) (v : RemoteValue) :
    List (Exchange evalEffect) → Prop where
  | refused (e : NativeError) : ValueWalk visits n v [⟨.native (.typeOf v), .error e⟩]
  | walks {type : TypeRef} {es : List (Exchange evalEffect)} : BaseWalk visits n (some type) es →
      ValueWalk visits n v (⟨.native (.typeOf v), .ok type⟩ :: es)

/-- The walks that find out whether values may be passed for parameters, one after the other. Of the
last of 64 types only the name matters, which needs no question. -/
inductive Checks : List (Exchange evalEffect) → Prop where
  | nil : Checks []
  | cons {v : RemoteValue} {check rest : List (Exchange evalEffect)} :
      ValueWalk (· = []) 63 v check → Checks rest → Checks (check ++ rest)

theorem Checks.append {first second : List (Exchange evalEffect)} (left : Checks first)
    (right : Checks second) : Checks (first ++ second) := by
  induction left with
  | nil => exact right
  | cons check _ inductionHypothesis =>
      rw [List.append_assoc]
      exact .cons check inductionHypothesis

/-- Something is done with a type, and then the walk goes on with its base. -/
def Onward (visits : List (Exchange evalEffect) → Prop) (n : Nat) (base : Option TypeRef)
    (es : List (Exchange evalEffect)) : Prop :=
  ∃ visit rest, es = visit ++ rest ∧ visits visit ∧ BaseWalk visits n base rest

namespace Onward

variable {visits : List (Exchange evalEffect) → Prop} {n : Nat} {base : Option TypeRef}
  {visit rest es : List (Exchange evalEffect)}

theorem visited (visited : visits visit) : Onward visits n base visit :=
  ⟨visit, [], (List.append_nil visit).symm, visited, .ended n base⟩

theorem onlyWalk (nothing : visits []) (walk : BaseWalk visits n base es) :
    Onward visits n base es :=
  ⟨[], es, rfl, nothing, walk⟩

theorem append (visited : visits visit) (walk : BaseWalk visits n base rest) :
    Onward visits n base (visit ++ rest) :=
  ⟨visit, rest, rfl, visited, walk⟩

theorem prepend (untyped : AsksNoType visit) (onward : Onward AsksNoType n base es) :
    Onward AsksNoType n base (visit ++ es) := by
  obtain ⟨more, rest, rfl, untyped', walk⟩ := onward
  rw [← List.append_assoc]
  exact .append (List.forall_mem_append.mpr ⟨untyped, untyped'⟩) walk

end Onward

/-- Where nothing is asked between, all questions about types are the walk's own. -/
theorem BaseWalk.length_askedTypes_le {visits : List (Exchange evalEffect) → Prop} {n : Nat}
    {type : Option TypeRef} {es : List (Exchange evalEffect)} (walk : BaseWalk visits n type es)
    (apart : ∀ visit, visits visit → AsksNoType visit) : (askedTypes es).length ≤ n := by
  induction walk with
  | ended n type => exact Nat.zero_le n
  | refused n type e => exact Nat.succ_le_succ (Nat.zero_le n)
  | @onward n type info visit rest visited _ inductionHypothesis =>
      have nothing : askedTypes (visit ++ rest) = askedTypes rest := by
        rw [askedTypes_append, askedTypes_of_asksNoType (apart visit visited), List.nil_append]
      refine Nat.succ_le_succ ?_
      change (askedTypes (visit ++ rest)).length ≤ n
      rw [nothing]
      exact inductionHypothesis

theorem ValueWalk.length_askedTypes_le {visits : List (Exchange evalEffect) → Prop} {n : Nat}
    {v : RemoteValue} {es : List (Exchange evalEffect)} (walk : ValueWalk visits n v es)
    (apart : ∀ visit, visits visit → AsksNoType visit) : (askedTypes es).length ≤ n := by
  cases walk with
  | refused e => exact Nat.zero_le n
  | walks walk => exact walk.length_askedTypes_le apart

namespace Eval

variable {α β : Type} {possible : Exchange evalEffect → Prop}

/-- However an evaluation goes in which the replies are possible, its transcript is as wanted. -/
def Traces (possible : Exchange evalEffect → Prop) (p : Eval α)
    (P : List (Exchange evalEffect) → Prop) : Prop :=
  Program.Ensures (.ofReplies possible) p.run () fun es _ _ => P es

namespace Traces

variable {P Q R : List (Exchange evalEffect) → Prop}

theorem holds {p : Eval α} {es : List (Exchange evalEffect)} {r : Except EvalError α}
    (traces : Traces possible p P) (played : p.run.Plays es r) (replied : ∀ x ∈ es, possible x) :
    P es :=
  traces es () r played (Environment.allows_ofReplies_iff.mpr replied)

theorem pure {a : α} (holds : P []) : Traces possible (Pure.pure a : Eval α) P :=
  Program.ensures_done_iff.mpr holds

theorem mono {p : Eval α} (traces : Traces possible p P) (implied : ∀ es, P es → Q es) :
    Traces possible p Q :=
  Program.Ensures.mono traces fun es _ _ => implied es

theorem bind {p : Eval α} {f : α → Eval β} (first : Traces possible p P)
    (second : ∀ a, Traces possible (f a) Q) (alone : ∀ es, P es → R es)
    (both : ∀ es more, P es → Q more → R (es ++ more)) : Traces possible (p >>= f) R := by
  refine Program.Ensures.run_bind first (fun es _ a before => ?_) fun es _ _ => alone es
  exact (second a).mono fun more => both es more before

theorem map {p : Eval α} {g : α → β} (traces : Traces possible p P) :
    Traces possible (p >>= fun a => Pure.pure (g a)) P := by
  refine bind (Q := (· = [])) traces (fun _ => .pure rfl) (fun _ => id) ?_
  rintro es _ holds rfl
  rwa [List.append_nil]

theorem native_bind {c : NativeCall} {f : c.Answer → Eval β}
    (refused : ∀ e, possible ⟨.native c, .error e⟩ → P [⟨.native c, .error e⟩])
    (answered : ∀ a, possible ⟨.native c, .ok a⟩ →
      Traces possible (f a) fun es => P (⟨.native c, .ok a⟩ :: es)) :
    Traces possible (Eval.native c >>= f) P := by
  refine Program.ensures_perform_iff.mpr fun reply _ replied => ?_
  cases reply with
  | ok a => exact answered a replied
  | error e => exact Program.ensures_done_iff.mpr (refused e replied)

end Traces

/-- Whatever is replied, nothing is asked about types. -/
abbrev Untyped (p : Program evalEffect α) : Prop := p.Only fun op => op.asksType = false

theorem Untyped.traces {p : Eval α} (untyped : Untyped p.run) :
    Traces possible p AsksNoType :=
  fun es _ r played _ => untyped es r played

theorem untyped_native {c : NativeCall} (other : (EvalOp.native c).asksType = false) :
    Untyped (native c).run :=
  .perform other fun _ => .done _

theorem untyped_call (limit : Option Nat) (thread : ThreadId) (method : MethodRef)
    (typeArguments : List TypeRef) (arguments : List RemoteValue) :
    Untyped (RemoteCall.call limit thread method typeArguments arguments).run := by
  refine .remoteCall (untyped_native rfl) fun op carriesOut => ?_
  cases op with
  | native c => cases c <;> first | rfl | cases carriesOut
  | _ => rfl

/-! ## Members -/

/-- A type is asked about, and the walk goes on if there is an answer. -/
theorem traces_asking {visits : List (Exchange evalEffect) → Prop} {n : Nat} {type : TypeRef}
    {f : TypeInfo → Eval α}
    (onward : ∀ info, Traces possible (f info) (Onward visits n info.base)) :
    Traces possible (native (.typeInfo type) >>= f) (BaseWalk visits (n + 1) (some type)) := by
  refine .native_bind (fun e _ => .refused n type e) fun info _ => (onward info).mono ?_
  rintro _ ⟨visit, rest, rfl, visited, walk⟩
  exact .onward visited walk

theorem traces_searchBases {visits : List (Exchange evalEffect) → Prop}
    {visit : TypeInfo → Eval (Option α)} (visited : ∀ info, Traces possible (visit info) visits)
    (n : Nat) (type : Option TypeRef) :
    Traces possible (searchBases visit n type) (BaseWalk visits n type) := by
  induction n generalizing type with
  | zero => exact .pure (.ended _ _)
  | succ n inductionHypothesis =>
      cases type with
      | none => exact .pure (.ended _ _)
      | some type =>
          refine traces_asking fun info => ?_
          refine .bind (visited info) (fun found => ?_) (fun _ => .visited) (fun _ _ => .append)
          cases found with
          | none => exact inductionHypothesis info.base
          | some a => exact .pure (.ended _ _)

/-- A walk from the type of a value. -/
theorem traces_fromValue {visits : List (Exchange evalEffect) → Prop} {n : Nat} (v : RemoteValue)
    {f : TypeRef → Eval α}
    (walks : ∀ type, Traces possible (f type) (BaseWalk visits n (some type))) :
    Traces possible (native (.typeOf v) >>= f) (ValueWalk visits n v) :=
  .native_bind (fun e _ => .refused e) fun type _ => (walks type).mono fun _ => .walks

theorem untyped_callGetter (limit : Option Nat) (thread : ThreadId) (getter : MethodRef)
    (receiver : Option RemoteValue) : Untyped (callGetter limit thread getter receiver).run := by
  refine .run_bind (untyped_call limit thread getter [] receiver.toList) fun result => ?_
  cases result with
  | none => exact untyped_native rfl
  | some value => exact .done _

theorem traces_instanceMember (limit : Option Nat) (thread : ThreadId) (object : RemoteValue)
    (name : String) :
    Traces possible (instanceMember limit thread object name) (ValueWalk AsksNoType 64 object) := by
  refine traces_fromValue object fun type => ?_
  refine traces_searchBases (fun info => Untyped.traces ?_) maxTypeDepth (some type)
  split
  · exact .run_bind (untyped_native rfl) fun value => .done _
  · exact .run_bind (untyped_callGetter limit thread _ _) fun value => .done _
  · exact .done _

theorem traces_staticMember (limit : Option Nat) (thread : ThreadId) (type : TypeRef)
    (name : String) :
    Traces possible (staticMember limit thread type name) (BaseWalk AsksNoType 64 (some type)) := by
  refine traces_searchBases (fun info => Untyped.traces ?_) maxTypeDepth (some type)
  split
  · exact .run_bind (untyped_native rfl) fun value => .done _
  · exact .run_bind (untyped_callGetter limit thread _ _) fun value => .done _
  · exact .done _

/-! ## Methods -/

/-- The last type is not asked about, but only looked at by its name. -/
theorem traces_derivesFromIn (name : String) (n : Nat) (type : Option TypeRef) :
    Traces possible (derivesFromIn name (n + 1) type) (BaseWalk (· = []) n type) := by
  induction n generalizing type with
  | zero =>
      cases type with
      | none => exact .pure (.ended _ _)
      | some type =>
          unfold derivesFromIn
          split
          · exact .pure (.ended _ _)
          · exact .pure (.ended _ _)
  | succ n inductionHypothesis =>
      cases type with
      | none => exact .pure (.ended _ _)
      | some type =>
          unfold derivesFromIn
          split
          · exact .pure (.ended _ _)
          · refine traces_asking fun info => ?_
            exact (inductionHypothesis info.base).mono fun _ => .onlyWalk rfl

theorem traces_derivesFrom (value : RemoteValue) (name : String) :
    Traces possible (derivesFrom value name) (ValueWalk (· = []) 63 value) :=
  traces_fromValue value fun type => traces_derivesFromIn name 63 (some type)

theorem traces_isCompatible (parameter : String) (v : EvalValue) :
    Traces possible (isCompatible parameter v) Checks := by
  cases v with
  | primitive p => exact .pure .nil
  | null => exact .pure .nil
  | void => exact .pure .nil
  | remote v =>
      unfold isCompatible
      dsimp only
      split
      · exact .pure .nil
      · exact .pure .nil
      · split
        · exact .pure .nil
        · refine (traces_derivesFrom v parameter).mono fun es walk => ?_
          have checks := Checks.cons walk .nil
          rwa [List.append_nil] at checks

theorem traces_allCompatible (arguments : List EvalValue) (parameters : List Parameter) :
    Traces possible (allCompatible arguments parameters) Checks := by
  induction arguments generalizing parameters with
  | nil => exact .pure .nil
  | cons a arguments inductionHypothesis =>
      cases parameters with
      | nil => exact .pure .nil
      | cons p parameters =>
          refine .bind (traces_isCompatible p.typeName a) (fun fits => ?_) (fun _ => id)
            (fun _ _ => .append)
          cases fits with
          | true => exact inductionHypothesis parameters
          | false => exact .pure .nil

theorem traces_firstMatch (q : MethodQuery) (methods : List MethodInfo) :
    Traces possible (firstMatch q methods) Checks := by
  induction methods with
  | nil => exact .pure .nil
  | cons m rest inductionHypothesis =>
      unfold firstMatch
      split
      · refine .bind (traces_allCompatible q.arguments m.parameters) (fun fits => ?_) (fun _ => id)
          (fun _ _ => .append)
        cases fits with
        | true => exact .pure .nil
        | false => exact inductionHypothesis
      · exact inductionHypothesis

theorem traces_findMethodIn (q : MethodQuery) (seen : Bool) (n : Nat) (type : Option TypeRef) :
    Traces possible (findMethodIn q seen n type) (BaseWalk Checks n type) := by
  induction n generalizing seen type with
  | zero => exact .pure (.ended _ _)
  | succ n inductionHypothesis =>
      cases type with
      | none => exact .pure (.ended _ _)
      | some type =>
          refine traces_asking fun info => ?_
          refine .bind (traces_firstMatch q info.methods) (fun found => ?_) (fun _ => .visited)
            (fun _ _ => .append)
          cases found with
          | none => exact inductionHypothesis _ info.base
          | some m => exact .pure (.ended _ _)

theorem traces_findMethod (q : MethodQuery) (type : TypeRef) :
    Traces possible (findMethod q type) (BaseWalk Checks 64 (some type)) :=
  traces_findMethodIn q false maxTypeDepth (some type)

/-! ## Listings -/

section Expand

variable (ctx : ExpandContext) (object : RemoteValue) (parent : String)

theorem untyped_getterChild (name typeName : String) (getter : MethodRef)
    (receiver : Option RemoteValue) (evaluateName : Option String) :
    Untyped (ctx.getterChild name typeName getter receiver evaluateName).run := by
  refine .run_bind (.bind ?_ fun _ => .done _) fun _ => .done _
  exact untyped_call ctx.config.evalTimeout ctx.thread getter [] receiver.toList

theorem untyped_fieldChildren (seen : List String) (fields : List FieldInfo) :
    Untyped (ExpandContext.fieldChildren object parent seen fields).run := by
  induction fields generalizing seen with
  | nil => exact .done _
  | cons f rest inductionHypothesis =>
      unfold ExpandContext.fieldChildren
      split
      · exact inductionHypothesis seen
      · refine .run_bind (untyped_native rfl) fun v => ?_
        exact .run_bind (inductionHypothesis (f.name :: seen)) fun found => .done _

theorem untyped_propertyChildren (seen : List String) (properties : List PropertyInfo) :
    Untyped (ctx.propertyChildren object parent seen properties).run := by
  induction properties generalizing seen with
  | nil => exact .done _
  | cons p rest inductionHypothesis =>
      unfold ExpandContext.propertyChildren
      split
      · exact inductionHypothesis seen
      · split
        · exact inductionHypothesis seen
        · refine .run_bind (untyped_getterChild ctx _ _ _ _ _) fun child => ?_
          exact .run_bind (inductionHypothesis (p.name :: seen)) fun found => .done _

theorem traces_membersFrom (first : Bool) (seen : List String) (n : Nat)
    (type : Option TypeRef) :
    Traces possible (ctx.membersFrom object parent first seen n type)
      (BaseWalk AsksNoType n type) := by
  induction n generalizing first seen type with
  | zero => exact .pure (.ended _ _)
  | succ n inductionHypothesis =>
      cases type with
      | none => exact .pure (.ended _ _)
      | some type =>
          unfold ExpandContext.membersFrom
          split
          · exact .pure (.ended _ _)
          · refine traces_asking fun info => ?_
            refine .bind (untyped_fieldChildren object parent seen info.fields).traces
              (fun fields => ?_) (fun _ => .visited) (fun _ _ => .prepend)
            have inherited (properties : List Child × List String) :
                Traces possible (do
                  let inherited ← ctx.membersFrom object parent false properties.2 n info.base
                  return fields.1 ++ properties.1 ++
                    (if first then ExpandContext.staticsNode info else []) ++ inherited)
                  (Onward AsksNoType n info.base) :=
              ((inductionHypothesis false properties.2 info.base).map).mono
                fun _ => .onlyWalk (List.forall_mem_nil _)
            dsimp only
            split
            · have listed := untyped_propertyChildren ctx object parent fields.2 info.properties
              exact .bind listed.traces inherited (fun _ => .visited) (fun _ _ => .prepend)
            · exact inherited ([], fields.2)

theorem traces_objectChildren :
    Traces possible (ctx.objectChildren object parent) (ValueWalk AsksNoType 64 object) :=
  traces_fromValue object fun type =>
    traces_membersFrom ctx object parent true [] maxTypeDepth (some type)

end Expand

end Eval

/-! ## The identity of an invocation -/

/-- What the target reports of each type. -/
abbrev TypeGraph := TypeRef → TypeInfo

namespace TypeGraph

variable {α : Type} (G : TypeGraph) (pick : TypeInfo → Option α)

/-- A type is as it is reported. -/
def Reports : Exchange evalEffect → Prop
  | ⟨.native (.typeInfo type), reply⟩ => reply = .ok (G type)
  | _ => True

/-- The first `n` types from one on, each the base of the one before. -/
def chain : Nat → Option TypeRef → List TypeRef
  | n + 1, some type => type :: chain n (G type).base
  | _, _ => []

/-- The first `n` types from one on lack what is sought, and there is one more. -/
def Lacks : Nat → Option TypeRef → Prop
  | n + 1, some type => pick (G type) = none ∧ Lacks n (G type).base
  | 0, some _ => True
  | _, none => False

/-- Where bases go round among types that lack what is sought, there is always one more. -/
theorem lacks_of_closed {among : TypeRef → Prop} {type : TypeRef}
    (closed : ∀ t, among t → pick (G t) = none ∧ ∃ base, (G t).base = some base ∧ among base)
    (begins : among type) (n : Nat) : G.Lacks pick n (some type) := by
  induction n generalizing type with
  | zero => trivial
  | succ n inductionHypothesis =>
      obtain ⟨lacks, base, up, stays⟩ := closed type begins
      refine ⟨lacks, ?_⟩
      rw [up]
      exact inductionHypothesis stays

/-- A search along bases, followed for `far` types: it has come past so many types if they all lack
what is sought and there is one more. -/
inductive Search (far : Nat) : List TypeRef → Prop where
  | notBegun : Search far []
  | along {type : TypeRef} {types : List TypeRef} : types = G.chain types.length (some type) →
      (∀ n < far, n < types.length ↔ G.Lacks pick n (some type)) → Search far types

end TypeGraph

namespace Eval

variable {α β : Type} {G : TypeGraph} {pick : TypeInfo → Option α}

theorem ofNative_findInBases (n : Nat) (type : Option TypeRef) :
    ofNative (Step.findInBases pick n type) =
      searchBases (fun info => pure (pick info)) n type := by
  induction n generalizing type with
  | zero => rfl
  | succ n inductionHypothesis =>
      cases type with
      | none => rfl
      | some type =>
          rw [Step.findInBases, searchBases, ofNative_bind]
          refine congrArg (native (.typeInfo type) >>= ·) (funext fun info => ?_)
          rw [pure_bind]
          cases pick info with
          | none => exact inductionHypothesis info.base
          | some a => rfl

/-- The search asks about the types of the chain, as far as they lack what is sought. -/
theorem traces_findInBases (limit : Nat) (type : Option TypeRef) :
    Traces G.Reports (searchBases (fun info => pure (pick info)) limit type) fun es =>
      askedTypes es = G.chain (askedTypes es).length type ∧
        ∀ n < limit, n < (askedTypes es).length ↔ G.Lacks pick n type := by
  induction limit generalizing type with
  | zero => exact .pure ⟨rfl, nofun⟩
  | succ limit inductionHypothesis =>
      cases type with
      | none => exact .pure ⟨rfl, fun n _ => ⟨nofun, fun lacks => by cases n <;> cases lacks⟩⟩
      | some type =>
          refine .native_bind (fun e refused => nomatch refused) fun info reported => ?_
          obtain rfl : info = G type := Except.ok.inj reported
          rw [pure_bind]
          cases found : pick (G type) with
          | some a =>
              refine .pure ⟨rfl, fun n _ => ?_⟩
              cases n with
              | zero => exact ⟨fun _ => trivial, fun _ => Nat.zero_lt_one⟩
              | succ n => simp [askedTypes, TypeGraph.Lacks, found]
          | none =>
              refine (inductionHypothesis (G type).base).mono ?_
              rintro es ⟨chain, counts⟩
              refine ⟨congrArg (type :: ·) chain, fun n below => ?_⟩
              cases n with
              | zero => exact ⟨fun _ => trivial, fun _ => Nat.zero_lt_succ _⟩
              | succ n =>
                  have above := counts n (Nat.lt_of_succ_lt_succ below)
                  refine Nat.succ_lt_succ_iff.trans (above.trans ?_)
                  exact ⟨fun lacks => ⟨found, lacks⟩, And.right⟩

/-- A search that begins with the type of a value. -/
theorem traces_search (far : Nat) (v : RemoteValue) {g : Option α → Eval β}
    (untyped : ∀ found, Untyped (g found).run) :
    Traces G.Reports (native (.typeOf v) >>= fun type =>
      ofNative (Step.findInBases pick far (some type)) >>= g) fun es =>
        G.Search pick far (askedTypes es) := by
  refine .native_bind (fun e _ => .notBegun) fun type _ => ?_
  rw [ofNative_findInBases]
  refine .bind (traces_findInBases far (some type)) (fun found => (untyped found).traces)
    (fun es along => .along along.1 along.2) fun es more along others => ?_
  have same : askedTypes (⟨.native (.typeOf v), .ok type⟩ :: (es ++ more)) = askedTypes es := by
    rw [← List.singleton_append, askedTypes_append, askedTypes_append,
      askedTypes_of_asksNoType others, List.append_nil]
    rfl
  rw [same]
  exact .along along.1 along.2

theorem traces_fetchBuilder (far : Nat) (thread : ThreadId) :
    Traces G.Reports (ofNative (Step.fetchBuilder far thread)) fun es =>
      G.Search Step.builderOf far (askedTypes es) := by
  rw [Step.fetchBuilder, ofNative_bind]
  refine .native_bind (fun e _ => .notBegun) fun arguments _ => ?_
  split
  · exact .pure .notBegun
  next this found =>
    simp only [ofNative_bind]
    refine traces_search far this.value fun field => ?_
    cases field with
    | none => exact .done _
    | some field =>
        rw [ofNative_bind]
        exact .run_bind (untyped_native rfl) fun builder => .done _

/-- There are two searches: the one for the builder, and then one that begins with the type of
that. -/
theorem searches_searchIdentity {far : Nat} {limit : Option Nat} {thread : ThreadId}
    {es : List (Exchange evalEffect)} {r : Except EvalError (Option RemoteValue)}
    (played : (Step.searchIdentity far limit thread).run.Plays es r)
    (reported : ∀ x ∈ es, G.Reports x) :
    ∃ reading calling found, es = reading ++ calling ∧
      (ofNative (Step.fetchBuilder far thread)).run.Plays reading found ∧
      G.Search Step.builderOf far (askedTypes reading) ∧
      G.Search Step.identityGetter far (askedTypes calling) := by
  obtain ⟨reading, found, calling, left, right, rfl⟩ := Program.plays_bind_iff.mp played
  obtain ⟨reported, reported'⟩ := List.forall_mem_append.mp reported
  have first := (traces_fetchBuilder far thread).holds left reported
  refine ⟨reading, calling, found, rfl, left, first, ?_⟩
  rcases found with e | _ | builder
  · obtain ⟨rfl, -⟩ := Program.plays_done_iff.mp right
    exact .notBegun
  · obtain ⟨rfl, -⟩ := Program.plays_done_iff.mp right
    exact .notBegun
  · refine (traces_search far builder fun getter => ?_).holds right reported'
    cases getter with
    | none => exact .done _
    | some getter =>
        exact .run_bind (untyped_call limit thread getter [] [builder]) fun id => .done _

end Eval

/-- However the target replies, each walk along bases that looks up a member or a method, compares a
type by name or lists an object ends after 64 types at most. The search for the identity of an
invocation consists of two walks, and only the types that the target reports end these: as far as
they are followed, each goes past any number of types that lack what it looks for and have one more
above them. -/
theorem base_walks {es : List (Exchange evalEffect)} :
    (∀ limit thread object name r, (instanceMember limit thread object name).run.Plays es r →
      ValueWalk AsksNoType 64 object es ∧ (askedTypes es).length ≤ 64) ∧
    (∀ limit thread type name r, (staticMember limit thread type name).run.Plays es r →
      BaseWalk AsksNoType 64 (some type) es ∧ (askedTypes es).length ≤ 64) ∧
    (∀ value name r, (derivesFrom value name).run.Plays es r →
      ValueWalk (· = []) 63 value es ∧ (askedTypes es).length ≤ 63) ∧
    (∀ q type r, (findMethod q type).run.Plays es r → BaseWalk Checks 64 (some type) es) ∧
    (∀ (ctx : ExpandContext) object parent r, (ctx.objectChildren object parent).run.Plays es r →
      ValueWalk AsksNoType 64 object es ∧ (askedTypes es).length ≤ 64) ∧
    (∀ (G : TypeGraph) far limit thread r,
      (Step.searchIdentity far limit thread).run.Plays es r → (∀ x ∈ es, G.Reports x) →
      ∃ reading calling found, es = reading ++ calling ∧
        (Eval.ofNative (Step.fetchBuilder far thread)).run.Plays reading found ∧
        G.Search Step.builderOf far (askedTypes reading) ∧
        G.Search Step.identityGetter far (askedTypes calling)) := by
  have anything : ∀ x ∈ es, True := fun _ _ => trivial
  have silent : ∀ visit : List (Exchange evalEffect), visit = [] → AsksNoType visit := by
    rintro _ rfl
    exact List.forall_mem_nil _
  refine ⟨?_, ?_, ?_, ?_, ?_, ?_⟩
  · intro limit thread object name r played
    have walk := (Eval.traces_instanceMember limit thread object name).holds played anything
    exact ⟨walk, walk.length_askedTypes_le fun _ => id⟩
  · intro limit thread type name r played
    have walk := (Eval.traces_staticMember limit thread type name).holds played anything
    exact ⟨walk, walk.length_askedTypes_le fun _ => id⟩
  · intro value name r played
    have walk := (Eval.traces_derivesFrom value name).holds played anything
    exact ⟨walk, walk.length_askedTypes_le silent⟩
  · exact fun q type r played => (Eval.traces_findMethod q type).holds played anything
  · intro ctx object parent r played
    have walk := (Eval.traces_objectChildren ctx object parent).holds played anything
    exact ⟨walk, walk.length_askedTypes_le fun _ => id⟩
  · exact fun G far limit thread r => Eval.searches_searchIdentity

section Graphs

def rung (n : UInt32) : TypeRef := ⟨1, n, "Machine"⟩

/-- Every type is its own base, and has nothing else. -/
def ownBase : TypeGraph := fun type => ⟨type, some type, false, [], [], []⟩

/-- The base of each type up to 64 is the next one. That one has the builder, which is of type 100,
and this has the identity. -/
def ladder : TypeGraph := fun type =>
  ⟨type, if type.token < 64 then some (rung (type.token + 1)) else none, false,
    if type.token = 64 then [⟨3, Step.builderField, "Machine", false⟩] else [],
    if type.token = 100 then [⟨Step.identityProperty, "System.Object", some ⟨1, 5⟩, false⟩] else [],
    []⟩

/-- An object of the type with its number. -/
def ofRung (n : UInt64) : RemoteValue := ⟨⟨n⟩, .object, "Machine"⟩

/-- A target with types as in a graph, whose receivers are of type 0 and builders of type 100. -/
def replyIn (G : TypeGraph) : (op : EvalOp) → op.Reply
  | .native c => match c with
    | .arguments .. => .ok [⟨"this", ofRung 0⟩]
    | .typeOf v => .ok (rung v.id.number.toUInt32)
    | .typeInfo type => .ok (G type)
    | .fieldValue .. => .ok (ofRung 100)
    | .beginCall .. => .ok ⟨7⟩
    | .continueProcess => .ok ()
    | _ => .error .connectionClosed
  | .register .. => (0 : Nat)
  | .cancel _ => ()
  | .wait .. => some (.outcome (.completed (some (ofRung 200))))

/-- How an evaluation goes there. -/
def playIn {α : Type} (G : TypeGraph) (p : Eval α) :
    List (Exchange evalEffect) × Except EvalError α :=
  let (es, _, r) := p.run.simulate (fun s op => (replyIn G op, s)) ()
  (es, r)

theorem plays_playIn {α : Type} (G : TypeGraph) (p : Eval α) :
    p.run.Plays (playIn G p).1 (playIn G p).2 :=
  Program.plays_simulate _ p.run ()

theorem reports_playIn {α : Type} (G : TypeGraph) (p : Eval α) :
    ∀ x ∈ (playIn G p).1, G.Reports x := by
  have allowed : (Environment.ofReplies G.Reports).Allows () (playIn G p).1 () := by
    refine Program.allows_simulate (fun _ op => ?_) p.run ()
    cases op with
    | native c => cases c <;> trivial
    | _ => trivial
  exact Environment.allows_ofReplies_iff.mp allowed

/-- A lookup in types that go round ends after 64 of them. -/
theorem base_walks_ownBase :
    (instanceMember none 1 (ofRung 0) "Next").run.Plays
        (playIn ownBase (instanceMember none 1 (ofRung 0) "Next")).1 (.ok none) ∧
      askedTypes (playIn ownBase (instanceMember none 1 (ofRung 0) "Next")).1 =
        List.replicate 64 (rung 0) ∧
      ValueWalk AsksNoType 64 (ofRung 0)
        (playIn ownBase (instanceMember none 1 (ofRung 0) "Next")).1 := by
  have played := plays_playIn ownBase (instanceMember none 1 (ofRung 0) "Next")
  refine ⟨played, by decide +kernel, ?_⟩
  exact (base_walks.1 none 1 (ofRung 0) "Next" _ played).1

/-- The search for the builder looks at 65 types, one the base of the other. In types that go round
there is no number of types that it does not go past. -/
theorem identity_past_limit :
    (Step.fetchIdentity none 1).run.Plays (playIn ladder (Step.fetchIdentity none 1)).1
        (playIn ladder (Step.fetchIdentity none 1)).2 ∧
      (∀ x ∈ (playIn ladder (Step.fetchIdentity none 1)).1, ladder.Reports x) ∧
      askedTypes (playIn ladder (Step.fetchIdentity none 1)).1 =
        ladder.chain 65 (some (rung 0)) ++ [rung 100] ∧
      (ladder.chain 65 (some (rung 0))).length = 65 ∧
      ∀ n, ownBase.Lacks Step.builderOf n (some (rung 0)) := by
  have round (type : TypeRef) (_ : True) : Step.builderOf (ownBase type) = none ∧
      ∃ base, (ownBase type).base = some base ∧ True := ⟨rfl, type, rfl, trivial⟩
  refine ⟨plays_playIn _ _, reports_playIn _ _, ?_, ?_, ?_⟩
  · decide +kernel
  · decide +kernel
  · exact ownBase.lacks_of_closed Step.builderOf round trivial

end Graphs

end ManagedDebugger
