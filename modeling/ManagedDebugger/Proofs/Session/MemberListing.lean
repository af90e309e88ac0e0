import ManagedDebugger.Proofs.Eval.LeftBehind
import ManagedDebugger.Proofs.Eval.Overloads
import ManagedDebugger.Proofs.Session.MemberReads

/-!
# Members listed and looked up

The listing of an object goes through its types with a set of the names it has shown. The lookup of
a name goes through the same types and stops at the first that has it. For one name the set is a
single bit, whether the name is taken, and it is taken exactly when the lookup would have stopped.
-/

namespace ManagedDebugger

/-! ## What is read for a member -/

/-- The field of an object that is read, or the getter that is called on it. -/
def EvalOp.picks? : EvalOp → Option (RemoteValue × Member)
  | .native (.fieldValue object f) => some (object, .field f)
  | .native (.beginCall _ getter [] [object]) => some (object, .getter getter)
  | _ => none

/-- The members that are read, in order. -/
def picked (es : List (Exchange evalEffect)) : List (RemoteValue × Member) :=
  es.filterMap fun x => x.op.picks?

theorem picked_append (es es' : List (Exchange evalEffect)) :
    picked (es ++ es') = picked es ++ picked es' := List.filterMap_append

variable {α : Type} {object : RemoteValue} {es : List (Exchange evalEffect)}

/-- A call picks what it calls, whatever comes of it. -/
theorem picked_call {limit : Option Nat} {thread : ThreadId} {getter : MethodRef}
    {r : Except EvalError (Option RemoteValue)}
    (played : (RemoteCall.call limit thread getter [] [object]).run.Plays es r) :
    picked es = [(object, .getter getter)] := by
  obtain ⟨first, begun, rest, asked, rfl, rfl | ⟨eval, course⟩⟩ := RemoteCall.plays_run played
  · obtain ⟨reply, rfl, -⟩ := RemoteCall.plays_call asked
    rfl
  · obtain ⟨reply, rfl, -⟩ := RemoteCall.plays_call asked
    cases course <;> rfl

theorem picked_callGetter {limit : Option Nat} {thread : ThreadId} {getter : MethodRef}
    {r : Except EvalError RemoteValue}
    (played : (callGetter limit thread getter (some object)).run.Plays es r) :
    picked es = [(object, .getter getter)] := by
  obtain ⟨first, result, rest, called, right, rfl⟩ := Program.plays_bind_iff.mp played
  have silent : picked rest = [] := by
    match result with
    | .error e =>
        obtain ⟨rfl, -⟩ := Program.plays_done_iff.mp right
        rfl
    | .ok (some value) =>
        obtain ⟨rfl, -⟩ := Eval.plays_pure_iff.mp right
        rfl
    | .ok none =>
        obtain ⟨reply, rfl, -⟩ := RemoteCall.plays_call right
        rfl
  rw [picked_append, picked_call called, silent, List.append_nil]

namespace Metadata

/-- Whatever is asked, questions about metadata are answered, and fields are read. -/
def Reads (M : Metadata) : Exchange evalEffect → Prop
  | ⟨.native (.fieldValue ..), reply⟩ => ∃ v, reply = .ok v
  | x => M.Reports x

variable {M : Metadata} {r : Except EvalError α}

/-- An evaluation goes on from a read that succeeds. -/
theorem plays_read {c : NativeCall} {f : c.Answer → Eval α} {P : c.Answer → Prop}
    (succeeds : ∀ reply, M.Reads ⟨.native c, reply⟩ → ∃ a, P a ∧ reply = .ok a)
    (played : (Eval.native c >>= f).run.Plays es r) (reads : ∀ x ∈ es, M.Reads x) :
    ∃ a rest, P a ∧ es = answered c a :: rest ∧ (f a).run.Plays rest r ∧
      ∀ x ∈ rest, M.Reads x := by
  obtain ⟨reply, rest, rfl, following⟩ := Program.plays_perform_iff.mp played
  obtain ⟨here, later⟩ := List.forall_mem_cons.mp reads
  obtain ⟨a, holds, rfl⟩ := succeeds reply here
  exact ⟨a, rest, holds, rfl, following, later⟩

theorem plays_typeOf {f : TypeRef → Eval α}
    (played : (Eval.native (.typeOf object) >>= f).run.Plays es r) (reads : ∀ x ∈ es, M.Reads x) :
    ∃ rest, es = answered (.typeOf object) (M.typeOf object) :: rest ∧
      (f (M.typeOf object)).run.Plays rest r ∧ ∀ x ∈ rest, M.Reads x := by
  have succeeds : ∀ reply, M.Reads ⟨.native (.typeOf object), reply⟩ →
      ∃ type, type = M.typeOf object ∧ reply = .ok type := fun reply known => ⟨_, rfl, known⟩
  obtain ⟨_, rest, rfl, holds⟩ := plays_read succeeds played reads
  exact ⟨rest, holds⟩

theorem plays_typeInfo {type : TypeRef} {f : TypeInfo → Eval α}
    (played : (Eval.native (.typeInfo type) >>= f).run.Plays es r) (reads : ∀ x ∈ es, M.Reads x) :
    ∃ rest, es = answered (.typeInfo type) (M.types type) :: rest ∧
      (f (M.types type)).run.Plays rest r ∧ ∀ x ∈ rest, M.Reads x := by
  have succeeds : ∀ reply, M.Reads ⟨.native (.typeInfo type), reply⟩ →
      ∃ info, info = M.types type ∧ reply = .ok info := fun reply known => ⟨_, rfl, known⟩
  obtain ⟨_, rest, rfl, holds⟩ := plays_read succeeds played reads
  exact ⟨rest, holds⟩

theorem plays_fieldValue {field : FieldInfo} {f : RemoteValue → Eval α}
    (played : (Eval.native (.fieldValue object field) >>= f).run.Plays es r)
    (reads : ∀ x ∈ es, M.Reads x) :
    ∃ v rest, es = answered (.fieldValue object field) v :: rest ∧ (f v).run.Plays rest r ∧
      ∀ x ∈ rest, M.Reads x := by
  have succeeds : ∀ reply, M.Reads ⟨.native (.fieldValue object field), reply⟩ →
      ∃ v, True ∧ reply = .ok v := fun reply ⟨v, known⟩ => ⟨v, trivial, known⟩
  obtain ⟨v, rest, -, holds⟩ := plays_read succeeds played reads
  exact ⟨v, rest, holds⟩

end Metadata

/-! ## Looking a name up -/

/-- The member that a lookup of a name finds among types. -/
def Metadata.memberAmong? (M : Metadata) (name : String) (types : List TypeRef) : Option Member :=
  types.findSome? fun type => (M.types type).member? false name

theorem Metadata.memberAmong?_cons (M : Metadata) (name : String) (type : TypeRef)
    (types : List TypeRef) : M.memberAmong? name (type :: types) =
      ((M.types type).member? false name).or (M.memberAmong? name types) := by
  unfold Metadata.memberAmong?
  rw [List.findSome?_cons]
  cases (M.types type).member? false name <;> rfl

/-- A lookup picks a member and comes to a result. -/
inductive Finds (object : RemoteValue) (es : List (Exchange evalEffect))
    (r : Except EvalError (Option (RemoteValue × Bool))) : Option Member → Prop
  | nothing : picked es = [] → r = .ok none → Finds object es r none
  | member {m : Member} : picked es = [(object, m)] → r ≠ .ok none → Finds object es r (some m)

variable {M : Metadata} {limit : Option Nat} {thread : ThreadId} {name : String}
  {r : Except EvalError (Option (RemoteValue × Bool))}

theorem Finds.of_picked {es' : List (Exchange evalEffect)} {found : Option Member}
    (finds : Finds object es r found) (same : picked es' = picked es) :
    Finds object es' r found := by
  cases finds with
  | nothing silent result => exact .nothing (same.trans silent) result
  | member picks other => exact .member (same.trans picks) other

theorem finds_visitMember {info : TypeInfo}
    (played : (visitMember limit thread object name info).run.Plays es r)
    (reads : ∀ x ∈ es, M.Reads x) : Finds object es r (info.member? false name) := by
  unfold visitMember at played
  match found : info.member? false name with
  | none =>
      rw [found] at played
      obtain ⟨rfl, rfl⟩ := Eval.plays_pure_iff.mp played
      exact .nothing rfl rfl
  | some (.field f) =>
      rw [found] at played
      obtain ⟨v, rest, rfl, read, -⟩ := Metadata.plays_fieldValue played reads
      obtain ⟨rfl, rfl⟩ := Eval.plays_pure_iff.mp read
      exact .member rfl nofun
  | some (.getter m) =>
      rw [found] at played
      obtain ⟨first, result, rest, called, right, rfl⟩ := Program.plays_bind_iff.mp played
      have picks := picked_callGetter called
      cases result with
      | error e =>
          obtain ⟨rfl, rfl⟩ := Program.plays_done_iff.mp right
          rw [List.append_nil]
          exact .member picks nofun
      | ok v =>
          obtain ⟨rfl, rfl⟩ := Eval.plays_pure_iff.mp right
          rw [List.append_nil]
          exact .member picks nofun

theorem finds_searchBases {n : Nat} {type : Option TypeRef}
    (played : (searchBases (visitMember limit thread object name) n type).run.Plays es r)
    (reads : ∀ x ∈ es, M.Reads x) :
    Finds object es r (M.memberAmong? name (M.types.chain n type)) := by
  induction n generalizing type es with
  | zero =>
      obtain ⟨rfl, rfl⟩ := Eval.plays_pure_iff.mp played
      exact .nothing rfl rfl
  | succ n inductionHypothesis =>
      cases type with
      | none =>
          obtain ⟨rfl, rfl⟩ := Eval.plays_pure_iff.mp played
          exact .nothing rfl rfl
      | some type =>
          obtain ⟨rest, rfl, visiting, reads⟩ := Metadata.plays_typeInfo played reads
          obtain ⟨first, result, above, visited, right, rfl⟩ := Program.plays_bind_iff.mp visiting
          obtain ⟨reads, readsAbove⟩ := List.forall_mem_append.mp reads
          have here := finds_visitMember visited reads
          rw [TypeGraph.chain, Metadata.memberAmong?_cons]
          have parts : picked (answered (.typeInfo type) (M.types type) :: (first ++ above)) =
            picked first ++ picked above := picked_append first above
          cases found : (M.types type).member? false name with
          | none =>
              rw [found] at here
              obtain ⟨silent, rfl⟩ := here
              apply (inductionHypothesis right readsAbove).of_picked
              rw [parts, silent, List.nil_append]
          | some m =>
              rw [found] at here
              obtain _ | ⟨picks, other⟩ := here
              have ended : picked above = [] ∧ r = result := by
                cases result with
                | error e =>
                    obtain ⟨rfl, rfl⟩ := Program.plays_done_iff.mp right
                    exact ⟨rfl, rfl⟩
                | ok answer =>
                    cases answer with
                    | none => exact absurd rfl other
                    | some a =>
                        obtain ⟨rfl, rfl⟩ := Eval.plays_pure_iff.mp right
                        exact ⟨rfl, rfl⟩
              obtain ⟨silent, rfl⟩ := ended
              apply Finds.member _ other
              rw [parts, picks, silent, List.append_nil]

/-! ## Listing the members -/

/-- The node of static members. -/
def Child.isStatics (c : Child) : Bool :=
  match c.value with
  | .statics _ => true
  | _ => false

/-- The children of a name, besides the node of static members. -/
def membersNamed (name : String) (children : List Child) : List Child :=
  children.filter fun c => c.name == name && !c.isStatics

theorem membersNamed_append (name : String) (children children' : List Child) :
    membersNamed name (children ++ children') =
      membersNamed name children ++ membersNamed name children' := List.filter_append ..

namespace ExpandContext

variable (ctx : ExpandContext) (object : RemoteValue) (parent : String)

/-- The child for a member of an object. -/
def memberChild (name typeName : String) : Member → Eval Child
  | .field f => do
    let v ← Eval.native (.fieldValue object f)
    return ⟨name, .value v, memberName parent name⟩
  | .getter m => ctx.getterChild name typeName m (some object) (memberName parent name)

/-- In the course of a listing, a child was made for a member, and no other member was read for
it. -/
def Makes (es : List (Exchange evalEffect)) (c : Child) (m : Member) : Prop :=
  ∃ front part back typeName, es = front ++ part ++ back ∧
    (ctx.memberChild object parent c.name typeName m).run.Plays part (.ok c) ∧
    picked part = [(object, m)]

/-- A listing has one child of a name, and that is for a member, or it has none. -/
inductive ShowsMember (name : String) (es : List (Exchange evalEffect)) (children : List Child) :
    Option Member → Prop
  | nothing : membersNamed name children = [] → ShowsMember name es children none
  | member {c : Child} {m : Member} : membersNamed name children = [c] →
      ctx.Makes object parent es c m → ShowsMember name es children (some m)

/-- A part of a listing shows a member unless its name is taken, and takes the name. -/
structure Adds (name : String) (seen : List String) (found : Option Member)
    (es : List (Exchange evalEffect)) (children : List Child) (seen' : List String) : Prop where
  shows : ctx.ShowsMember object parent name es children (if name ∈ seen then none else found)
  taken : name ∈ seen' ↔ name ∈ seen ∨ found.isSome = true

variable {ctx object parent}

section

variable {name : String} {es es' : List (Exchange evalEffect)} {children children' : List Child}
  {found found' : Option Member} {c : Child} {m : Member}

theorem Makes.before (made : ctx.Makes object parent es c m) (es' : List (Exchange evalEffect)) :
    ctx.Makes object parent (es ++ es') c m := by
  obtain ⟨front, part, back, typeName, rfl, holds⟩ := made
  exact ⟨front, part, back ++ es', typeName, List.append_assoc .., holds⟩

theorem Makes.behind (made : ctx.Makes object parent es c m) (es' : List (Exchange evalEffect)) :
    ctx.Makes object parent (es' ++ es) c m := by
  obtain ⟨front, part, back, typeName, rfl, holds⟩ := made
  exact ⟨es' ++ front, part, back, typeName, by simp, holds⟩

theorem ShowsMember.append (first : ctx.ShowsMember object parent name es children found)
    (second : ctx.ShowsMember object parent name es' children' found')
    (once : found.isSome = true → found' = none) :
    ctx.ShowsMember object parent name (es ++ es') (children ++ children') (found.or found') := by
  cases first with
  | nothing empty =>
      cases second with
      | nothing empty' =>
          apply ShowsMember.nothing
          rw [membersNamed_append, empty, empty', List.append_nil]
      | member only made =>
          apply ShowsMember.member _ (made.behind es)
          rw [membersNamed_append, empty, only, List.nil_append]
  | member only made =>
      obtain rfl := once rfl
      obtain ⟨empty⟩ := second
      apply ShowsMember.member _ (made.before es')
      rw [membersNamed_append, only, empty, List.append_nil]

/-- Where a name is taken, or a member of it was found, none is shown later. -/
theorem Adds.shows_append {seen seen₁ : List String}
    (first : ctx.Adds object parent name seen found es children seen₁)
    (second : ctx.ShowsMember object parent name es' children'
      (if name ∈ seen₁ then none else found')) :
    ctx.ShowsMember object parent name (es ++ es') (children ++ children')
      (if name ∈ seen then none else found.or found') := by
  obtain ⟨shown, taken⟩ := first
  by_cases known : name ∈ seen
  · have later : name ∈ seen₁ := taken.mpr (.inl known)
    rw [if_pos known] at shown ⊢
    rw [if_pos later] at second
    exact shown.append second nofun
  · have fresh : name ∈ seen₁ ↔ found.isSome = true := by simp [taken, known]
    rw [if_neg known] at shown ⊢
    cases found with
    | none =>
        rw [if_neg (by simp [fresh])] at second
        exact shown.append second nofun
    | some m =>
        rw [if_pos (by simp [fresh])] at second
        have both := shown.append second fun _ => rfl
        exact both

/-- Parts of a listing that come one after the other. -/
theorem Adds.append {seen seen₁ seen₂ : List String}
    (first : ctx.Adds object parent name seen found es children seen₁)
    (second : ctx.Adds object parent name seen₁ found' es' children' seen₂) :
    ctx.Adds object parent name seen (found.or found') (es ++ es') (children ++ children')
      seen₂ := by
  refine ⟨first.shows_append second.shows, ?_⟩
  rw [second.taken, first.taken, Option.isSome_or, Bool.or_eq_true, or_assoc]

/-- A part that shows nothing of the name, because it is taken or not meant. -/
theorem Adds.pass {seen : List String} (left : found.isSome = true → name ∈ seen) :
    ctx.Adds object parent name seen found [] [] seen := by
  constructor
  · split
    · exact .nothing rfl
    · cases found with
      | none => exact .nothing rfl
      | some m => exact absurd (left rfl) ‹_›
  · exact ⟨.inl, fun taken => taken.elim id left⟩

/-- A child that is listed, of this name or of another. -/
theorem Adds.child {seen : List String} {typeName : String} (fresh : c.name ∉ seen)
    (isMember : c.isStatics = false)
    (played : (ctx.memberChild object parent c.name typeName m).run.Plays es (.ok c))
    (picks : picked es = [(object, m)]) :
    ctx.Adds object parent name seen (if c.name = name then some m else none) es [c]
      (c.name :: seen) := by
  by_cases same : c.name = name
  · obtain rfl := same
    rw [if_pos rfl]
    constructor
    · rw [if_neg fresh]
      have made : ctx.Makes object parent es c m :=
        ⟨[], es, [], typeName, (List.append_nil es).symm, played, picks⟩
      apply ShowsMember.member _ made
      simp [membersNamed, isMember]
    · simp
  · rw [if_neg same]
    constructor
    · rw [ite_self]
      apply ShowsMember.nothing
      simp [membersNamed, same]
    · simp [Ne.symm same]

end

/-! ### The members of one type -/

end ExpandContext

namespace TypeInfo

/-- The field of a name that a type declares first. -/
def fieldNamed? (fields : List FieldInfo) (name : String) : Option Member :=
  (fields.find? fun f => f.isStatic == false && f.name == name).map .field

/-- The property of a name that a type declares first, if it can be read. -/
def propertyNamed? (properties : List PropertyInfo) (name : String) : Option Member :=
  ((properties.find? fun p => p.isStatic == false && p.name == name).bind (·.getter)).map .getter

theorem member?_eq (info : TypeInfo) (name : String) : info.member? false name =
    (fieldNamed? info.fields name).or (propertyNamed? info.properties name) := by
  unfold member? fieldNamed?
  split <;> rename_i found <;> rw [found] <;> rfl

variable {name : String}

theorem fieldNamed?_cons (f : FieldInfo) (fields : List FieldInfo) :
    fieldNamed? (f :: fields) name =
      (if f.isStatic = false ∧ f.name = name then some (.field f) else none).or
        (fieldNamed? fields name) := by
  unfold fieldNamed?
  by_cases matched : f.isStatic = false ∧ f.name = name
  · rw [List.find?_cons_of_pos (by simp [matched]), if_pos matched]
    rfl
  · rw [List.find?_cons_of_neg (by simpa using matched), if_neg matched]
    rfl

/-- No two instance properties have one name. -/
def Distinct (properties : List PropertyInfo) : Prop :=
  ((properties.filter fun p => !p.isStatic).map (·.name)).Nodup

instance (properties : List PropertyInfo) : Decidable (Distinct properties) :=
  inferInstanceAs (Decidable (List.Nodup _))

theorem Distinct.tail {p : PropertyInfo} {properties : List PropertyInfo}
    (distinct : Distinct (p :: properties)) : Distinct properties := by
  unfold Distinct at distinct
  by_cases shared : p.isStatic = true
  · rwa [List.filter_cons_of_neg (by simp [shared])] at distinct
  · rw [List.filter_cons_of_pos (by simp [shared]), List.map_cons] at distinct
    exact distinct.tail

theorem propertyNamed?_eq_none {p : PropertyInfo} {properties : List PropertyInfo}
    (distinct : Distinct (p :: properties)) (isInstance : p.isStatic = false) :
    propertyNamed? properties p.name = none := by
  unfold Distinct at distinct
  rw [List.filter_cons_of_pos (by simp [isInstance]), List.map_cons, List.nodup_cons] at distinct
  have absent : properties.find? (fun q => q.isStatic == false && q.name == p.name) = none := by
    rw [List.find?_eq_none]
    intro q among matched
    obtain ⟨isInstance, same⟩ := Bool.and_eq_true_iff.mp matched
    apply distinct.1
    rw [List.mem_map]
    refine ⟨q, ?_, eq_of_beq same⟩
    rw [List.mem_filter]
    exact ⟨among, by simpa using isInstance⟩
  rw [propertyNamed?, absent]
  rfl

theorem propertyNamed?_cons {p : PropertyInfo} {properties : List PropertyInfo}
    (distinct : Distinct (p :: properties)) :
    propertyNamed? (p :: properties) name =
      (if p.isStatic = false ∧ p.name = name then p.getter.map .getter else none).or
        (propertyNamed? properties name) := by
  by_cases matched : p.isStatic = false ∧ p.name = name
  · -- There is no second property of the name that could be read in its place.
    obtain ⟨isInstance, rfl⟩ := matched
    rw [propertyNamed?_eq_none distinct isInstance, if_pos ⟨isInstance, rfl⟩, propertyNamed?,
      List.find?_cons_of_pos (by simp [isInstance]), Option.or_none]
    rfl
  · unfold propertyNamed?
    rw [List.find?_cons_of_neg (by simpa using matched), if_neg matched]
    rfl

end TypeInfo

namespace ExpandContext

variable {ctx : ExpandContext} {parent : String} {seen : List String} {M : Metadata}
  {name : String}

theorem adds_fields (ctx : ExpandContext) {fields : List FieldInfo}
    {r : Except EvalError (List Child × List String)} (visible : name.startsWith "<" = false)
    (played : (fieldChildren object parent seen fields).run.Plays es r)
    (reads : ∀ x ∈ es, M.Reads x) :
    ∃ children seen', r = .ok (children, seen') ∧
      ctx.Adds object parent name seen (TypeInfo.fieldNamed? fields name) es children seen' := by
  induction fields generalizing seen es r with
  | nil =>
      obtain ⟨rfl, rfl⟩ := Eval.plays_pure_iff.mp played
      exact ⟨[], seen, rfl, .pass nofun⟩
  | cons f fields inductionHypothesis =>
      rw [fieldChildren] at played
      rw [TypeInfo.fieldNamed?_cons]
      split at played
      case isTrue left =>
        obtain ⟨children, seen', rfl, adds⟩ := inductionHypothesis played reads
        refine ⟨children, seen', rfl, ?_⟩
        apply Adds.append (Adds.pass _) adds
        intro found
        obtain ⟨isInstance, rfl⟩ : f.isStatic = false ∧ f.name = name := by
          by_contra other
          simp [other] at found
        rcases passed_over left isInstance with hidden | isSeen
        · rw [isHiddenField, visible] at hidden
          cases hidden
        · exact isSeen
      case isFalse listed =>
        rw [Bool.not_eq_true, Bool.or_eq_false_iff, Bool.or_eq_false_iff] at listed
        obtain ⟨⟨isInstance, -⟩, fresh⟩ := listed
        obtain ⟨v, rest, rfl, following, reads⟩ := Metadata.plays_fieldValue played reads
        obtain ⟨first, _, second, left, right, rfl⟩ := Program.plays_bind_iff.mp following
        obtain ⟨children, seen', rfl, adds⟩ :=
          inductionHypothesis left (List.forall_mem_append.mp reads).1
        obtain ⟨rfl, rfl⟩ := Eval.plays_pure_iff.mp right
        refine ⟨_, _, rfl, ?_⟩
        have made : (ctx.memberChild object parent f.name "" (.field f)).run.Plays
            [answered (.fieldValue object f) v]
            (.ok ⟨f.name, .value v, memberName parent f.name⟩) := .perform (.done _)
        have untaken : f.name ∉ seen := by simpa using fresh
        have one : ctx.Adds object parent name seen
            (if f.name = name then some (.field f) else none)
            [answered (.fieldValue object f) v] [⟨f.name, .value v, memberName parent f.name⟩]
            (f.name :: seen) :=
          .child (c := ⟨f.name, .value v, memberName parent f.name⟩) untaken rfl made rfl
        simp only [isInstance, true_and, List.append_nil]
        exact one.append adds

/-- A property is shown by its name, and nothing else is read for it. -/
theorem getterChild_shown {shownName typeName : String} {getter : MethodRef}
    {evaluateName : Option String} {r : Except EvalError Child}
    (played : (ctx.getterChild shownName typeName getter (some object) evaluateName).run.Plays es
      r) :
    ∃ c, r = .ok c ∧ c.name = shownName ∧ c.isStatics = false ∧
      picked es = [(object, .getter getter)] := by
  obtain ⟨first, result, rest, lifted, right, rfl⟩ := Program.plays_bind_iff.mp played
  obtain ⟨called, outcome, last, left, ended, rfl⟩ := Program.plays_bind_iff.mp lifted
  obtain ⟨rfl, rfl⟩ := Program.plays_done_iff.mp ended
  obtain ⟨rfl, rfl⟩ := Eval.plays_pure_iff.mp right
  refine ⟨_, rfl, rfl, ?_, ?_⟩
  · match outcome with
    | .ok (some v) => rfl
    | .ok none => rfl
    | .error e => cases e <;> rfl
  · rw [List.append_nil, List.append_nil]
    exact picked_call left

theorem adds_properties (name : String) {properties : List PropertyInfo}
    {r : Except EvalError (List Child × List String)} (distinct : TypeInfo.Distinct properties)
    (played : (ctx.propertyChildren object parent seen properties).run.Plays es r) :
    ∃ children seen', r = .ok (children, seen') ∧
      ctx.Adds object parent name seen (TypeInfo.propertyNamed? properties name) es children
        seen' := by
  induction properties generalizing seen es r with
  | nil =>
      obtain ⟨rfl, rfl⟩ := Eval.plays_pure_iff.mp played
      exact ⟨[], seen, rfl, .pass nofun⟩
  | cons p properties inductionHypothesis =>
      rw [propertyChildren] at played
      rw [TypeInfo.propertyNamed?_cons distinct]
      cases getter : p.getter with
      | none =>
          rw [getter] at played
          obtain ⟨children, seen', rfl, adds⟩ := inductionHypothesis distinct.tail played
          refine ⟨children, seen', rfl, ?_⟩
          apply Adds.append (Adds.pass _) adds
          simp
      | some m =>
          simp only [getter] at played
          split at played
          case isTrue left =>
            obtain ⟨children, seen', rfl, adds⟩ := inductionHypothesis distinct.tail played
            refine ⟨children, seen', rfl, ?_⟩
            apply Adds.append (Adds.pass _) adds
            intro found
            obtain ⟨isInstance, rfl⟩ : p.isStatic = false ∧ p.name = name := by
              by_contra other
              simp [other] at found
            simpa [isInstance] using left
          case isFalse listed =>
            rw [Bool.not_eq_true, Bool.or_eq_false_iff] at listed
            obtain ⟨isInstance, fresh⟩ := listed
            obtain ⟨front, _, rest, called, following, rfl⟩ := Program.plays_bind_iff.mp played
            obtain ⟨c, rfl, same, isMember, picks⟩ := getterChild_shown called
            obtain ⟨first, _, second, left, right, rfl⟩ := Program.plays_bind_iff.mp following
            obtain ⟨children, seen', rfl, adds⟩ := inductionHypothesis distinct.tail left
            obtain ⟨rfl, rfl⟩ := Eval.plays_pure_iff.mp right
            refine ⟨_, _, rfl, ?_⟩
            have untaken : c.name ∉ seen := by simpa [same] using fresh
            have made : (ctx.memberChild object parent c.name p.typeName (.getter m)).run.Plays
                front (.ok c) := by
              rw [memberChild, same]
              exact called
            have one : ctx.Adds object parent name seen
                (if c.name = name then some (.getter m) else none) front [c] (c.name :: seen) :=
              .child untaken isMember made picks
            rw [same] at one
            simp only [isInstance, true_and, List.append_nil]
            exact one.append adds

/-! ### The members of all types -/

theorem membersNamed_statics (name : String) (first : Bool) (info : TypeInfo) :
    membersNamed name (if first then staticsNode info else []) = [] := by
  have hidden : ∀ c ∈ staticsNode info, c.isStatics = true := by
    unfold staticsNode
    split <;> simp [Child.isStatics]
  cases first with
  | false => rfl
  | true =>
      rw [membersNamed, List.filter_eq_nil_iff]
      intro c among
      simp [hidden c among]

/-- Fields, properties, the node of static members, and then the members of the bases. -/
theorem ShowsMember.step {seen₁ seen₂ : List String} {type : TypeRef} {info : TypeInfo}
    {es₁ es₂ es₃ : List (Exchange evalEffect)} {fields properties inherited : List Child}
    {found : Option Member}
    (listed : ctx.Adds object parent name seen (TypeInfo.fieldNamed? info.fields name) es₁ fields
      seen₁)
    (listedToo : ctx.Adds object parent name seen₁ (TypeInfo.propertyNamed? info.properties name)
      es₂ properties seen₂)
    (above : ctx.ShowsMember object parent name es₃ inherited
      (if name ∈ seen₂ then none else found)) (first : Bool) :
    ctx.ShowsMember object parent name (answered (.typeInfo type) info :: (es₁ ++ (es₂ ++ es₃)))
      (fields ++ properties ++ (if first then staticsNode info else []) ++ inherited)
      (if name ∈ seen then none else (info.member? false name).or found) := by
  have statics : ctx.ShowsMember object parent name [] (if first then staticsNode info else [])
      none := .nothing (membersNamed_statics name first info)
  have own := listed.append listedToo
  rw [← TypeInfo.member?_eq] at own
  have whole := own.shows_append (statics.append above nofun)
  have asked : ctx.ShowsMember object parent name [answered (.typeInfo type) info] [] none :=
    .nothing rfl
  have asked := asked.append whole nofun
  simpa only [List.append_assoc, List.nil_append, List.cons_append, Option.none_or] using asked

theorem shows_members {n : Nat} {first : Bool} {type : Option TypeRef}
    {r : Except EvalError (List Child)} (properties : ctx.config.evaluateProperties = true)
    (visible : name.startsWith "<" = false)
    (distinct : ∀ t ∈ M.types.chain n type, TypeInfo.Distinct (M.types t).properties)
    (unlisted : ∀ t ∈ (M.types.chain n type).dropWhile (!isRoot ·),
      (M.types t).member? false name = none)
    (played : (ctx.membersFrom object parent first seen n type).run.Plays es r)
    (reads : ∀ x ∈ es, M.Reads x) :
    ∃ children, r = .ok children ∧ ctx.ShowsMember object parent name es children
      (if name ∈ seen then none else M.memberAmong? name (M.types.chain n type)) := by
  induction n generalizing first seen type es r with
  | zero =>
      obtain ⟨rfl, rfl⟩ := Eval.plays_pure_iff.mp played
      refine ⟨[], rfl, ?_⟩
      simp only [TypeGraph.chain, Metadata.memberAmong?, List.findSome?_nil, ite_self]
      exact .nothing rfl
  | succ n inductionHypothesis =>
      cases type with
      | none =>
          obtain ⟨rfl, rfl⟩ := Eval.plays_pure_iff.mp played
          refine ⟨[], rfl, ?_⟩
          simp only [TypeGraph.chain, Metadata.memberAmong?, List.findSome?_nil, ite_self]
          exact .nothing rfl
      | some type =>
          rw [TypeGraph.chain] at distinct unlisted ⊢
          cases root : isRoot type with
          | true =>
              -- Nothing is listed from here on, and a lookup finds nothing either.
              rw [membersFrom, if_pos root] at played
              obtain ⟨rfl, rfl⟩ := Eval.plays_pure_iff.mp played
              refine ⟨[], rfl, ?_⟩
              rw [List.dropWhile_cons_of_neg (by simp [root])] at unlisted
              have none : M.memberAmong? name (type :: M.types.chain n (M.types type).base) =
                none := List.findSome?_eq_none_iff.mpr unlisted
              rw [none, ite_self]
              exact .nothing rfl
          | false =>
              rw [List.dropWhile_cons_of_pos (by simp [root])] at unlisted
              obtain ⟨distinctHere, distinctAbove⟩ := List.forall_mem_cons.mp distinct
              rw [membersFrom_succ root] at played
              obtain ⟨rest, rfl, forFields, reads⟩ := Metadata.plays_typeInfo played reads
              obtain ⟨es₁, _, rest₁, listed, forProperties, rfl⟩ :=
                Program.plays_bind_iff.mp forFields
              obtain ⟨readsHere, reads⟩ := List.forall_mem_append.mp reads
              obtain ⟨fields, seen₁, rfl, adds₁⟩ := adds_fields ctx visible listed readsHere
              obtain ⟨es₂, _, rest₂, listedToo, forBase, rfl⟩ :=
                Program.plays_bind_iff.mp forProperties
              obtain ⟨-, reads⟩ := List.forall_mem_append.mp reads
              rw [listedProperties, if_pos properties] at listedToo
              obtain ⟨children, seen₂, rfl, adds₂⟩ := adds_properties name distinctHere listedToo
              obtain ⟨es₃, _, rest₃, above, last, rfl⟩ := Program.plays_bind_iff.mp forBase
              obtain ⟨readsAbove, -⟩ := List.forall_mem_append.mp reads
              obtain ⟨inherited, rfl, shown⟩ :=
                inductionHypothesis distinctAbove unlisted above readsAbove
              obtain ⟨rfl, rfl⟩ := Eval.plays_pure_iff.mp last
              refine ⟨_, rfl, ?_⟩
              rw [Metadata.memberAmong?_cons, List.append_nil]
              exact .step adds₁ adds₂ shown first

end ExpandContext

open ExpandContext

/-- Where metadata and fields can be read, an object has at most one child of a name, besides the
node of static members, and the lookup of the name finds a member exactly if there is one. Then it
reads what the child was made from: the same field of the object, or the same getter called on it.
No type has two instance properties of one name, and the types that are not listed do not have the
name. -/
theorem listed_iff_found {M : Metadata} {ctx : ExpandContext} {object : RemoteValue}
    {parent name : String} {limit : Option Nat} {thread : ThreadId}
    {es es' : List (Exchange evalEffect)} {r : Except EvalError (List Child)}
    {r' : Except EvalError (Option (RemoteValue × Bool))}
    (properties : ctx.config.evaluateProperties = true) (visible : name.startsWith "<" = false)
    (distinct : ∀ t ∈ M.types.chain maxTypeDepth (some (M.typeOf object)),
      TypeInfo.Distinct (M.types t).properties)
    (unlisted : ∀ t ∈ (M.types.chain maxTypeDepth (some (M.typeOf object))).dropWhile (!isRoot ·),
      (M.types t).member? false name = none)
    (listing : (ctx.objectChildren object parent).run.Plays es r) (reads : ∀ x ∈ es, M.Reads x)
    (lookup : (instanceMember limit thread object name).run.Plays es' r')
    (reads' : ∀ x ∈ es', M.Reads x) :
    ∃ children, r = .ok children ∧
      ((membersNamed name children = [] ∧ picked es' = [] ∧ r' = .ok none) ∨
        ∃ c m, membersNamed name children = [c] ∧ ctx.Makes object parent es c m ∧
          picked es' = [(object, m)] ∧ r' ≠ .ok none) := by
  obtain ⟨rest, rfl, members, reads⟩ := Metadata.plays_typeOf listing reads
  obtain ⟨children, rfl, shown⟩ := shows_members properties visible distinct unlisted members reads
  rw [instanceMember_eq] at lookup
  obtain ⟨rest', rfl, search, reads'⟩ := Metadata.plays_typeOf lookup reads'
  have finds := finds_searchBases search reads'
  refine ⟨children, rfl, ?_⟩
  rw [if_neg List.not_mem_nil] at shown
  generalize M.memberAmong? name _ = found at shown finds
  cases found with
  | none =>
      obtain ⟨empty⟩ := shown
      obtain ⟨silent, rfl⟩ := finds
      exact .inl ⟨empty, silent, rfl⟩
  | some m =>
      obtain _ | ⟨only, made⟩ := shown
      obtain _ | ⟨picks, other⟩ := finds
      exact .inr ⟨_, m, only, made.behind [_], picks, other⟩

section Objects

/-- What a target says whose types are as in a graph. -/
def metadataIn (G : TypeGraph) : Metadata := ⟨fun v => rung v.id.number.toUInt32, G⟩

theorem reads_playIn {α : Type} (G : TypeGraph) (p : Eval α) :
    ∀ x ∈ (playIn G p).1, (metadataIn G).Reads x := by
  have allowed : (Environment.ofReplies (metadataIn G).Reads).Allows () (playIn G p).1 () := by
    apply Program.allows_simulate
    intro s op
    cases op with
    | native c =>
        cases c with
        | fieldValue => exact ⟨_, rfl⟩
        | _ => trivial
    | _ => trivial
  exact Environment.allows_ofReplies_iff.mp allowed

def emptyContext : ExpandContext := ⟨.empty, {}, 1, 0⟩

/-- The listing of an object of type 0. -/
def listObject (G : TypeGraph) : List (Exchange evalEffect) × Except EvalError (List Child) :=
  playIn G (emptyContext.objectChildren (ofRung 0) "")

/-- The lookup of a name in it. -/
def lookUp (G : TypeGraph) (name : String) :
    List (Exchange evalEffect) × Except EvalError (Option (RemoteValue × Bool)) :=
  playIn G (instanceMember none 1 (ofRung 0) name)

/-- A property hides the field of the base. -/
def hidingField : TypeGraph := fun type =>
  if type.token = 0 then
    ⟨type, some (rung 1), false, [], [⟨"Name", "System.String", some ⟨1, 7⟩, false⟩], []⟩
  else ⟨type, none, false, [⟨1, "Name", "System.String", false⟩], [], []⟩

theorem listed_iff_found_hidingField :
    ∃ children c, (listObject hidingField).2 = .ok children ∧
      membersNamed "Name" children = [c] ∧
      emptyContext.Makes (ofRung 0) "" (listObject hidingField).1 c (.getter ⟨1, 7⟩) ∧
      picked (lookUp hidingField "Name").1 = [(ofRung 0, .getter ⟨1, 7⟩)] := by
  have found : picked (lookUp hidingField "Name").1 = [(ofRung 0, .getter ⟨1, 7⟩)] := by
    decide +kernel
  have properties : emptyContext.config.evaluateProperties = true := rfl
  have visible : "Name".startsWith "<" = false := by decide +kernel
  have listing := plays_playIn hidingField (emptyContext.objectChildren (ofRung 0) "")
  have lookup := plays_playIn hidingField (instanceMember none 1 (ofRung 0) "Name")
  obtain ⟨children, listed, ⟨-, silent, -⟩ | ⟨c, m, only, made, picks, -⟩⟩ :=
    listed_iff_found (M := metadataIn hidingField) properties visible (by decide +kernel)
      (by decide +kernel) listing (reads_playIn _ _) lookup (reads_playIn _ _)
  · exact absurd (silent.symm.trans found) (by decide)
  · obtain ⟨⟨-, rfl⟩, -⟩ := by simpa using picks.symm.trans found
    exact ⟨children, c, listed, only, made, found⟩

/-- An instance field has the name of the node under which static members are. -/
def namedLikeNode : TypeGraph := fun type =>
  ⟨type, none, false,
    [⟨1, "Static members", "System.Int32", false⟩, ⟨2, "S", "System.Int32", true⟩], [], []⟩

/-- Such an object has two children of one name, of which the lookup finds one. -/
theorem static_members_listed_twice :
    namedLikeNode.Lineage (some (rung 0)) [rung 0] ∧
    TypeInfo.Distinct (namedLikeNode (rung 0)).properties ∧
    isRoot (rung 0) = false ∧ "Static members".startsWith "<" = false ∧
    emptyContext.config.evaluateProperties = true ∧
    (emptyContext.objectChildren (ofRung 0) "").run.Plays (listObject namedLikeNode).1
      (.ok [⟨"Static members", .value (ofRung 100), none⟩,
        ⟨"Static members", .statics (rung 0), none⟩]) ∧
    (∀ x ∈ (listObject namedLikeNode).1, (metadataIn namedLikeNode).Reads x) ∧
    (lookUp namedLikeNode "Static members").2 = .ok (some (ofRung 100, true)) := by
  have played := plays_playIn namedLikeNode (emptyContext.objectChildren (ofRung 0) "")
  have listed : (playIn namedLikeNode (emptyContext.objectChildren (ofRung 0) "")).2 =
      .ok [⟨"Static members", .value (ofRung 100), none⟩,
        ⟨"Static members", .statics (rung 0), none⟩] := by decide +kernel
  rw [listed] at played
  refine ⟨.cons .ended, by decide, by decide, by decide +kernel, rfl, played, reads_playIn _ _, ?_⟩
  decide +kernel

end Objects

end ManagedDebugger
