import ManagedDebugger.Proofs.Eval.Beginning
import ManagedDebugger.Proofs.Eval.ConditionalChain
import ManagedDebugger.Session.Variables

/-!
# What was read of a value, read again

The listing of an object and the lookup of a member walk through the same types. What the transcript
of a listing says about a field is therefore what a later lookup of its name needs, as long as the
target answers as before: the types from the object's own up to the one that declares the field have
no other member of that name.
-/

namespace ManagedDebugger

/-- Calls that look into a value: what type it has, and what it consists of. -/
def NativeCall.looksInto : NativeCall → Bool
  | typeOf _ | typeInfo _ | fieldValue .. | arrayDimensions _ | arrayElement .. => true
  | _ => false

def EvalOp.looksInto : EvalOp → Bool
  | .native c => c.looksInto
  | _ => false

/-- A call and the answer to it. -/
def answered (c : NativeCall) (a : c.Answer) : Exchange evalEffect := ⟨.native c, .ok a⟩

/-- Where a value is looked into again, the target answers as before. -/
def Repeats (before after : List (Exchange evalEffect)) : Prop :=
  ∀ x ∈ before, ∀ y ∈ after, x.op.looksInto = true → x.op = y.op → x = y

namespace Eval

variable {α : Type} {c : NativeCall} {f : c.Answer → Eval α} {es rest : List (Exchange evalEffect)}

theorem plays_native_ok_iff {a : c.Answer} :
    (native c).run.Plays es (.ok a) ↔ es = [answered c a] := by
  constructor
  · intro played
    obtain ⟨reply, rest, rfl, finished⟩ := Program.plays_perform_iff.mp played
    cases reply with
    | error e => cases finished
    | ok b =>
        obtain ⟨rfl, same⟩ := Program.plays_done_iff.mp finished
        rw [Except.ok.inj same]
        rfl
  · intro same
    subst same
    exact .perform (.done _)

theorem plays_native_bind_ok_iff {b : α} :
    (native c >>= f).run.Plays es (.ok b) ↔ ∃ a rest, es = answered c a :: rest ∧
      (f a).run.Plays rest (.ok b) := by
  rw [plays_bind_ok_iff]
  constructor
  · intro holds
    obtain ⟨first, a, second, left, right, rfl⟩ := holds
    obtain rfl := plays_native_ok_iff.mp left
    exact ⟨a, second, rfl, right⟩
  · intro holds
    obtain ⟨a, rest, rfl, right⟩ := holds
    exact ⟨_, a, rest, plays_native_ok_iff.mpr rfl, right, rfl⟩

theorem plays_pure_iff {a : α} {r : Except EvalError α} :
    (pure a : Eval α).run.Plays es r ↔ es = [] ∧ r = .ok a := Program.plays_done_iff

/-- A call that is made again is answered as before, and the program goes on from there. -/
theorem plays_again {a : c.Answer} {r : Except EvalError α} (repeats : Repeats es rest)
    (before : answered c a ∈ es) (looks : c.looksInto = true)
    (played : (native c >>= f).run.Plays rest r) :
    ∃ back, (f a).run.Plays back r ∧ Repeats es back := by
  obtain ⟨reply, back, rfl, goesOn⟩ := Program.plays_perform_iff.mp played
  obtain ⟨rfl⟩ : reply = .ok a := by
    have same := repeats _ before ⟨.native c, reply⟩ List.mem_cons_self looks rfl
    cases same
    rfl
  refine ⟨back, goesOn, fun x isBefore y isAfter => ?_⟩
  exact repeats x isBefore y (List.mem_cons_of_mem _ isAfter)

end Eval

/-! ## Looking a field up -/

/-- What a lookup does with a type: the member of the name is read, if the type has one. -/
def visitMember (limit : Option Nat) (thread : ThreadId) (object : RemoteValue) (name : String)
    (info : TypeInfo) : Eval (Option (RemoteValue × Bool)) :=
  match info.member? false name with
  | some (.field f) => do
    let value ← Eval.native (.fieldValue object f)
    return some (value, true)
  | some (.getter m) => do
    let value ← callGetter limit thread m (some object)
    return some (value, false)
  | none => return none

theorem instanceMember_eq (limit : Option Nat) (thread : ThreadId) (object : RemoteValue)
    (name : String) :
    instanceMember limit thread object name = Eval.native (.typeOf object) >>= fun type =>
      searchBases (visitMember limit thread object name) maxTypeDepth (some type) := rfl

/-- Some answers tell that the first member of a name, within `n` types from some type on, is a
field, and what it holds. -/
inductive HoldsField (es : List (Exchange evalEffect)) (object : RemoteValue) (name : String)
    (w : RemoteValue) : Nat → TypeRef → Prop where
  | here {n : Nat} {type : TypeRef} {info : TypeInfo} {f : FieldInfo} :
      answered (.typeInfo type) info ∈ es → info.member? false name = some (.field f) →
      answered (.fieldValue object f) w ∈ es → HoldsField es object name w (n + 1) type
  | above {n : Nat} {type base : TypeRef} {info : TypeInfo} :
      answered (.typeInfo type) info ∈ es → info.member? false name = none →
      info.base = some base → HoldsField es object name w n base →
      HoldsField es object name w (n + 1) type

namespace HoldsField

variable {es es' rest : List (Exchange evalEffect)} {object w : RemoteValue} {name : String}
  {n : Nat} {type : TypeRef}

theorem mono (holds : HoldsField es object name w n type) (more : ∀ x ∈ es, x ∈ es') :
    HoldsField es' object name w n type := by
  induction holds with
  | here known member value => exact .here (more _ known) member (more _ value)
  | above known member base _ inductionHypothesis =>
      exact .above (more _ known) member base inductionHypothesis

/-- A lookup finds the field and reads it again. -/
theorem search {limit : Option Nat} {thread : ThreadId}
    {r : Except EvalError (Option (RemoteValue × Bool))}
    (holds : HoldsField es object name w n type) (repeats : Repeats es rest)
    (played : (searchBases (visitMember limit thread object name) n (some type)).run.Plays rest r) :
    r = .ok (some (w, true)) := by
  induction holds generalizing rest with
  | here known member value =>
      obtain ⟨rest, played, repeats⟩ := Eval.plays_again repeats known rfl played
      simp only [visitMember, member, bind_assoc, pure_bind] at played
      obtain ⟨rest, played, -⟩ := Eval.plays_again repeats value rfl played
      exact (Eval.plays_pure_iff.mp played).2
  | above known member base _ inductionHypothesis =>
      obtain ⟨rest, played, repeats⟩ := Eval.plays_again repeats known rfl played
      simp only [visitMember, member, pure_bind, base] at played
      exact inductionHypothesis repeats played

end HoldsField

/-! ## Calls that look into nothing -/

/-- Whatever is replied, no value is looked into. -/
def Blind {α : Type} (p : Program evalEffect α) : Prop :=
  ∀ es a, p.Plays es a → ∀ x ∈ es, x.op.looksInto = false

namespace Blind

variable {α β : Type}

theorem done (a : α) : Blind (Program.done a) := by
  intro es b played x isElement
  obtain ⟨rfl, -⟩ := Program.plays_done_iff.mp played
  cases isElement

theorem perform {op : EvalOp} {next : op.Reply → Program evalEffect α}
    (away : op.looksInto = false) (continued : ∀ reply, Blind (next reply)) :
    Blind (Program.perform (E := evalEffect) op next) := by
  intro es a played x isElement
  obtain ⟨reply, rest, rfl, following⟩ := Program.plays_perform_iff.mp played
  rcases List.mem_cons.mp isElement with rfl | later
  · exact away
  · exact continued reply rest a following x later

theorem bind {p : Program evalEffect α} {f : α → Program evalEffect β} (first : Blind p)
    (second : ∀ a, Blind (f a)) : Blind (p.bind f) := by
  intro es b played x isElement
  obtain ⟨front, a, back, left, right, rfl⟩ := Program.plays_bind_iff.mp played
  rcases List.mem_append.mp isElement with early | late
  · exact first front a left x early
  · exact second a back b right x late

theorem run_bind {p : Eval α} {f : α → Eval β} (first : Blind p.run)
    (second : ∀ a, Blind (f a).run) : Blind (p >>= f).run := by
  refine first.bind fun r => ?_
  cases r with
  | ok a => exact second a
  | error e => exact done _

theorem native {c : NativeCall} (away : c.looksInto = false) : Blind (Eval.native c).run :=
  perform away fun _ => done _

theorem call (limit : Option Nat) (thread : ThreadId) (method : MethodRef)
    (typeArguments : List TypeRef) (arguments : List RemoteValue) :
    Blind (RemoteCall.call limit thread method typeArguments arguments).run := by
  refine run_bind (native rfl) fun eval => perform rfl fun ticket => perform rfl fun reply => ?_
  cases reply with
  | error e => exact perform rfl fun _ => done _
  | ok _ =>
      refine perform rfl fun delivery => ?_
      match delivery with
      | some (.outcome (.completed result)) => exact done _
      | some (.outcome (.threw exception)) => exact done _
      | some .closed => exact done _
      | none => exact perform rfl fun _ => perform rfl fun _ => done _

theorem getterChild (ctx : ExpandContext) (name typeName : String) (getter : MethodRef)
    (receiver : Option RemoteValue) (evaluateName : Option String) :
    Blind (ctx.getterChild name typeName getter receiver evaluateName).run := by
  have lifted : Blind (ExceptT.lift (Eval.attempt
      (RemoteCall.call ctx.config.evalTimeout ctx.thread getter [] receiver.toList)) :
        Eval (Except EvalError (Option RemoteValue))).run :=
    bind (call _ _ _ _ _) fun _ => done _
  rw [ExpandContext.getterChild]
  exact run_bind lifted fun _ => done _

end Blind

/-! ## Listing the members of an object -/

namespace ExpandContext

variable {ctx : ExpandContext} {object : RemoteValue} {parent : String}
  {seen seen' : List String} {es : List (Exchange evalEffect)} {children : List Child}

/-- The children are evaluated by their names under the name of their parent. Only the node of
static members is not. -/
def Named (parent : String) (children : List Child) : Prop :=
  ∀ c ∈ children, c.evaluateName = memberName parent c.name ∨ ∃ type, c.value = .statics type

/-- What the listing of the fields of a type says: of a field that was read, that no earlier member
had its name, and of the names, that they are taken afterwards. -/
structure ListsFields (object : RemoteValue) (parent : String) (seen : List String)
    (fields : List FieldInfo) (es : List (Exchange evalEffect)) (children : List Child)
    (seen' : List String) : Prop where
  read : ∀ f w, answered (.fieldValue object f) w ∈ es → f.name ∉ seen ∧
    isHiddenField f = false ∧
    fields.find? (fun g => g.isStatic == false && g.name == f.name) = some f
  kept : ∀ name ∈ seen, name ∈ seen'
  taken : ∀ f ∈ fields, f.isStatic = false → isHiddenField f = false → f.name ∈ seen'
  named : Named parent children

/-- A field that is not listed is static, made up by the compiler, or has the name of an earlier
member. -/
theorem passed_over {f : FieldInfo}
    (left : (f.isStatic || isHiddenField f || seen.contains f.name) = true)
    (isInstance : f.isStatic = false) : isHiddenField f = true ∨ f.name ∈ seen := by
  rw [isInstance, Bool.false_or, Bool.or_eq_true, List.contains_iff_mem] at left
  exact left

/-- A field that is passed over is not the first of its name among those that are listed. -/
theorem ListsFields.pass {g : FieldInfo} {fields : List FieldInfo}
    (left : g.isStatic = false → isHiddenField g = true ∨ g.name ∈ seen)
    (lists : ListsFields object parent seen fields es children seen') :
    ListsFields object parent seen (g :: fields) es children seen' := by
  obtain ⟨read, kept, taken, named⟩ := lists
  refine ⟨fun f w isRead => ?_, kept, fun f isField isInstance shown => ?_, named⟩
  · obtain ⟨fresh, shown, found⟩ := read f w isRead
    refine ⟨fresh, shown, ?_⟩
    rw [List.find?_cons_of_neg, found]
    intro matched
    obtain ⟨isInstance, same⟩ := Bool.and_eq_true_iff.mp matched
    have same : g.name = f.name := eq_of_beq same
    rcases left (eq_of_beq isInstance) with hidden | isSeen
    · rw [isHiddenField, same] at hidden
      rw [isHiddenField, hidden] at shown
      cases shown
    · exact fresh (same ▸ isSeen)
  · rcases List.mem_cons.mp isField with rfl | later
    · rcases left isInstance with hidden | isSeen
      · rw [hidden] at shown
        cases shown
      · exact kept _ isSeen
    · exact taken f later isInstance shown

/-- A field that is listed is the first of its name, and no later one of the name is read. -/
theorem ListsFields.add {g : FieldInfo} {fields : List FieldInfo} {v : RemoteValue}
    (isInstance : g.isStatic = false) (shown : isHiddenField g = false) (fresh : g.name ∉ seen)
    (lists : ListsFields object parent (g.name :: seen) fields es children seen') :
    ListsFields object parent seen (g :: fields) (answered (.fieldValue object g) v :: es)
      (⟨g.name, .value v, memberName parent g.name⟩ :: children) seen' := by
  obtain ⟨read, kept, taken, named⟩ := lists
  refine ⟨fun f w isRead => ?_, fun name isSeen => kept name (List.mem_cons_of_mem _ isSeen),
    fun f isField isInstance shown => ?_, List.forall_mem_cons.mpr ⟨.inl rfl, named⟩⟩
  · rcases List.mem_cons.mp isRead with same | later
    · cases same
      refine ⟨fresh, shown, List.find?_cons_of_pos ?_⟩
      rw [isInstance, beq_self_eq_true, beq_self_eq_true]
      rfl
    · obtain ⟨other, shown, found⟩ := read f w later
      rw [List.mem_cons, not_or] at other
      refine ⟨other.2, shown, ?_⟩
      rw [List.find?_cons_of_neg, found]
      intro matched
      exact other.1 (eq_of_beq (Bool.and_eq_true_iff.mp matched).2).symm
  · rcases List.mem_cons.mp isField with rfl | later
    · exact kept _ List.mem_cons_self
    · exact taken f later isInstance shown

theorem listsFields {fields : List FieldInfo}
    (played : (fieldChildren object parent seen fields).run.Plays es (.ok (children, seen'))) :
    ListsFields object parent seen fields es children seen' := by
  induction fields generalizing seen es children with
  | nil =>
      obtain ⟨rfl, same⟩ := Eval.plays_pure_iff.mp played
      obtain ⟨rfl, rfl⟩ := Prod.mk.inj (Except.ok.inj same)
      exact ⟨nofun, fun _ taken => taken, List.forall_mem_nil _, List.forall_mem_nil _⟩
  | cons g fields inductionHypothesis =>
      rw [fieldChildren] at played
      split at played
      case isTrue left => exact (inductionHypothesis played).pass (passed_over left)
      case isFalse listed =>
        rw [Bool.not_eq_true, Bool.or_eq_false_iff, Bool.or_eq_false_iff] at listed
        obtain ⟨⟨isInstance, shown⟩, fresh⟩ := listed
        obtain ⟨v, rest, rfl, following⟩ := Eval.plays_native_bind_ok_iff.mp played
        obtain ⟨first, ⟨others, taken⟩, second, left, right, rfl⟩ :=
          Eval.plays_bind_ok_iff.mp following
        obtain ⟨rfl, same⟩ := Eval.plays_pure_iff.mp right
        obtain ⟨rfl, rfl⟩ := Prod.mk.inj (Except.ok.inj same)
        rw [List.append_nil]
        refine (inductionHypothesis left).add isInstance shown fun isSeen => ?_
        rw [List.contains_iff_mem.mpr isSeen] at fresh
        cases fresh

theorem getterChild_named {name typeName : String} {getter : MethodRef}
    {receiver : Option RemoteValue} {evaluateName : Option String} {c : Child}
    (played : (ctx.getterChild name typeName getter receiver evaluateName).run.Plays es (.ok c)) :
    c.name = name ∧ c.evaluateName = evaluateName := by
  rw [getterChild] at played
  obtain ⟨first, r, second, -, right, -⟩ := Eval.plays_bind_ok_iff.mp played
  obtain rfl := Except.ok.inj (Eval.plays_pure_iff.mp right).2
  exact ⟨rfl, rfl⟩

/-- What the listing of the properties of a type says of the names, and that it looks into
nothing. -/
structure ListsProperties (parent : String) (seen : List String) (properties : List PropertyInfo)
    (es : List (Exchange evalEffect)) (children : List Child) (seen' : List String) : Prop where
  blind : ∀ x ∈ es, x.op.looksInto = false
  kept : ∀ name ∈ seen, name ∈ seen'
  taken : ∀ p ∈ properties, p.isStatic = false → p.getter.isSome = true → p.name ∈ seen'
  named : Named parent children

theorem ListsProperties.pass {p : PropertyInfo} {properties : List PropertyInfo}
    (left : p.isStatic = false → p.getter.isSome = true → p.name ∈ seen)
    (lists : ListsProperties parent seen properties es children seen') :
    ListsProperties parent seen (p :: properties) es children seen' := by
  obtain ⟨blind, kept, taken, named⟩ := lists
  refine ⟨blind, kept, fun q isProperty isInstance readable => ?_, named⟩
  rcases List.mem_cons.mp isProperty with rfl | later
  · exact kept _ (left isInstance readable)
  · exact taken q later isInstance readable

theorem ListsProperties.add {p : PropertyInfo} {properties : List PropertyInfo}
    {front : List (Exchange evalEffect)} {child : Child}
    (blindToo : ∀ x ∈ front, x.op.looksInto = false)
    (name : child.evaluateName = memberName parent child.name)
    (lists : ListsProperties parent (p.name :: seen) properties es children seen') :
    ListsProperties parent seen (p :: properties) (front ++ es) (child :: children) seen' := by
  obtain ⟨blind, kept, taken, named⟩ := lists
  refine ⟨List.forall_mem_append.mpr ⟨blindToo, blind⟩,
    fun name isSeen => kept name (List.mem_cons_of_mem _ isSeen),
    fun q isProperty isInstance readable => ?_, List.forall_mem_cons.mpr ⟨.inl name, named⟩⟩
  rcases List.mem_cons.mp isProperty with rfl | later
  · exact kept _ List.mem_cons_self
  · exact taken q later isInstance readable

theorem listsProperties {properties : List PropertyInfo}
    (played : (ctx.propertyChildren object parent seen properties).run.Plays es
      (.ok (children, seen'))) :
    ListsProperties parent seen properties es children seen' := by
  induction properties generalizing seen es children with
  | nil =>
      obtain ⟨rfl, same⟩ := Eval.plays_pure_iff.mp played
      obtain ⟨rfl, rfl⟩ := Prod.mk.inj (Except.ok.inj same)
      exact ⟨List.forall_mem_nil _, fun _ taken => taken, List.forall_mem_nil _,
        List.forall_mem_nil _⟩
  | cons p properties inductionHypothesis =>
      rw [propertyChildren] at played
      cases getter : p.getter with
      | none =>
          rw [getter] at played
          refine (inductionHypothesis played).pass fun _ readable => ?_
          rw [getter] at readable
          cases readable
      | some m =>
          simp only [getter] at played
          split at played
          case isTrue left =>
            refine (inductionHypothesis played).pass fun isInstance _ => ?_
            rw [isInstance, Bool.false_or, List.contains_iff_mem] at left
            exact left
          case isFalse listed =>
            obtain ⟨front, child, rest, called, following, rfl⟩ :=
              Eval.plays_bind_ok_iff.mp played
            obtain ⟨first, ⟨others, taken⟩, second, left, right, rfl⟩ :=
              Eval.plays_bind_ok_iff.mp following
            obtain ⟨rfl, same⟩ := Eval.plays_pure_iff.mp right
            obtain ⟨rfl, rfl⟩ := Prod.mk.inj (Except.ok.inj same)
            obtain ⟨name, evaluateName⟩ := getterChild_named called
            rw [List.append_nil]
            refine (inductionHypothesis left).add ?_ (evaluateName.trans (name ▸ rfl))
            exact Blind.getterChild _ _ _ _ _ _ front _ called

/-- No type that was listed reads the name by a property. Where properties are listed, a field that
is hidden by one is not read at all. -/
def Unshadowed (config : SessionConfig) (es : List (Exchange evalEffect)) (name : String) : Prop :=
  config.evaluateProperties = true ∨ ∀ type info m, answered (.typeInfo type) info ∈ es →
    info.member? false name ≠ some (.getter m)

theorem Unshadowed.mono {config : SessionConfig} {more : List (Exchange evalEffect)} {name : String}
    (unshadowed : Unshadowed config more name) (within : ∀ x ∈ es, x ∈ more) :
    Unshadowed config es name :=
  unshadowed.imp_right fun fields type info m known => fields type info m (within _ known)

/-- What the listing of an object says of its children and of the fields that were read. -/
structure ListsMembers (ctx : ExpandContext) (object : RemoteValue) (parent : String)
    (seen : List String) (n : Nat) (type : Option TypeRef) (es : List (Exchange evalEffect))
    (children : List Child) : Prop where
  read : ∀ f w, answered (.fieldValue object f) w ∈ es → Unshadowed ctx.config es f.name →
    f.name ∉ seen ∧ isHiddenField f = false ∧
      ∃ t, type = some t ∧ HoldsField es object f.name w n t
  named : Named parent children

theorem ListsMembers.nil {n : Nat} {type : Option TypeRef} :
    ListsMembers ctx object parent seen n type [] [] :=
  ⟨nofun, List.forall_mem_nil _⟩

theorem named_staticsNode (parent : String) (info : TypeInfo) :
    Named parent (staticsNode info) := by
  intro c isChild
  rw [staticsNode] at isChild
  split at isChild
  · obtain rfl := List.mem_singleton.mp isChild
    exact .inr ⟨info.type, rfl⟩
  · cases isChild

end ExpandContext

namespace TypeInfo

variable {info : TypeInfo} {name : String}

/-- A name is read by a property only if the type declares one that can be read. -/
theorem exists_property {m : MethodRef} (found : info.member? false name = some (.getter m)) :
    ∃ p ∈ info.properties, p.isStatic = false ∧ p.getter.isSome = true ∧ p.name = name := by
  rw [member?] at found
  split at found
  · cases found
  · obtain ⟨getter, known, -⟩ := Option.map_eq_some_iff.mp found
    obtain ⟨p, isFirst, readable⟩ := Option.bind_eq_some_iff.mp known
    have matched := List.find?_some isFirst
    obtain ⟨isInstance, same⟩ := Bool.and_eq_true_iff.mp matched
    exact ⟨p, List.mem_of_find?_eq_some isFirst, eq_of_beq isInstance,
      Option.isSome_iff_exists.mpr ⟨getter, readable⟩, eq_of_beq same⟩

theorem member?_of_find? {f : FieldInfo}
    (found : info.fields.find? (fun g => g.isStatic == false && g.name == name) = some f) :
    info.member? false name = some (.field f) := by
  rw [member?, found]

theorem member?_eq_none (noField : ∀ f ∈ info.fields, f.isStatic = false → f.name ≠ name)
    (noGetter : ∀ m, info.member? false name ≠ some (.getter m)) :
    info.member? false name = none := by
  cases found : info.member? false name with
  | none => rfl
  | some member =>
      cases member with
      | getter m => exact absurd found (noGetter m)
      | field f =>
          rw [member?] at found
          split at found
          case h_1 g isFirst =>
            have matched := List.find?_some isFirst
            obtain ⟨isInstance, same⟩ := Bool.and_eq_true_iff.mp matched
            exact absurd (eq_of_beq same)
              (noField g (List.mem_of_find?_eq_some isFirst) (eq_of_beq isInstance))
          case h_2 =>
            obtain ⟨m, -, same⟩ := Option.map_eq_some_iff.mp found
            cases same

end TypeInfo

namespace ExpandContext

variable {ctx : ExpandContext} {object : RemoteValue} {parent : String}
  {seen seen' : List String} {es : List (Exchange evalEffect)} {children : List Child}

/-- The properties of a type, where properties are listed. -/
def listedProperties (ctx : ExpandContext) (info : TypeInfo) : List PropertyInfo :=
  if ctx.config.evaluateProperties then info.properties else []

theorem membersFrom_succ {type : TypeRef} (listed : isRoot type = false) (first : Bool)
    (n : Nat) :
    ctx.membersFrom object parent first seen (n + 1) (some type) = do
      let info ← Eval.native (.typeInfo type)
      let fields ← fieldChildren object parent seen info.fields
      let properties ←
        ctx.propertyChildren object parent fields.2 (ctx.listedProperties info)
      let inherited ← ctx.membersFrom object parent false properties.2 n info.base
      return fields.1 ++ properties.1 ++ (if first then staticsNode info else []) ++ inherited := by
  rw [membersFrom, listed]
  refine bind_congr fun info => bind_congr fun fields => ?_
  unfold listedProperties
  cases ctx.config.evaluateProperties <;> rfl

/-- A name that the listing of a type has not taken is no member of the type. -/
theorem member?_of_not_taken {type : TypeRef} {info : TypeInfo} {name : String}
    {seen₁ seen₂ : List String} {es₁ es₂ : List (Exchange evalEffect)}
    {fields properties : List Child}
    (listed : ListsFields object parent seen info.fields es₁ fields seen₁)
    (listedToo : ListsProperties parent seen₁ (ctx.listedProperties info) es₂ properties seen₂)
    (fresh : name ∉ seen₂) (shown : name.startsWith "<" = false)
    (known : answered (.typeInfo type) info ∈ es) (unshadowed : Unshadowed ctx.config es name) :
    info.member? false name = none := by
  refine TypeInfo.member?_eq_none ?_ ?_
  · rintro g isField isInstance rfl
    exact fresh (listedToo.kept _ (listed.taken g isField isInstance shown))
  · intro m found
    rcases unshadowed with properties | fields
    · obtain ⟨p, isProperty, isInstance, readable, rfl⟩ := TypeInfo.exists_property found
      refine fresh (listedToo.taken p ?_ isInstance readable)
      rw [listedProperties, if_pos properties]
      exact isProperty
    · exact fields type info m known found

/-- What is read above a type has a name that no member of the type has. -/
theorem ListsMembers.step {n : Nat} {type : TypeRef} {info : TypeInfo} {seen₁ seen₂ : List String}
    {es₁ es₂ es₃ : List (Exchange evalEffect)} {fields properties inherited : List Child}
    (listed : ListsFields object parent seen info.fields es₁ fields seen₁)
    (listedToo : ListsProperties parent seen₁ (ctx.listedProperties info) es₂ properties seen₂)
    (above : ListsMembers ctx object parent seen₂ n info.base es₃ inherited) (first : Bool) :
    ListsMembers ctx object parent seen (n + 1) (some type)
      (answered (.typeInfo type) info :: (es₁ ++ (es₂ ++ es₃)))
      (fields ++ properties ++ (if first then staticsNode info else []) ++ inherited) := by
  constructor
  · intro f w isRead unshadowed
    -- A field is read for the type itself or for a base; the getters of properties read none.
    rcases List.mem_cons.mp isRead with same | isRead
    · cases same
    rcases List.mem_append.mp isRead with here | isRead
    · obtain ⟨fresh, shown, found⟩ := listed.read f w here
      refine ⟨fresh, shown, type, rfl, ?_⟩
      refine .here List.mem_cons_self (TypeInfo.member?_of_find? found) ?_
      exact List.mem_cons_of_mem _ (List.mem_append_left _ here)
    rcases List.mem_append.mp isRead with inside | there
    · cases listedToo.blind _ inside
    · have within : ∀ x ∈ es₃, x ∈ answered (.typeInfo type) info :: (es₁ ++ (es₂ ++ es₃)) :=
        fun x isElement => List.mem_cons_of_mem _ (List.mem_append_right _
          (List.mem_append_right _ isElement))
      obtain ⟨fresh, shown, base, isBase, holds⟩ := above.read f w there (unshadowed.mono within)
      refine ⟨fun isSeen => fresh (listedToo.kept _ (listed.kept _ isSeen)), shown, type, rfl, ?_⟩
      refine .above List.mem_cons_self ?_ isBase (holds.mono within)
      exact member?_of_not_taken listed listedToo fresh shown List.mem_cons_self unshadowed
  · intro c isChild
    rw [List.mem_append, List.mem_append, List.mem_append] at isChild
    rcases isChild with ((isField | isProperty) | isStatic) | isInherited
    · exact listed.named c isField
    · exact listedToo.named c isProperty
    · split at isStatic
      · exact named_staticsNode parent info c isStatic
      · cases isStatic
    · exact above.named c isInherited

theorem listsMembers {n : Nat} {first : Bool} {type : Option TypeRef}
    (played : (ctx.membersFrom object parent first seen n type).run.Plays es (.ok children)) :
    ListsMembers ctx object parent seen n type es children := by
  induction n generalizing first seen type es children with
  | zero =>
      obtain ⟨rfl, same⟩ := Eval.plays_pure_iff.mp played
      obtain rfl := Except.ok.inj same
      exact .nil
  | succ n inductionHypothesis =>
      cases type with
      | none =>
          obtain ⟨rfl, same⟩ := Eval.plays_pure_iff.mp played
          obtain rfl := Except.ok.inj same
          exact .nil
      | some type =>
          cases root : isRoot type with
          | true =>
              rw [membersFrom, if_pos root] at played
              obtain ⟨rfl, same⟩ := Eval.plays_pure_iff.mp played
              obtain rfl := Except.ok.inj same
              exact .nil
          | false =>
              rw [membersFrom_succ root] at played
              obtain ⟨info, rest, rfl, forFields⟩ := Eval.plays_native_bind_ok_iff.mp played
              obtain ⟨es₁, fields, rest₁, listed, forProperties, rfl⟩ :=
                Eval.plays_bind_ok_iff.mp forFields
              obtain ⟨es₂, properties, rest₂, listedToo, forBase, rfl⟩ :=
                Eval.plays_bind_ok_iff.mp forProperties
              obtain ⟨es₃, inherited, rest₃, above, last, rfl⟩ := Eval.plays_bind_ok_iff.mp forBase
              obtain ⟨rfl, same⟩ := Eval.plays_pure_iff.mp last
              obtain rfl := Except.ok.inj same
              rw [List.append_nil]
              exact .step (listsFields listed) (listsProperties listedToo)
                (inductionHypothesis above) first

end ExpandContext

namespace EvalScope

/-- Evaluating the name of a field reads it again. -/
theorem field_again {s : EvalScope} {object w : RemoteValue} {type : TypeRef} {name : String}
    {es rest : List (Exchange evalEffect)} {r : Except EvalError Evaluated}
    (isObject : object.kind = .object) (repeats : Repeats es rest)
    (known : answered (.typeOf object) type ∈ es)
    (holds : HoldsField es object name w maxTypeDepth type)
    (played : (s.remoteMember name object).run.Plays rest r) : r = .ok ⟨.remote w, true⟩ := by
  have chosen : s.member (.value (.remote object)) ⟨name, []⟩ = s.memberOfRemote object name := by
    obtain ⟨id, kind, typeName⟩ := object
    obtain rfl : kind = .object := isObject
    rfl
  have notBuiltin : builtinMember object name = pure none := by
    obtain ⟨id, kind, typeName⟩ := object
    obtain rfl : kind = .object := isObject
    rfl
  rw [remoteMember, chosen, memberOfRemote, notBuiltin, pure_bind, instanceMember_eq, bind_assoc,
    bind_assoc] at played
  obtain ⟨rest, played, repeats⟩ := Eval.plays_again repeats known rfl played
  obtain ⟨first, found, last, left, right, rfl⟩ := Program.plays_bind_iff.mp played
  have within : Repeats es first := fun x isBefore y isAfter =>
    repeats x isBefore y (List.mem_append_left _ isAfter)
  obtain rfl := holds.search within left
  exact (Eval.plays_pure_iff.mp right).2

end EvalScope

end ManagedDebugger
