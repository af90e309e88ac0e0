import ManagedDebugger.Proofs.Eval.Compiled
import ManagedDebugger.Proofs.Eval.LeftBehind
import ManagedDebugger.Proofs.Eval.Snapshot

/-!
# The texts of values in strings

A value becomes text in an interpolated string and in a sum with a string. Both use the same text of
a value, but a sum brings its operands over first. For a value that is not in a box this makes no
difference, since its text is read off what would be brought over. A primitive in a box is an
object to the one, which is asked for its own conversion, and a primitive to the other.
-/

namespace ManagedDebugger

/-! ## The strings that are asked for -/

/-- The text of the string that is asked for. -/
def EvalOp.string? : EvalOp → Option String
  | .native (.beginString _ text) => some text
  | _ => none

/-- The texts of the strings that are asked for, in order. -/
def stringsAsked (es : List (Exchange evalEffect)) : List String := es.filterMap (·.op.string?)

def EvalOp.isOther (op : EvalOp) : Bool := op.string?.isNone

/-- What happens until a string is asked for. -/
def beforeString (es : List (Exchange evalEffect)) : List (Exchange evalEffect) :=
  es.takeWhile (·.op.isOther)

theorem stringsAsked_append (es es' : List (Exchange evalEffect)) :
    stringsAsked (es ++ es') = stringsAsked es ++ stringsAsked es' := List.filterMap_append

theorem stringsAsked_newString {limit : Option Nat} {thread : ThreadId} {text : String}
    {es : List (Exchange evalEffect)} {r : Except EvalError RemoteValue}
    (played : (RemoteCall.newString limit thread text).run.Plays es r) :
    stringsAsked es = [text] := by
  obtain ⟨call, result, rest, called, right, rfl⟩ := Program.plays_bind_iff.mp played
  have ended : rest = [] := by
    match result with
    | .error e => exact (Program.plays_done_iff.mp right).1
    | .ok (some v) => exact (Program.plays_done_iff.mp right).1
    | .ok none => exact (Program.plays_done_iff.mp right).1
  rw [ended, List.append_nil]
  obtain ⟨first, begun, course, asked, rfl, rfl | ⟨eval, course⟩⟩ := RemoteCall.plays_run called
  · obtain ⟨reply, rfl, -⟩ := RemoteCall.plays_call asked
    rfl
  · obtain ⟨reply, rfl, -⟩ := RemoteCall.plays_call asked
    cases course <;> rfl

/-! ## The text of a value -/

/-- A method that converts to a string: an instance method without arguments. -/
def conversionQuery : MethodQuery := ⟨"ToString", [], 0, false⟩

def MethodLookup.method? : MethodLookup → Option MethodInfo
  | .found m => some m
  | _ => none

namespace Metadata

variable {M : Metadata}

/-- The conversion to a string that a type declares, or else the next of its bases. -/
def conversion? (M : Metadata) (type : TypeRef) : Option MethodInfo :=
  (M.types.chain maxTypeDepth (some type)).findSome? fun t =>
    (M.types t).methods.find? fun m => conversionQuery.named m && conversionQuery.shaped m

/-- Nothing is asked about arguments that are not there. -/
theorem firstMatch_conversion (methods : List MethodInfo) : firstMatch conversionQuery methods =
    pure (methods.find? fun m => conversionQuery.named m && conversionQuery.shaped m) := by
  induction methods with
  | nil => rfl
  | cons m methods inductionHypothesis =>
      rw [firstMatch, List.find?_cons]
      cases conversionQuery.named m && conversionQuery.shaped m with
      | true => rfl
      | false => exact inductionHypothesis

theorem settles_conversionIn (seen : Bool) (n : Nat) (type : Option TypeRef) :
    ∃ lookup, M.Settles (findMethodIn conversionQuery seen n type) lookup ∧
      lookup.method? = (M.types.chain n type).findSome? fun t => (M.types t).methods.find?
        fun m => conversionQuery.named m && conversionQuery.shaped m := by
  induction n generalizing seen type with
  | zero => exact ⟨_, .pure _, by cases seen <;> rfl⟩
  | succ n inductionHypothesis =>
      cases type with
      | none => exact ⟨_, .pure _, by cases seen <;> rfl⟩
      | some type =>
          unfold findMethodIn
          rw [TypeGraph.chain, List.findSome?_cons]
          cases found : (M.types type).methods.find? fun m =>
            conversionQuery.named m && conversionQuery.shaped m with
          | some m =>
              refine ⟨.found m, .bind (.typeInfo type) ?_, rfl⟩
              rw [firstMatch_conversion, found]
              exact .pure _
          | none =>
              obtain ⟨lookup, settles, same⟩ := inductionHypothesis
                (seen || (M.types type).methods.any conversionQuery.named) (M.types type).base
              refine ⟨lookup, .bind (.typeInfo type) ?_, same⟩
              rw [firstMatch_conversion, found]
              exact settles

theorem settles_conversion (type : TypeRef) :
    ∃ lookup, M.Settles (findMethod conversionQuery type) lookup ∧
      lookup.method? = M.conversion? type := settles_conversionIn false maxTypeDepth (some type)

end Metadata

namespace Snapshot

variable (S : Snapshot)

/-- The text of an object whose conversion comes to an outcome. -/
def converted (outcome : EvalOutcome) (v : RemoteValue) : Except EvalError String :=
  match S.conversion? (S.typeOf v), outcome with
  | none, _ => .ok v.typeName
  | some _, .completed (some text) => .ok (if text.kind = .string then S.text text else v.typeName)
  | some _, .completed none => .ok v.typeName
  | some _, .threw exception => .error (.remoteFault exception)

/-- The text of a value. Only an object is asked for it. -/
def textOf (outcome : EvalOutcome) : EvalValue → Except EvalError String
  | .primitive p => .ok p.runtimeText
  | .null => .ok ""
  | .void => .error .voidNotValue
  | .remote v =>
    match v.kind with
    | .string => .ok (S.text v)
    | .nullReference => .ok ""
    | .primitive _ => .ok (S.primitive v).runtimeText
    | _ => S.converted outcome v

/-- While nothing else runs, a question is answered, and a call is carried out as an evaluation and
has an outcome. -/
def Calls (eval : EvalId) (ticket : Ticket) (outcome : EvalOutcome) :
    Exchange evalEffect → Prop
  | ⟨.native (.beginCall ..), reply⟩ => reply = .ok eval
  | ⟨.native .continueProcess, reply⟩ => reply = .ok ()
  | ⟨.register .., reply⟩ => reply = ticket
  | ⟨.wait .., reply⟩ => reply = some (.outcome outcome)
  | x => S.Shows x

variable {S} {eval : EvalId} {ticket : Ticket} {outcome : EvalOutcome} {limit : Option Nat}
  {thread : ThreadId}

theorem calls_of_shows {x : Exchange evalEffect} (shown : S.Shows x) :
    S.Calls eval ticket outcome x := by
  obtain ⟨op, reply⟩ := x
  cases op with
  | native call =>
      cases call with
      | beginCall | continueProcess => cases shown
      | _ => exact shown
  | _ => cases shown

/-- There is one answer to everything that is known. -/
theorem follows_of_calls {x : Exchange evalEffect} (known : S.Calls eval ticket outcome x) :
    x.Follows (S.Calls eval ticket outcome) := by
  obtain ⟨op, reply⟩ := x
  intro reply' known'
  cases op with
  | native call =>
      cases call with
      | beginCall | continueProcess => exact known.trans known'.symm
      | _ =>
          have shown : S.Shows ⟨_, reply⟩ := known
          exact follows_of_shows shown reply' known'
  | register | wait => exact known.trans known'.symm
  | cancel => cases known

theorem string?_of_calls {x : Exchange evalEffect} (known : S.Calls eval ticket outcome x) :
    x.op.string? = none := by
  obtain ⟨op, reply⟩ := x
  cases op with
  | native call =>
      cases call with
      | beginString => cases known
      | _ => rfl
  | _ => rfl

theorem settles_calls {α : Type} {p : Eval α} {es : List (Exchange evalEffect)}
    {r : Except EvalError α} (settles : p.run.Settles S.Shows es r) :
    p.run.Settles (S.Calls eval ticket outcome) es r :=
  ⟨settles.plays, fun x among => calls_of_shows (settles.known x among)⟩

theorem settles_call (method : MethodRef) (receiver : RemoteValue) :
    ∃ es, (RemoteCall.call limit thread method [] [receiver]).run.Settles
      (S.Calls eval ticket outcome) es (RemoteCall.verdict eval (.outcome outcome)) := by
  refine ⟨[⟨.native (.beginCall thread method [] [receiver]), .ok eval⟩,
    ⟨.register eval thread, ticket⟩, ⟨.native .continueProcess, .ok ()⟩,
    ⟨.wait ticket limit, some (.outcome outcome)⟩], ?_, ?_⟩
  · cases outcome with
    | completed result => exact .perform (.perform (.perform (.perform (.done _))))
    | threw exception => exact .perform (.perform (.perform (.perform (.done _))))
  · simp [Calls]

/-- What a call of a method comes to, as a value. -/
def returned : EvalOutcome → Except EvalError EvalValue
  | .completed (some v) => .ok (.remote v)
  | .completed none => .ok .void
  | .threw exception => .error (.remoteFault exception)

theorem settles_callMethod (method : MethodInfo) (v : RemoteValue) :
    ∃ es, (callMethod limit thread method (some v) [] []).run.Settles
      (S.Calls eval ticket outcome) es (returned outcome) := by
  have called : ∃ es, (RemoteCall.call limit thread method.method [] [v]).run.Settles
    (S.Calls eval ticket outcome) es _ := settles_call method.method v
  obtain ⟨es, called⟩ := called
  have noArguments : materializeAll thread [] method.parameters = pure [] := by
    simp [materializeAll]
  rw [callMethod, noArguments, pure_bind]
  match outcome, called with
  | .threw exception, called => exact ⟨_, called.run_bind_error⟩
  | .completed none, called => exact ⟨_, called.run_bind (.done _)⟩
  | .completed (some w), called => exact ⟨_, called.run_bind (.done _)⟩

theorem settles_returnedText (text v : RemoteValue) :
    ∃ es, (if text.kind = .string then Eval.native (.readString text)
        else return v.typeName : Eval String).run.Settles (S.Calls eval ticket outcome) es
        (.ok (if text.kind = .string then S.text text else v.typeName)) := by
  split
  · exact ⟨_, settles_calls (settles_native rfl)⟩
  · exact ⟨[], .done _⟩

/-- The text of an object by its conversion. -/
def convert (limit : Option Nat) (thread : ThreadId) (method : MethodInfo) (v : RemoteValue) :
    Eval String := do
  match ← callMethod limit thread method (some v) [] [] with
  | .remote text =>
    if text.kind = .string then Eval.native (.readString text) else return v.typeName
  | _ => return v.typeName

theorem settles_convert {method : MethodInfo} {v : RemoteValue}
    (found : S.conversion? (S.typeOf v) = some method) :
    ∃ es, (convert limit thread method v).run.Settles (S.Calls eval ticket outcome) es
      (S.converted outcome v) := by
  have called : ∃ es, (callMethod limit thread method (some v) [] []).run.Settles
    (S.Calls eval ticket outcome) es (returned outcome) := settles_callMethod method v
  obtain ⟨es, called⟩ := called
  unfold converted
  rw [found]
  match outcome, called with
  | .threw exception, called => exact ⟨_, called.run_bind_error⟩
  | .completed none, called => exact ⟨_, called.run_bind (.done _)⟩
  | .completed (some text), called =>
      obtain ⟨es', read⟩ := settles_returnedText text v
      exact ⟨_, called.run_bind read⟩

theorem settles_objectText (v : RemoteValue) :
    ∃ es, (objectText limit thread v).run.Settles (S.Calls eval ticket outcome) es
      (S.converted outcome v) := by
  have typed : (Eval.native (.typeOf v)).run.Settles (S.Calls eval ticket outcome) _
    (.ok (S.typeOf v)) := settles_calls (settles_native rfl)
  obtain ⟨lookup, settles, same⟩ := Metadata.settles_conversion (M := S.toMetadata) (S.typeOf v)
  obtain ⟨es, looked⟩ := exists_settles (S := S) settles
  have looked : (findMethod conversionQuery (S.typeOf v)).run.Settles
    (S.Calls eval ticket outcome) es (.ok lookup) := settles_calls looked
  match lookup, same, looked with
  | .found m, found, looked =>
      have text : ∃ es, (convert limit thread m v).run.Settles (S.Calls eval ticket outcome) es
        (S.converted outcome v) := settles_convert found.symm
      obtain ⟨es', text⟩ := text
      exact ⟨_, typed.run_bind (looked.run_bind text)⟩
  | .wrongArguments, absent, looked =>
      unfold converted
      rw [← absent]
      exact ⟨_, typed.run_bind (looked.run_bind (.done _))⟩
  | .missing, absent, looked =>
      unfold converted
      rw [← absent]
      exact ⟨_, typed.run_bind (looked.run_bind (.done _))⟩

theorem settles_stringify (v : EvalValue) :
    ∃ es, (stringify limit thread v).run.Settles (S.Calls eval ticket outcome) es
      (S.textOf outcome v) := by
  cases v with
  | primitive | null | void => exact ⟨[], .done _⟩
  | remote v =>
      obtain ⟨id, kind, typeName⟩ := v
      cases kind with
      | nullReference => exact ⟨[], .done _⟩
      | string => exact ⟨_, settles_calls (settles_native rfl)⟩
      | primitive type =>
          exact ⟨_, settles_calls (.run_bind (settles_native rfl) (.done _))⟩
      | object | array | boxed => exact settles_objectText _

/-! ## What is built -/

variable {α β : Type}

/-- If replies are known until a string is asked for, an evaluation asks for these strings. -/
def Builds (S : Snapshot) (eval : EvalId) (ticket : Ticket) (outcome : EvalOutcome) (p : Eval α)
    (texts : List String) : Prop :=
  ∀ es r, p.run.Plays es r →
    (∀ x ∈ beforeString es, x.Follows (S.Calls eval ticket outcome)) → stringsAsked es = texts

theorem stringsAsked_of_known {es : List (Exchange evalEffect)}
    (known : ∀ x ∈ es, S.Calls eval ticket outcome x) : stringsAsked es = [] :=
  List.filterMap_eq_nil_iff.mpr fun x among => string?_of_calls (known x among)

theorem isOther_of_known {es : List (Exchange evalEffect)}
    (known : ∀ x ∈ es, S.Calls eval ticket outcome x) : ∀ x ∈ es, x.op.isOther = true := by
  intro x among
  rw [EvalOp.isOther, string?_of_calls (known x among), Option.isNone_none]

/-- What is known asks for no string. -/
theorem strings_after {p : Program evalEffect α} {f : α → Program evalEffect β} {a : α} {b : β}
    {es es' : List (Exchange evalEffect)} (settles : p.Settles (S.Calls eval ticket outcome) es a)
    (played : (p.bind f).Plays es' b)
    (follows : ∀ x ∈ beforeString es', x.Follows (S.Calls eval ticket outcome)) :
    ∃ rest, (f a).Plays rest b ∧ stringsAsked es' = stringsAsked rest ∧
      ∀ x ∈ beforeString rest, x.Follows (S.Calls eval ticket outcome) := by
  have others := isOther_of_known settles.known
  obtain ⟨rest, rfl, continued⟩ := settles.after_takeWhile (E := evalEffect) EvalOp.isOther others
    played follows
  rw [beforeString, List.takeWhile_append_of_pos others] at follows
  refine ⟨rest, continued, ?_, (List.forall_mem_append.mp follows).2⟩
  rw [stringsAsked_append, stringsAsked_of_known settles.known, List.nil_append]

namespace Builds

variable {texts : List String} {es : List (Exchange evalEffect)} {p : Eval α} {f : α → Eval β}

theorem after {a : α} (settles : p.run.Settles (S.Calls eval ticket outcome) es (.ok a))
    (builds : S.Builds eval ticket outcome (f a) texts) :
    S.Builds eval ticket outcome (p >>= f) texts := by
  intro es' r played follows
  obtain ⟨rest, played, same, follows⟩ := strings_after settles played follows
  rw [same]
  exact builds rest r played follows

theorem failed {e : EvalError}
    (settles : p.run.Settles (S.Calls eval ticket outcome) es (.error e)) :
    S.Builds eval ticket outcome (p >>= f) [] := by
  intro es' r played follows
  obtain ⟨rest, played, same, -⟩ := strings_after settles played follows
  obtain ⟨rfl, -⟩ := Program.plays_done_iff.mp played
  exact same

/-- The string that is built last is asked for, whatever comes of it. -/
theorem newString (s : EvalScope) (text : String) :
    S.Builds eval ticket outcome (do
      let v ← s.newString text
      return (⟨v, false⟩ : Evaluated)) [text] := by
  intro es r played _
  obtain ⟨first, result, rest, asked, right, rfl⟩ := Program.plays_bind_iff.mp played
  obtain ⟨call, outcome, last, left, ended, rfl⟩ := Program.plays_bind_iff.mp asked
  have silent : last = [] ∧ rest = [] := by
    cases outcome with
    | error e =>
        obtain ⟨rfl, rfl⟩ := Program.plays_done_iff.mp ended
        exact ⟨rfl, (Program.plays_done_iff.mp right).1⟩
    | ok v =>
        obtain ⟨rfl, rfl⟩ := Eval.plays_pure_iff.mp ended
        exact ⟨rfl, (Eval.plays_pure_iff.mp right).1⟩
  rw [silent.1, silent.2, List.append_nil, List.append_nil]
  exact stringsAsked_newString left

end Builds

/-- The text of a value becomes a string. -/
theorem builds_interpolation (s : EvalScope) (v : EvalValue) :
    S.Builds eval ticket outcome (do
      let text ← stringify s.limit s.thread v
      let w ← s.newString text
      return (⟨w, false⟩ : Evaluated)) (S.textOf outcome v).toOption.toList := by
  have text : ∃ es, (stringify s.limit s.thread v).run.Settles (S.Calls eval ticket outcome) es
    (S.textOf outcome v) := settles_stringify v
  obtain ⟨es, text⟩ := text
  cases known : S.textOf outcome v with
  | error e =>
      rw [known] at text
      exact .failed text
  | ok t =>
      rw [known] at text
      exact .after text (.newString s t)

theorem isVoid_localized {v : EvalValue} (notVoid : v ≠ .void) :
    (S.localized v).isVoid = false := by
  cases v with
  | void => exact absurd rfl notVoid
  | primitive | null => rfl
  | remote v =>
      obtain ⟨id, kind, typeName⟩ := v
      cases kind with
      | string | object | array | nullReference | primitive => rfl
      | boxed =>
          unfold localized
          dsimp only
          split <;> rfl

theorem localize_string {l : RemoteValue} (isString : l.kind = .string) :
    localize (.remote l) = pure (.remote l) := by
  obtain ⟨id, kind, typeName⟩ := l
  obtain rfl : kind = .string := isString
  rfl

theorem stringify_string {l : RemoteValue} (isString : l.kind = .string) :
    stringify limit thread (.remote l) = Eval.native (.readString l) := by
  obtain ⟨id, kind, typeName⟩ := l
  obtain rfl : kind = .string := isString
  rfl

/-- The text of a value that was brought over is added to an empty string. -/
theorem builds_sum (s : EvalScope) (checked : Bool) {l : RemoteValue} {v : EvalValue}
    (isString : l.kind = .string) (isEmpty : S.text l = "") (notVoid : v ≠ .void) :
    S.Builds eval ticket outcome (do
      let w ← s.binary .add checked (.remote l) v
      return (⟨w, false⟩ : Evaluated)) (S.textOf outcome (S.localized v)).toOption.toList := by
  have brought : ∃ es, (localize v).run.Settles S.Shows es (.ok (S.localized v)) :=
    settles_localize v
  obtain ⟨es, brought⟩ := brought
  have text : ∃ es, (stringify s.limit s.thread (S.localized v)).run.Settles
    (S.Calls eval ticket outcome) es (S.textOf outcome (S.localized v)) := settles_stringify _
  obtain ⟨es', text⟩ := text
  unfold EvalScope.binary
  rw [localize_string isString, pure_bind, bind_assoc]
  apply Builds.after (settles_calls brought)
  have isText : (EvalValue.remote l).isString = true := by simp [EvalValue.isString, isString]
  have present : (EvalValue.remote l).isVoid = false := rfl
  simp only [present, isVoid_localized notVoid, isText, reduceCtorEq, if_false, Bool.or_false,
    Bool.false_eq_true, decide_true, Bool.true_or, Bool.and_true, if_true]
  have empty : (stringify s.limit s.thread (.remote l)).run.Settles (S.Calls eval ticket outcome)
      [answered (.readString l) ""] (.ok "") := by
    rw [stringify_string isString]
    exact settles_calls (settles_native (congrArg Except.ok isEmpty.symm))
  unfold EvalScope.concat
  rw [bind_assoc]
  apply Builds.after empty
  rw [bind_assoc]
  cases known : S.textOf outcome (S.localized v) with
  | error e =>
      rw [known] at text
      exact .failed text
  | ok t =>
      rw [known] at text
      apply Builds.after text
      rw [String.empty_append]
      exact .newString s t

end Snapshot

/-! ## The two programs -/

namespace EvalScope

variable (s : EvalScope) {e : Expr} {checked : Bool} {code : Code}

/-- A string that is a single value: the value is found, and its text is built. -/
theorem run_interpolation {interpolation : Code} (compiled : e.code checked = .ok code)
    (interpolated : (Expr.interpolated [.hole e]).code checked = .ok interpolation) :
    s.run interpolation = do
      let found ← s.run code
      let text ← stringify s.limit s.thread found.value
      let w ← s.newString text
      return ⟨w, false⟩ := by
  rw [s.run_code interpolated, s.run_code compiled]
  simp only [Expr.evaluate, Expr.walk, Expr.walkHoles, operand, interpolationEntry, resolveValues,
    resolveValue, List.map_cons, List.map_nil, Expr.Piece.erase, joinPieces, StackEntry.ofValue,
    StackEntry.resolve_bound, Resolved.toValue, String.append_empty, bind_assoc, pure_bind]

/-- A value added to the empty string. -/
theorem run_sum {sum : Code} (compiled : e.code checked = .ok code)
    (added : (Expr.binary .add (.literal (.string "")) e).code checked = .ok sum) :
    s.run sum = do
      let l ← s.newString ""
      let found ← s.run code
      let w ← s.binary .add checked l found.value
      return ⟨w, false⟩ := by
  rw [s.run_code added, s.run_code compiled]
  simp only [Expr.evaluate, Expr.walk, operand, binaryEntry, literalEntry, literal, resolveValue,
    StackEntry.ofValue, StackEntry.ofLiteral, StackEntry.resolve_bound, Resolved.toValue,
    bind_assoc, pure_bind]

end EvalScope

namespace Snapshot

variable {S : Snapshot} {outcome : EvalOutcome}

/-- Bringing a value over changes its text only if it is a primitive in a box, and then unless the
box converts to the same text. -/
theorem textOf_localized_iff (v : EvalValue) :
    (S.textOf outcome v).toOption.toList = (S.textOf outcome (S.localized v)).toOption.toList ↔
      ∀ b, v = .remote b → b.kind = .boxed → (S.unboxed b).kind.isPrimitive = true →
        S.textOf outcome v = .ok (S.primitive (S.unboxed b)).runtimeText := by
  cases v with
  | primitive | null | void => exact ⟨nofun, fun _ => rfl⟩
  | remote b =>
      obtain ⟨id, kind, typeName⟩ := b
      cases kind with
      | string | object | array | nullReference | primitive =>
          refine ⟨?_, fun _ => rfl⟩
          rintro - _ ⟨⟩ ⟨⟩
      | boxed =>
          constructor
          · rintro same _ ⟨⟩ - isPrimitive
            have brought : S.localized (.remote ⟨id, .boxed, typeName⟩) =
                .primitive (S.primitive (S.unboxed ⟨id, .boxed, typeName⟩)) := by
              simp only [localized, isPrimitive, if_true]
            rw [brought] at same
            cases known : S.textOf outcome (.remote ⟨id, .boxed, typeName⟩) with
            | error e =>
                rw [known] at same
                cases same
            | ok text =>
                rw [known] at same
                exact congrArg Except.ok (List.singleton_inj.mp same)
          · intro same
            by_cases isPrimitive : (S.unboxed ⟨id, .boxed, typeName⟩).kind.isPrimitive = true
            · rw [same _ rfl rfl isPrimitive]
              simp only [localized, isPrimitive, if_true]
              rfl
            · simp only [localized, isPrimitive]
              rfl

end Snapshot

open Snapshot

/-- An expression is evaluated to a value, once inside an interpolated string and once on the right
of an empty string, and the value has the same text both times. The interpolated string that is
asked for is this text, and the other one the text of the value brought over. The two are the same
unless the value is a primitive in a box whose conversion does not come to the text of the
primitive. -/
theorem texts_agree_iff {S S' : Snapshot} {s : EvalScope} {e : Expr} {checked : Bool}
    {code interpolation sum : Code} (compiled : e.code checked = .ok code)
    (interpolated : (Expr.interpolated [.hole e]).code checked = .ok interpolation)
    (added : (Expr.binary .add (.literal (.string "")) e).code checked = .ok sum)
    {v v' : EvalValue} {editable editable' : Bool} {l : RemoteValue}
    {outcome outcome' : EvalOutcome} {eval eval' : EvalId} {ticket ticket' : Ticket}
    {es first es' rest rest' : List (Exchange evalEffect)} {r r' : Except EvalError Evaluated}
    (notVoid : v' ≠ .void) (stable : S.textOf outcome v = S'.textOf outcome' v')
    (left : (s.run interpolation).run.Plays (es ++ rest) r)
    (value : (s.run code).run.Plays es (.ok ⟨v, editable⟩))
    (known : ∀ x ∈ beforeString rest, x.Follows (S.Calls eval ticket outcome))
    (right : (s.run sum).run.Plays (first ++ (es' ++ rest')) r')
    (empty : (s.newString "").run.Plays first (.ok (.remote l)))
    (isString : l.kind = .string) (isEmpty : S'.text l = "")
    (value' : (s.run code).run.Plays es' (.ok ⟨v', editable'⟩))
    (known' : ∀ x ∈ beforeString rest', x.Follows (S'.Calls eval' ticket' outcome')) :
    stringsAsked rest = (S.textOf outcome v).toOption.toList ∧
    stringsAsked rest' = (S'.textOf outcome' (S'.localized v')).toOption.toList ∧
    (stringsAsked rest = stringsAsked rest' ↔
      ∀ b, v' = .remote b → b.kind = .boxed → (S'.unboxed b).kind.isPrimitive = true →
        S'.textOf outcome' v' = .ok (S'.primitive (S'.unboxed b)).runtimeText) := by
  rw [s.run_interpolation compiled interpolated, Eval.plays_after_iff value] at left
  rw [s.run_sum compiled added, Eval.plays_after_iff empty, Eval.plays_after_iff value'] at right
  have builtLeft := builds_interpolation s v rest r left known
  have builtRight := builds_sum s checked isString isEmpty notVoid rest' r' right known'
  refine ⟨builtLeft, builtRight, ?_⟩
  rw [builtLeft, builtRight, stable]
  exact textOf_localized_iff v'

section Boxed

def boxedFive : RemoteValue := ⟨⟨1⟩, .boxed, "System.Int32"⟩

def five : RemoteValue := ⟨⟨2⟩, .primitive .i4, "System.Int32"⟩

/-- A string in the target. -/
def stringOf (n : UInt64) : RemoteValue := ⟨⟨n⟩, .string, "System.String"⟩

/-- A target whose types have no members, where boxes hold a 5 and strings are empty. -/
def fiveTarget : Snapshot :=
  { matrixTarget with primitive := fun _ => .i32 5, unboxed := fun _ => five }

/-- A frame with the box as its argument. -/
def boxedScope : EvalScope := ⟨⟨.empty, [], 1, 0, none⟩, ⟨none, none, [⟨"b", boxedFive⟩], [], []⟩⟩

/-- A string is built in the target. -/
def built (text : String) (eval : UInt64) (made : RemoteValue) : List (Exchange evalEffect) :=
  [⟨.native (.beginString 1 text), .ok ⟨eval⟩⟩, ⟨.register ⟨eval⟩ 1, (0 : Nat)⟩,
    ⟨.native .continueProcess, .ok ()⟩,
    ⟨.wait (0 : Nat) none, some (.outcome (.completed (some made)))⟩]

/-- The conversion of the box is looked for, and its type taken as its text. -/
def interpolated : List (Exchange evalEffect) :=
  answered (.typeOf boxedFive) (rung 1) ::
    answered (.typeInfo (rung 1)) (fiveTarget.types (rung 1)) ::
    built "System.Int32" 1 (stringOf 3)

/-- The number in the box is read, and the text of the empty string. -/
def summed : List (Exchange evalEffect) :=
  answered (.unbox boxedFive) five :: answered (.readPrimitive five) (.i32 5) ::
    answered (.readString (stringOf 3)) "" :: built "5" 2 (stringOf 4)

def boxCode : Code := [⟨.name "b" [], false⟩]

def interpolationCode : Code := [⟨.name "b" [], false⟩, ⟨.interpolate [.hole ()], false⟩]

def sumCode : Code :=
  [⟨.literal (.string ""), false⟩, ⟨.name "b" [], false⟩, ⟨.binary .add, false⟩]

theorem evaluated_box : (boxedScope.run boxCode).run.Plays [] (.ok ⟨.remote boxedFive, true⟩) :=
  .done _

theorem code_box : (Expr.identifier "b").code false = .ok boxCode := rfl

theorem code_interpolation :
    (Expr.interpolated [.hole (.identifier "b")]).code false = .ok interpolationCode := rfl

theorem code_sum :
    (Expr.binary .add (.literal (.string "")) (.identifier "b")).code false = .ok sumCode := rfl

theorem plays_empty : (boxedScope.newString "").run.Plays (built "" 0 (stringOf 3))
    (.ok (.remote (stringOf 3))) := .perform (.perform (.perform (.perform (.done _))))

theorem plays_interpolated : (boxedScope.run interpolationCode).run.Plays ([] ++ interpolated)
    (.ok ⟨.remote (stringOf 3), false⟩) := by
  rw [boxedScope.run_interpolation code_box code_interpolation, Eval.plays_after_iff evaluated_box]
  exact .perform (.perform (.perform (.perform (.perform (.perform (.done _))))))

theorem plays_summed : (boxedScope.run sumCode).run.Plays
    (built "" 0 (stringOf 3) ++ ([] ++ summed)) (.ok ⟨.remote (stringOf 4), false⟩) := by
  rw [boxedScope.run_sum code_box code_sum, Eval.plays_after_iff plays_empty,
    Eval.plays_after_iff evaluated_box]
  exact .perform (.perform (.perform (.perform (.perform (.perform (.perform (.done _)))))))

theorem known_interpolated : ∀ x ∈ beforeString interpolated,
    fiveTarget.Calls ⟨0⟩ (0 : Nat) (.completed none) x :=
  List.forall_mem_cons.mpr ⟨rfl, List.forall_mem_singleton.mpr rfl⟩

theorem known_summed : ∀ x ∈ beforeString summed,
    fiveTarget.Calls ⟨0⟩ (0 : Nat) (.completed none) x :=
  List.forall_mem_cons.mpr ⟨rfl, List.forall_mem_cons.mpr ⟨rfl, List.forall_mem_singleton.mpr rfl⟩⟩

/-- The type of the box declares no conversion, so the texts differ. -/
theorem texts_agree_iff_boxed : stringsAsked interpolated ≠ stringsAsked summed := by
  have known : ∀ x ∈ beforeString interpolated,
      x.Follows (fiveTarget.Calls ⟨0⟩ (0 : Nat) (.completed none)) :=
    fun x among => follows_of_calls (known_interpolated x among)
  have known' : ∀ x ∈ beforeString summed,
      x.Follows (fiveTarget.Calls ⟨0⟩ (0 : Nat) (.completed none)) :=
    fun x among => follows_of_calls (known_summed x among)
  have notVoid : EvalValue.remote boxedFive ≠ .void := nofun
  obtain ⟨-, -, agree_iff⟩ := texts_agree_iff code_box code_interpolation code_sum notVoid rfl
    plays_interpolated evaluated_box known plays_summed plays_empty rfl rfl evaluated_box known'
  intro agree
  have same := agree_iff.mp agree boxedFive rfl rfl rfl
  have shown : fiveTarget.textOf (.completed none) (.remote boxedFive) = .ok "System.Int32" := rfl
  rw [shown] at same
  exact absurd (Except.ok.inj same) (by decide)

/-- The same box in an interpolated string and in a sum with the empty string. -/
theorem boxed_texts_differ :
    (boxedScope.run boxCode).run.Plays [] (.ok ⟨.remote boxedFive, true⟩) ∧
    (boxedScope.run interpolationCode).run.Plays interpolated (.ok ⟨.remote (stringOf 3), false⟩) ∧
    (∀ x ∈ beforeString interpolated, fiveTarget.Calls ⟨0⟩ (0 : Nat) (.completed none) x) ∧
    (boxedScope.run sumCode).run.Plays (built "" 0 (stringOf 3) ++ summed)
      (.ok ⟨.remote (stringOf 4), false⟩) ∧
    (∀ x ∈ beforeString summed, fiveTarget.Calls ⟨0⟩ (0 : Nat) (.completed none) x) ∧
    stringsAsked interpolated = ["System.Int32"] ∧ stringsAsked summed = ["5"] :=
  ⟨evaluated_box, plays_interpolated, known_interpolated, plays_summed, known_summed, rfl, rfl⟩

end Boxed

end ManagedDebugger
