import ManagedDebugger.Proofs.Eval.Overloads
import ManagedDebugger.Proofs.Session.ElementReads

/-!
# A target that stands still

While nothing runs in the target, there is one answer to each question about its values and types. A
program that asks nothing else is determined by these answers: it has one transcript and one result,
which can be worked out call by call.
-/

namespace ManagedDebugger

variable {E : Effect} {α β : Type}

/-- Where it is known what is replied, that is what is replied. -/
def Exchange.Follows (knows : Exchange E → Prop) (x : Exchange E) : Prop :=
  ∀ reply, knows ⟨x.op, reply⟩ → x.reply = reply

namespace Program

/-- A program plays a transcript, and each reply in it is known. -/
structure Settles (knows : Exchange E → Prop) (p : Program E α) (es : List (Exchange E)) (a : α) :
    Prop where
  plays : p.Plays es a
  known : ∀ x ∈ es, knows x

namespace Settles

variable {knows : Exchange E → Prop} {es es' : List (Exchange E)}

theorem done (a : α) : (Program.done a : Program E α).Settles knows [] a :=
  ⟨.done a, List.forall_mem_nil _⟩

theorem bind {p : Program E α} {f : α → Program E β} {a : α} {b : β}
    (first : p.Settles knows es a) (second : (f a).Settles knows es' b) :
    (p.bind f).Settles knows (es ++ es') b :=
  ⟨first.plays.bind second.plays, List.forall_mem_append.mpr ⟨first.known, second.known⟩⟩

/-- What comes behind a program that settles begins with its transcript, even if replies are known
only until some operation that it does not perform. -/
theorem after_takeWhile (early : E.Op → Bool) {p : Program E α} {f : α → Program E β} {a : α}
    {b : β} (settles : p.Settles knows es a) (within : ∀ x ∈ es, early x.op = true)
    (played : (p.bind f).Plays es' b)
    (follows : ∀ x ∈ es'.takeWhile (early ·.op), x.Follows knows) :
    ∃ rest, es' = es ++ rest ∧ (f a).Plays rest b := by
  obtain ⟨asked, known⟩ := settles
  induction asked generalizing es' with
  | done a => exact ⟨es', rfl, played⟩
  | perform _ inductionHypothesis =>
      obtain ⟨reply, rest, rfl, continued⟩ := plays_perform_iff.mp played
      obtain ⟨within, withinLater⟩ := List.forall_mem_cons.mp within
      obtain ⟨known, knownLater⟩ := List.forall_mem_cons.mp known
      simp only [List.takeWhile_cons, within, if_true] at follows
      obtain ⟨here, later⟩ := List.forall_mem_cons.mp follows
      obtain rfl := here _ known
      obtain ⟨back, rfl, last⟩ := inductionHypothesis withinLater continued later knownLater
      exact ⟨back, rfl, last⟩

theorem after {p : Program E α} {f : α → Program E β} {a : α} {b : β}
    (settles : p.Settles knows es a) (played : (p.bind f).Plays es' b)
    (follows : ∀ x ∈ es', x.Follows knows) :
    ∃ rest, es' = es ++ rest ∧ (f a).Plays rest b := by
  apply settles.after_takeWhile (fun _ => true) (by simp) played
  intro x among
  exact follows x (List.takeWhile_subset _ among)

/-- A program that settles can do nothing else. -/
theorem unique {p : Program E α} {a b : α} (settles : p.Settles knows es a)
    (played : p.Plays es' b) (follows : ∀ x ∈ es', x.Follows knows) : es' = es ∧ b = a := by
  have whole : (p.bind Program.done).Plays es' b := by rwa [bind_done]
  obtain ⟨rest, rfl, ended⟩ := settles.after whole follows
  obtain ⟨rfl, rfl⟩ := plays_done_iff.mp ended
  exact ⟨List.append_nil es, rfl⟩

variable {ε : Type} {p : ExceptT ε (Program E) α} {f : α → ExceptT ε (Program E) β}

/-- A program that may fail goes on if its first part succeeds. -/
theorem run_bind {a : α} {r : Except ε β} (first : p.run.Settles knows es (.ok a))
    (second : (f a).run.Settles knows es' r) : (p >>= f).run.Settles knows (es ++ es') r :=
  bind first second

theorem run_bind_error {e : ε} (failed : p.run.Settles knows es (Except.error e)) :
    (p >>= f).run.Settles knows es (.error e) := by
  have whole := bind (f := ExceptT.bindCont f) failed (done (Except.error e))
  rwa [List.append_nil] at whole

theorem run_mapM {γ : Type} {f : γ → ExceptT ε (Program E) α} {asks : γ → List (Exchange E)}
    {g : γ → α} {xs : List γ}
    (each : ∀ x ∈ xs, (f x).run.Settles knows (asks x) (Except.ok (g x))) :
    (xs.mapM f).run.Settles knows (xs.flatMap asks) (Except.ok (xs.map g)) := by
  induction xs with
  | nil => exact done _
  | cons x xs inductionHypothesis =>
      obtain ⟨here, later⟩ := List.forall_mem_cons.mp each
      rw [List.mapM_cons, List.flatMap_cons, List.map_cons]
      apply run_bind here
      rw [← List.append_nil (xs.flatMap asks)]
      exact run_bind (inductionHypothesis later) (done _)

end Settles

end Program

/-! ## What a value holds -/

open ExpandContext (InBounds)

/-- What a target that stands still tells of its values and types. A text fits in memory. -/
structure Snapshot extends Metadata where
  primitive : RemoteValue → Primitive
  text : RemoteValue → String
  length_text : ∀ v, ((Text.units (text v)).length : Int) ≤ Int64.maxValue.toInt
  unboxed : RemoteValue → RemoteValue
  dimensions : RemoteValue → List UInt32
  element : RemoteValue → List UInt32 → RemoteValue

namespace Snapshot

variable (S : Snapshot)

/-- A question about a value or a type, with its answer. An array is only known to answer for
indices in its bounds. -/
def Shows : Exchange evalEffect → Prop
  | ⟨.native (.readPrimitive v), reply⟩ => reply = .ok (S.primitive v)
  | ⟨.native (.readString v), reply⟩ => reply = .ok (S.text v)
  | ⟨.native (.unbox v), reply⟩ => reply = .ok (S.unboxed v)
  | ⟨.native (.arrayDimensions v), reply⟩ => reply = .ok (S.dimensions v)
  | ⟨.native (.arrayElement v indices), reply⟩ =>
    InBounds indices (S.dimensions v) ∧ reply = .ok (S.element v indices)
  | ⟨.native (.typeOf v), reply⟩ => reply = .ok (S.typeOf v)
  | ⟨.native (.typeInfo type), reply⟩ => reply = .ok (S.types type)
  | _ => False

/-- A value as it is here: primitives and nulls are brought over, out of their boxes too. -/
def localized : EvalValue → EvalValue
  | .remote v =>
    match v.kind with
    | .nullReference => .null
    | .primitive _ => .primitive (S.primitive v)
    | .boxed =>
      if (S.unboxed v).kind.isPrimitive then .primitive (S.primitive (S.unboxed v)) else .remote v
    | _ => .remote v
  | other => other

variable {S}

/-- There is one answer to each question. -/
theorem follows_of_shows {x : Exchange evalEffect} (shown : S.Shows x) : x.Follows S.Shows := by
  obtain ⟨op, reply⟩ := x
  intro reply' known
  cases op with
  | native call =>
      cases call with
      | readPrimitive | readString | unbox | arrayDimensions | typeOf | typeInfo =>
          exact shown.trans known.symm
      | arrayElement => exact shown.2.trans known.2.symm
      | _ => cases shown
  | _ => cases shown

theorem shows_of_answers {x : Exchange evalEffect} (answers : S.toMetadata.Answers x) :
    S.Shows x := by
  obtain ⟨op, reply⟩ := x
  cases op with
  | native call =>
      cases call with
      | typeOf | typeInfo => exact answers
      | _ => cases answers
  | _ => cases answers

/-- An evaluation that asks for metadata only. -/
theorem exists_settles {p : Eval α} {a : α} (settles : S.toMetadata.Settles p a) :
    ∃ es, p.run.Settles S.Shows es (.ok a) := by
  obtain ⟨es, played, answers⟩ := settles
  exact ⟨es, played, fun x among => shows_of_answers (answers x among)⟩

theorem settles_native {c : NativeCall} {a : c.Answer} (shows_ : S.Shows (answered c a)) :
    (Eval.native c).run.Settles S.Shows [answered c a] (.ok a) :=
  ⟨Eval.plays_native_ok_iff.mpr rfl, List.forall_mem_singleton.mpr shows_⟩

/-- What is in a box is brought over if it is a primitive. -/
theorem settles_opened (v : RemoteValue) : ∃ es,
    (if (S.unboxed v).kind.isPrimitive then do
        let p ← Eval.native (.readPrimitive (S.unboxed v))
        return .primitive p
      else return .remote v : Eval EvalValue).run.Settles S.Shows es
        (.ok (if (S.unboxed v).kind.isPrimitive then .primitive (S.primitive (S.unboxed v))
          else .remote v)) := by
  split
  · exact ⟨_, .run_bind (settles_native rfl) (.done _)⟩
  · exact ⟨[], .done _⟩

theorem settles_localize (v : EvalValue) :
    ∃ es, (localize v).run.Settles S.Shows es (.ok (S.localized v)) := by
  cases v with
  | primitive | null | void => exact ⟨[], .done _⟩
  | remote v =>
      obtain ⟨id, kind, typeName⟩ := v
      cases kind with
      | string | object | array | nullReference => exact ⟨[], .done _⟩
      | primitive type => exact ⟨_, .run_bind (settles_native rfl) (.done _)⟩
      | boxed =>
          obtain ⟨es, opened⟩ := settles_opened (S := S) ⟨id, .boxed, typeName⟩
          exact ⟨_, .run_bind (settles_native rfl) opened⟩

end Snapshot

/-- An array of two rows and three columns, and a `long` of 2 in a box. -/
def matrixTarget : Snapshot where
  typeOf v := rung v.id.number.toUInt32
  types type := ⟨type, none, false, [], [], []⟩
  primitive _ := .i64 2
  text _ := ""
  length_text _ := by decide
  unboxed _ := ⟨⟨3⟩, .primitive .i8, "System.Int64"⟩
  dimensions _ := [2, 3]
  element _ indices := ⟨⟨indices.foldl (fun n i => 10 * n + i.toUInt64) 0⟩, .object, "A"⟩

def matrix : RemoteValue := ⟨⟨1⟩, .array, "A[,]"⟩

end ManagedDebugger
