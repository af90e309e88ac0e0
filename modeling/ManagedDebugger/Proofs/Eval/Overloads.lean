import ManagedDebugger.Proofs.Eval.BaseWalks
import Mathlib.Data.List.Forall2

/-!
# Looking up a method

A type and its bases are searched in order, and the methods of each in the order of their
declaration. The first one that has the name, the shape and the parameters that are asked for is
found. Where there is none, it matters whether any method has the name: then it is the arguments
that are wrong.
-/

namespace ManagedDebugger

/-- The types from one on, each followed by its base. The last one has none. -/
inductive TypeGraph.Lineage (G : TypeGraph) : Option TypeRef → List TypeRef → Prop where
  | ended : Lineage G none []
  | cons {type : TypeRef} {bases : List TypeRef} : Lineage G (G type).base bases →
      Lineage G (some type) (type :: bases)

/-- What the target says of types, and which type it says that a value has. -/
structure Metadata where
  typeOf : RemoteValue → TypeRef
  types : TypeGraph

namespace Metadata

variable (M : Metadata)

/-- A question about metadata, with its answer. -/
def Answers : Exchange evalEffect → Prop
  | ⟨.native (.typeOf v), reply⟩ => reply = .ok (M.typeOf v)
  | ⟨.native (.typeInfo type), reply⟩ => reply = .ok (M.types type)
  | _ => False

/-- Whatever is asked, questions about metadata are answered. -/
def Reports : Exchange evalEffect → Prop
  | ⟨.native (.typeOf v), reply⟩ => reply = .ok (M.typeOf v)
  | ⟨.native (.typeInfo type), reply⟩ => reply = .ok (M.types type)
  | _ => True

variable {M}

theorem reply_eq {op : EvalOp} {reply reply' : op.Reply} (answers : M.Answers ⟨op, reply⟩)
    (reports : M.Reports ⟨op, reply'⟩) : reply' = reply := by
  cases op with
  | native call =>
      cases call with
      | typeOf | typeInfo => exact reports.trans answers.symm
      | _ => cases answers
  | _ => cases answers

/-- A program that asks for metadata only has one result. -/
theorem result_eq {α : Type} {p : Program evalEffect α} {es es' : List (Exchange evalEffect)}
    {a b : α} (asked : p.Plays es a) (answers : ∀ x ∈ es, M.Answers x) (played : p.Plays es' b)
    (reports : ∀ x ∈ es', M.Reports x) : b = a := by
  induction asked generalizing es' with
  | done a => exact (Program.plays_done_iff.mp played).2
  | perform _ inductionHypothesis =>
      obtain ⟨reply', rest, rfl, continued⟩ := Program.plays_perform_iff.mp played
      obtain ⟨here, later⟩ := List.forall_mem_cons.mp answers
      obtain ⟨here', later'⟩ := List.forall_mem_cons.mp reports
      obtain rfl := reply_eq here here'
      exact inductionHypothesis later continued later'

/-- An evaluation asks for metadata only, and comes to a value. -/
def Settles {α : Type} (M : Metadata) (p : Eval α) (a : α) : Prop :=
  ∃ es, p.run.Plays es (.ok a) ∧ ∀ x ∈ es, M.Answers x

namespace Settles

variable {α β : Type}

theorem pure (a : α) : M.Settles (Pure.pure a) a := ⟨[], .done _, List.forall_mem_nil _⟩

theorem bind {p : Eval α} {f : α → Eval β} {a : α} {b : β} (first : M.Settles p a)
    (second : M.Settles (f a) b) : M.Settles (p >>= f) b := by
  obtain ⟨es, left, answers⟩ := first
  obtain ⟨es', right, answers'⟩ := second
  exact ⟨es ++ es', Program.Plays.bind left right, List.forall_mem_append.mpr ⟨answers, answers'⟩⟩

theorem typeOf (v : RemoteValue) : M.Settles (Eval.native (.typeOf v)) (M.typeOf v) := by
  refine ⟨[⟨.native (.typeOf v), .ok (M.typeOf v)⟩], .perform (.done _), ?_⟩
  simp [Answers]

theorem typeInfo (type : TypeRef) : M.Settles (Eval.native (.typeInfo type)) (M.types type) := by
  refine ⟨[⟨.native (.typeInfo type), .ok (M.types type)⟩], .perform (.done _), ?_⟩
  simp [Answers]

end Settles

/-! ## Arguments -/

/-- A value may be passed for a parameter of the named type. An object may if one of the first 64
types of its bases has the name. -/
def Compatible (M : Metadata) (parameter : String) : EvalValue → Prop
  | .primitive p => primitiveFits p.type parameter = true
  | .null => ElementType.ofRuntimeName? parameter = none
  | .void => False
  | .remote v =>
    match v.kind with
    | .primitive type => primitiveFits type parameter = true
    | .nullReference => ElementType.ofRuntimeName? parameter = none
    | _ => parameter = "System.Object" ∨ parameter = v.typeName ∨
      ∃ type ∈ M.types.chain maxTypeDepth (some (M.typeOf v)), type.name = parameter

theorem settles_derivesFromIn (name : String) (n : Nat) (type : Option TypeRef) :
    ∃ derives, M.Settles (derivesFromIn name n type) derives ∧
      (derives = true ↔ ∃ base ∈ M.types.chain n type, base.name = name) := by
  induction n generalizing type with
  | zero => exact ⟨false, .pure false, by simp [TypeGraph.chain]⟩
  | succ n inductionHypothesis =>
      cases type with
      | none => exact ⟨false, .pure false, by simp [TypeGraph.chain]⟩
      | some type =>
          unfold derivesFromIn
          by_cases same : type.name = name
          · rw [if_pos same]
            exact ⟨true, .pure true, by simp [TypeGraph.chain, same]⟩
          rw [if_neg same]
          by_cases last : n = 0
          · rw [if_pos last]
            exact ⟨false, .pure false, by simp [TypeGraph.chain, same, last]⟩
          rw [if_neg last]
          obtain ⟨derives, settles, derives_iff⟩ := inductionHypothesis (M.types type).base
          refine ⟨derives, .bind (.typeInfo type) settles, ?_⟩
          simp [TypeGraph.chain, same, derives_iff]

/-- An object is compared by the name of its type first, and then by those of its bases. -/
theorem settles_named (v : RemoteValue) (parameter : String) :
    ∃ fits, M.Settles (if parameter = "System.Object" ∨ parameter = v.typeName then return true
        else derivesFrom v parameter) fits ∧
      (fits = true ↔ parameter = "System.Object" ∨ parameter = v.typeName ∨
        ∃ type ∈ M.types.chain maxTypeDepth (some (M.typeOf v)), type.name = parameter) := by
  rw [← or_assoc]
  by_cases named : parameter = "System.Object" ∨ parameter = v.typeName
  · rw [if_pos named]
    exact ⟨true, .pure true, by simp [named]⟩
  · rw [if_neg named, or_iff_right named]
    obtain ⟨derives, settles, derives_iff⟩ :=
      settles_derivesFromIn (M := M) parameter maxTypeDepth (some (M.typeOf v))
    exact ⟨derives, .bind (.typeOf v) settles, derives_iff⟩

theorem settles_isCompatible (parameter : String) (v : EvalValue) :
    ∃ fits, M.Settles (isCompatible parameter v) fits ∧
      (fits = true ↔ M.Compatible parameter v) := by
  cases v with
  | primitive p => exact ⟨_, .pure _, Iff.rfl⟩
  | null => exact ⟨_, .pure _, by simp [Compatible]⟩
  | void => exact ⟨_, .pure _, by simp [Compatible]⟩
  | remote v =>
      obtain ⟨id, kind, typeName⟩ := v
      cases kind with
      | primitive type => exact ⟨_, .pure _, Iff.rfl⟩
      | nullReference => exact ⟨_, .pure _, by simp [Compatible]⟩
      | string | object | array | boxed => exact settles_named _ parameter

theorem settles_allCompatible {arguments : List EvalValue} {parameters : List Parameter}
    (sameLength : parameters.length = arguments.length) :
    ∃ fit, M.Settles (allCompatible arguments parameters) fit ∧ (fit = true ↔
      List.Forall₂ (fun a p => M.Compatible p.typeName a) arguments parameters) := by
  induction arguments generalizing parameters with
  | nil =>
      obtain rfl := List.length_eq_zero_iff.mp sameLength
      exact ⟨true, .pure true, by simp⟩
  | cons a arguments inductionHypothesis =>
      cases parameters with
      | nil => cases sameLength
      | cons p parameters =>
          obtain ⟨fits, settles, fits_iff⟩ := settles_isCompatible (M := M) p.typeName a
          cases fits with
          | false =>
              refine ⟨false, .bind settles (.pure false), ?_⟩
              simp [← fits_iff]
          | true =>
              obtain ⟨fit, rest, fit_iff⟩ := inductionHypothesis (Nat.succ.inj sameLength)
              refine ⟨fit, .bind settles rest, ?_⟩
              simp [← fits_iff, fit_iff]

end Metadata

/-! ## Methods -/

namespace MethodQuery

/-- The method has the name, and is static or not, as is asked for. -/
structure Named (q : MethodQuery) (m : MethodInfo) : Prop where
  name : m.name = q.name
  isStatic : m.isStatic = q.isStatic

/-- The method can be called with the arguments. -/
structure Suits (q : MethodQuery) (M : Metadata) (m : MethodInfo) : Prop extends q.Named m where
  arity : m.parameters.length = q.arguments.length
  genericArity : m.genericArity = q.genericArity
  compatible : List.Forall₂ (fun a p => M.Compatible p.typeName a) q.arguments m.parameters

/-- The answer to a search through methods. -/
inductive Selects (q : MethodQuery) (M : Metadata) (methods : List MethodInfo) :
    MethodLookup → Prop where
  | found {before after : List MethodInfo} {m : MethodInfo} : methods = before ++ m :: after →
      q.Suits M m → (∀ other ∈ before, ¬ q.Suits M other) → Selects q M methods (.found m)
  | wrongArguments : (∀ m ∈ methods, ¬ q.Suits M m) → (∃ m ∈ methods, q.Named m) →
      Selects q M methods .wrongArguments
  | missing : (∀ m ∈ methods, ¬ q.Named m) → Selects q M methods .missing

variable {q : MethodQuery} {M : Metadata}

theorem named_iff {m : MethodInfo} : q.named m = true ↔ q.Named m := by
  rw [named, Bool.and_eq_true, beq_iff_eq, beq_iff_eq]
  exact ⟨fun ⟨name, isStatic⟩ => ⟨name, isStatic⟩, fun ⟨name, isStatic⟩ => ⟨name, isStatic⟩⟩

theorem shaped_iff {m : MethodInfo} : q.shaped m = true ↔
    m.parameters.length = q.arguments.length ∧ m.genericArity = q.genericArity := by
  rw [shaped, Bool.and_eq_true, beq_iff_eq, beq_iff_eq]

/-- The arguments of a method are looked at if all else is as it is asked for. -/
theorem settles_suits {m : MethodInfo} (like : (q.named m && q.shaped m) = true) :
    ∃ suits, M.Settles (allCompatible q.arguments m.parameters) suits ∧
      (suits = true ↔ q.Suits M m) := by
  obtain ⟨named, shaped⟩ := Bool.and_eq_true_iff.mp like
  have named := named_iff.mp named
  obtain ⟨arity, genericArity⟩ := shaped_iff.mp shaped
  obtain ⟨suits, settles, suits_iff⟩ := Metadata.settles_allCompatible (M := M) arity
  refine ⟨suits, settles, suits_iff.trans ⟨fun compatible => ?_, Suits.compatible⟩⟩
  exact ⟨named, arity, genericArity, compatible⟩

theorem Suits.like {m : MethodInfo} (suits : q.Suits M m) :
    (q.named m && q.shaped m) = true :=
  Bool.and_eq_true_iff.mpr
    ⟨named_iff.mpr suits.toNamed, shaped_iff.mpr ⟨suits.arity, suits.genericArity⟩⟩

theorem settles_firstMatch (methods : List MethodInfo) :
    (∃ before m after, methods = before ++ m :: after ∧ q.Suits M m ∧
      (∀ other ∈ before, ¬ q.Suits M other) ∧ M.Settles (firstMatch q methods) (some m)) ∨
    (∀ m ∈ methods, ¬ q.Suits M m) ∧ M.Settles (firstMatch q methods) none := by
  induction methods with
  | nil => exact .inr ⟨List.forall_mem_nil _, .pure none⟩
  | cons m rest inductionHypothesis =>
      unfold firstMatch
      by_cases suits : q.Suits M m
      · obtain ⟨fit, settles, fit_iff⟩ := settles_suits suits.like
        obtain rfl := fit_iff.mpr suits
        rw [if_pos suits.like]
        exact .inl ⟨[], m, rest, rfl, suits, List.forall_mem_nil _, .bind settles (.pure _)⟩
      · -- Whether or not its arguments were looked at, the search goes on behind the method.
        have behind {found : Option MethodInfo} (settles : M.Settles (firstMatch q rest) found) :
            M.Settles (if q.named m && q.shaped m then do
              if ← allCompatible q.arguments m.parameters then return some m
              else firstMatch q rest
            else firstMatch q rest) found := by
          by_cases like : (q.named m && q.shaped m) = true
          · obtain ⟨fit, first, fit_iff⟩ := settles_suits like
            obtain rfl := Bool.eq_false_iff.mpr fun fits => suits (fit_iff.mp fits)
            rw [if_pos like]
            exact .bind first settles
          · rwa [if_neg like]
        obtain ⟨before, other, after, rfl, here, none, settles⟩ | ⟨none, settles⟩ :=
          inductionHypothesis
        · refine .inl ⟨m :: before, other, after, rfl, here, ?_, behind settles⟩
          exact List.forall_mem_cons.mpr ⟨suits, none⟩
        · exact .inr ⟨List.forall_mem_cons.mpr ⟨suits, none⟩, behind settles⟩

/-- Methods that came before and do not suit leave their mark if they have the name. -/
theorem settles_findMethodIn {type : Option TypeRef} {types : List TypeRef}
    (lineage : M.types.Lineage type types) {earlier : List MethodInfo} {seen : Bool} {n : Nat}
    (short : types.length ≤ n) (unsuited : ∀ m ∈ earlier, ¬ q.Suits M m)
    (seen_iff : seen = true ↔ ∃ m ∈ earlier, q.Named m) :
    ∃ lookup, M.Settles (findMethodIn q seen n type) lookup ∧
      q.Selects M (earlier ++ types.flatMap fun t => (M.types t).methods) lookup := by
  induction lineage generalizing earlier seen n with
  | ended =>
      have settled : findMethodIn q seen n none =
          pure (if seen then .wrongArguments else .missing) := by
        cases n <;> rfl
      rw [settled]
      refine ⟨_, .pure _, ?_⟩
      simp only [List.flatMap_nil, List.append_nil]
      cases seen with
      | true => exact .wrongArguments unsuited (seen_iff.mp rfl)
      | false => exact .missing fun m among named => nomatch seen_iff.mpr ⟨m, among, named⟩
  | @cons type bases _ inductionHypothesis =>
      cases n with
      | zero => cases short
      | succ n =>
          obtain ⟨before, m, after, split, suits, none, settles⟩ | ⟨none, settles⟩ :=
            settles_firstMatch (q := q) (M := M) (M.types type).methods
          · have split' : earlier ++ (type :: bases).flatMap (fun t => (M.types t).methods) =
                (earlier ++ before) ++ m :: (after ++ bases.flatMap fun t => (M.types t).methods) := by
              simp [split]
            have found := Selects.found split' suits (List.forall_mem_append.mpr ⟨unsuited, none⟩)
            exact ⟨.found m, .bind (.typeInfo type) (.bind settles (.pure _)), found⟩
          · have seen_iff' : (seen || (M.types type).methods.any q.named) = true ↔
                ∃ m ∈ earlier ++ (M.types type).methods, q.Named m := by
              simp [seen_iff, named_iff, or_and_right, exists_or]
            obtain ⟨lookup, rest, selects⟩ := inductionHypothesis (Nat.le_of_succ_le_succ short)
              (List.forall_mem_append.mpr ⟨unsuited, none⟩) seen_iff'
            refine ⟨lookup, .bind (.typeInfo type) (.bind settles rest), ?_⟩
            simpa using selects

end MethodQuery

/-- In a chain of at most 64 types, whose metadata the target reports, the method that is found is
the first one, by the order of the types and then of the declarations, that has the name and suits
the arguments. Where none does, the arguments are to blame exactly if some method has the name. -/
theorem findMethod_selects {q : MethodQuery} {M : Metadata} {type : TypeRef} {types : List TypeRef}
    (lineage : M.types.Lineage (some type) types) (short : types.length ≤ 64) :
    ∃ lookup, q.Selects M (types.flatMap fun t => (M.types t).methods) lookup ∧
      (∃ es, (findMethod q type).run.Plays es (.ok lookup) ∧ ∀ x ∈ es, M.Answers x) ∧
      ∀ es r, (findMethod q type).run.Plays es r → (∀ x ∈ es, M.Reports x) → r = .ok lookup := by
  have unseen : false = true ↔ ∃ m ∈ ([] : List MethodInfo), q.Named m := by simp
  obtain ⟨lookup, ⟨es, played, answers⟩, selects⟩ :=
    q.settles_findMethodIn lineage short (List.forall_mem_nil _) unseen
  refine ⟨lookup, selects, ⟨es, played, answers⟩, fun es' r played' reports => ?_⟩
  exact Metadata.result_eq played answers played' reports

section TwoOverloads

/-- A method `F` with one parameter. -/
def methodF (token : Token) (parameter : String) : MethodInfo :=
  ⟨⟨1, token⟩, "F", rung token, false, [⟨"x", parameter⟩], 0, "System.Void", false⟩

/-- In one type, `F` takes a string, and in its base a `long`. -/
def twoOverloads : Metadata where
  typeOf v := rung v.id.number.toUInt32
  types type :=
    if type.token = 0 then ⟨type, some (rung 1), false, [], [], [methodF 0 "System.String"]⟩
    else ⟨type, none, false, [], [], [methodF 1 "System.Int64"]⟩

/-- The method is asked to take an `int`. -/
def takingInt : MethodQuery := ⟨"F", [.primitive (.i32 5)], 0, false⟩

/-- The overload of the base is found, as an `int` is no string. -/
theorem findMethod_inBase : twoOverloads.types.Lineage (some (rung 0)) [rung 0, rung 1] ∧
    [rung 0, rung 1].length ≤ 64 ∧
    takingInt.Selects twoOverloads [methodF 0 "System.String", methodF 1 "System.Int64"]
      (.found (methodF 1 "System.Int64")) := by
  have lineage : twoOverloads.types.Lineage (some (rung 0)) [rung 0, rung 1] := .cons (.cons .ended)
  obtain ⟨lookup, selects, -, only⟩ := findMethod_selects (q := takingInt) lineage (by decide)
  have played : (findMethod takingInt (rung 0)).run.Plays
      [⟨.native (.typeInfo (rung 0)), .ok (twoOverloads.types (rung 0))⟩,
        ⟨.native (.typeInfo (rung 1)), .ok (twoOverloads.types (rung 1))⟩]
      (.ok (.found (methodF 1 "System.Int64"))) := .perform (.perform (.done _))
  obtain rfl := Except.ok.inj (only _ _ played (by simp [Metadata.Reports]))
  exact ⟨lineage, by decide, selects⟩

end TwoOverloads

end ManagedDebugger
