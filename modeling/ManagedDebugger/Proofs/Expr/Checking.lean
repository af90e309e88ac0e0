import ManagedDebugger.Proofs.Eval.Compiled
import ManagedDebugger.Proofs.Expr.Emissions
import ManagedDebugger.Proofs.Expr.Emitter

/-!
# Overflow checking follows the text

The overflow checking that an instruction carries is the setting of the innermost `checked` or
`unchecked` around the construct that it is emitted for. The wrappers themselves emit nothing, so a
tree without them has the same program but for the settings.
-/

namespace ManagedDebugger.Expr

/-! ## Every instruction carries the setting around its construct -/

/-- The setting that a `checked` or `unchecked` makes for what is in its brackets. -/
def setting? : Expr → Option Bool
  | .checked on _ => some on
  | _ => none

/-- The settings of the wrappers around a place, the outermost first. -/
def settingsAround : Expr → Place → List Bool
  | _, [] => []
  | e, i :: place =>
    e.setting?.toList ++
      match e.parts[i]? with
      | some part => part.settingsAround place
      | none => []

/-- The setting of the innermost wrapper around a place, or the one from outside the tree. -/
def settingAt (outside : Bool) (e : Expr) (place : Place) : Bool :=
  (e.settingsAround place).getLast?.getD outside

/-- The instruction of an emission from a tree. -/
def instructionFor (outside : Bool) (e : Expr) (s : Emission) : Instruction :=
  ⟨s.operation, e.settingAt outside s.place⟩

section Settings

variable {outside : Bool} {e part : Expr} {i : Nat}

theorem settingAt_nil (outside : Bool) (e : Expr) : e.settingAt outside [] = outside := rfl

/-- A wrapper is further out than all that is around the place in its brackets. -/
theorem settingAt_cons (found : e.parts[i]? = some part) (place : Place) :
    e.settingAt outside (i :: place) = part.settingAt (e.setting?.getD outside) place := by
  rw [settingAt, settingsAround, found, List.getLast?_append]
  cases inner : (part.settingsAround place).getLast? with
  | some on => simp [settingAt, inner]
  | none =>
      cases setting : e.setting? with
      | some on => simp [settingAt, inner]
      | none => simp [settingAt, inner]

theorem instructions_atRoot (outside : Bool) (e : Expr) (operations : List Operation) :
    (Emission.atRoot operations).map (e.instructionFor outside) =
      operations.map (⟨·, outside⟩) := by
  simp [Emission.atRoot, instructionFor, settingAt_nil, Function.comp_def]

theorem instructions_under (found : e.parts[i]? = some part) (ss : List Emission) :
    (ss.map (.under i)).map (e.instructionFor outside) =
      ss.map (part.instructionFor (e.setting?.getD outside)) := by
  simp [Emission.under, instructionFor, settingAt_cons found, Function.comp_def]

theorem conditionalCode_eq (conditional on : Bool) :
    conditionalCode conditional on = (conditionalOperations conditional).map (⟨·, on⟩) := by
  cases conditional <;> rfl

theorem split_drop {es rest : List Expr} (split : es.drop i = e :: rest) :
    es[i]? = some e ∧ es.drop (i + 1) = rest := by
  constructor
  · rw [← List.head?_drop, split]
    rfl
  · rw [← List.tail_drop, split]
    rfl

end Settings

-- By induction on the tree, for every setting from outside: a wrapper compiles its body in a setting of
-- its own, and all other constructs hand on the one that they were given.
mutual

theorem code_eq_instructions (e : Expr) {on : Bool} {code : Code}
    (compiled : e.code on = .ok code) : code = e.emissions.map (e.instructionFor on) := by
  cases e with
  | literal l => exact (Except.ok.inj compiled).symm
  | identifier name => exact (Except.ok.inj compiled).symm
  | generic name arguments =>
      obtain ⟨i, named, compiled⟩ := Except.bind_eq_ok_iff.mp compiled
      obtain rfl := EvalScope.nameCode_eq_ok on named
      exact (Except.ok.inj compiled).symm
  | this => exact (Except.ok.inj compiled).symm
  | predefined runtimeName => exact (Except.ok.inj compiled).symm
  | member target name arguments conditional =>
      obtain ⟨t, compiledTarget, compiled⟩ := Except.bind_eq_ok_iff.mp compiled
      obtain ⟨i, named, compiled⟩ := Except.bind_eq_ok_iff.mp compiled
      obtain rfl := EvalScope.nameCode_eq_ok on named
      obtain rfl := Except.ok.inj compiled
      obtain rfl := code_eq_instructions target compiledTarget
      simp only [emissions, List.map_append, instructions_atRoot, conditionalCode_eq]
      rw [instructions_under rfl]
      rfl
  | element target indices conditional =>
      cases indices with
      | nil => cases compiled
      | cons first rest =>
          obtain ⟨t, compiledTarget, compiled⟩ := Except.bind_eq_ok_iff.mp compiled
          obtain ⟨is, compiledIndices, compiled⟩ := Except.bind_eq_ok_iff.mp compiled
          obtain rfl := Except.ok.inj compiled
          obtain rfl := code_eq_instructions target compiledTarget
          have behind : (element target (first :: rest) conditional).parts.drop 1 = first :: rest :=
            rfl
          obtain rfl := codeAll_eq_instructions (first :: rest) compiledIndices behind rfl
          simp only [emissions, List.map_append, instructions_atRoot, conditionalCode_eq]
          rw [instructions_under rfl]
          rfl
  | invocation target arguments =>
      obtain ⟨⟨⟩, callable, compiled⟩ := Except.bind_eq_ok_iff.mp compiled
      obtain ⟨t, compiledTarget, compiled⟩ := Except.bind_eq_ok_iff.mp compiled
      obtain ⟨as, compiledArguments, compiled⟩ := Except.bind_eq_ok_iff.mp compiled
      obtain rfl := Except.ok.inj compiled
      obtain rfl := code_eq_instructions target compiledTarget
      have behind : (invocation target arguments).parts.drop 1 = arguments := rfl
      obtain rfl := codeAll_eq_instructions arguments compiledArguments behind rfl
      simp only [emissions, List.map_append, instructions_atRoot]
      rw [instructions_under rfl]
      rfl
  | unary op operand =>
      obtain ⟨x, compiledOperand, compiled⟩ := Except.bind_eq_ok_iff.mp compiled
      obtain rfl := Except.ok.inj compiled
      obtain rfl := code_eq_instructions operand compiledOperand
      rw [emissions, List.map_append, instructions_under rfl, instructions_atRoot]
      rfl
  | binary op left right =>
      obtain ⟨l, compiledLeft, compiled⟩ := Except.bind_eq_ok_iff.mp compiled
      obtain ⟨r, compiledRight, compiled⟩ := Except.bind_eq_ok_iff.mp compiled
      obtain rfl := Except.ok.inj compiled
      obtain rfl := code_eq_instructions left compiledLeft
      obtain rfl := code_eq_instructions right compiledRight
      have atLeft : (binary op left right).parts[0]? = some left := rfl
      have atRight : (binary op left right).parts[1]? = some right := rfl
      rw [emissions, List.map_append, List.map_append, instructions_under atLeft,
        instructions_under atRight, instructions_atRoot]
      rfl
  | checked setting body =>
      obtain rfl := code_eq_instructions body compiled
      rw [emissions, instructions_under rfl]
      rfl
  | sizeOf type => exact (Except.ok.inj compiled).symm
  | interpolated pieces =>
      obtain ⟨holes, compiledHoles, compiled⟩ := Except.bind_eq_ok_iff.mp compiled
      obtain rfl := Except.ok.inj compiled
      have all : (interpolated pieces).parts.drop 0 = holesOf pieces := rfl
      obtain rfl := codePieces_eq_instructions pieces compiledHoles all rfl
      rw [emissions, List.map_append, instructions_atRoot]
      rfl
  | unsupported keyword => cases compiled

/-- The parts that a construct has from some number on, in the setting that it has for its parts. -/
theorem codeAll_eq_instructions (es : List Expr) {on : Bool} {code : Code}
    (compiled : codeAll on es = .ok code) {outside : Bool} {e : Expr} {before : Nat}
    (among : e.parts.drop before = es) (setting : e.setting?.getD outside = on) :
    code = (emissionsAll before es).map (e.instructionFor outside) := by
  cases es with
  | nil => exact (Except.ok.inj compiled).symm
  | cons first rest =>
      obtain ⟨c, compiledFirst, compiled⟩ := Except.bind_eq_ok_iff.mp compiled
      obtain ⟨cs, compiledRest, compiled⟩ := Except.bind_eq_ok_iff.mp compiled
      obtain rfl := Except.ok.inj compiled
      obtain ⟨found, others⟩ := split_drop among
      obtain rfl := code_eq_instructions first compiledFirst
      obtain rfl := codeAll_eq_instructions rest compiledRest others setting
      rw [emissionsAll, List.map_append, instructions_under found, setting]

theorem codePieces_eq_instructions (pieces : List (Piece Expr)) {on : Bool} {code : Code}
    (compiled : codePieces on pieces = .ok code) {outside : Bool} {e : Expr} {before : Nat}
    (among : e.parts.drop before = holesOf pieces) (setting : e.setting?.getD outside = on) :
    code = (emissionsOfHoles before pieces).map (e.instructionFor outside) := by
  cases pieces with
  | nil => exact (Except.ok.inj compiled).symm
  | cons piece rest =>
      cases piece with
      | text t => exact codePieces_eq_instructions rest compiled among setting
      | hole first =>
          obtain ⟨c, compiledFirst, compiled⟩ := Except.bind_eq_ok_iff.mp compiled
          obtain ⟨cs, compiledRest, compiled⟩ := Except.bind_eq_ok_iff.mp compiled
          obtain rfl := Except.ok.inj compiled
          obtain ⟨found, others⟩ := split_drop among
          obtain rfl := code_eq_instructions first compiledFirst
          obtain rfl := codePieces_eq_instructions rest compiledRest others setting
          rw [emissionsOfHoles, List.map_append, instructions_under found, setting]

end

/-! ## Trees without wrappers -/

mutual

/-- The tree without its `checked` and `unchecked`. -/
def bare : Expr → Expr
  | literal l => literal l
  | identifier name => identifier name
  | generic name arguments => generic name arguments
  | this => this
  | predefined runtimeName => predefined runtimeName
  | member target name arguments conditional => member target.bare name arguments conditional
  | element target indices conditional => element target.bare (bareAll indices) conditional
  | invocation target arguments => invocation target.bare (bareAll arguments)
  | unary op operand => unary op operand.bare
  | binary op left right => binary op left.bare right.bare
  | .checked _ body => body.bare
  | sizeOf type => sizeOf type
  | interpolated pieces => interpolated (barePieces pieces)
  | unsupported keyword => unsupported keyword

def bareAll : List Expr → List Expr
  | [] => []
  | e :: rest => e.bare :: bareAll rest

def barePieces : List (Piece Expr) → List (Piece Expr)
  | [] => []
  | .text t :: rest => .text t :: barePieces rest
  | .hole e :: rest => .hole e.bare :: barePieces rest

end

theorem bareAll_eq_map (es : List Expr) : bareAll es = es.map bare := by
  induction es with
  | nil => rfl
  | cons e rest inductionHypothesis => exact congrArg (e.bare :: ·) inductionHypothesis

theorem holesOf_bare (pieces : List (Piece Expr)) :
    holesOf (barePieces pieces) = (holesOf pieces).map bare := by
  induction pieces with
  | nil => rfl
  | cons piece rest inductionHypothesis =>
      cases piece with
      | text t => exact inductionHypothesis
      | hole e => exact congrArg (e.bare :: ·) inductionHypothesis

theorem erase_bare (pieces : List (Piece Expr)) :
    (barePieces pieces).map Piece.erase = pieces.map Piece.erase := by
  induction pieces with
  | nil => rfl
  | cons piece rest inductionHypothesis =>
      cases piece with
      | text t => exact congrArg (Piece.text t :: ·) inductionHypothesis
      | hole e => exact congrArg (Piece.hole () :: ·) inductionHypothesis

/-- What is left of wrappers is the construct in them. -/
theorem exists_construct (e : Expr) : ∃ inner : Expr, inner.setting? = none ∧ e.bare = inner.bare := by
  cases e with
  | checked on body => exact exists_construct body
  | _ => exact ⟨_, rfl, rfl⟩

theorem setting?_bare {e : Expr} (isConstruct : e.setting? = none) : e.bare.setting? = none := by
  cases e <;> first | rfl | cases isConstruct

theorem parts_bare {e : Expr} (isConstruct : e.setting? = none) :
    e.bare.parts = e.parts.map bare := by
  cases e with
  | checked on body => cases isConstruct
  | _ => simp [bare, parts, bareAll_eq_map, holesOf_bare]

/-- No wrapper is left at any depth. -/
theorem settingsAround_bare (e : Expr) (place : Place) : e.bare.settingsAround place = [] := by
  induction place generalizing e with
  | nil => rfl
  | cons i place inductionHypothesis =>
      obtain ⟨construct, isConstruct, same⟩ := exists_construct e
      rw [same, settingsAround, setting?_bare isConstruct, parts_bare isConstruct,
        List.getElem?_map]
      cases construct.parts[i]? with
      | none => rfl
      | some part => exact inductionHypothesis part

/-- What can be called is no wrapper. -/
theorem callable_bare {e : Expr} (callable : e.callable = .ok ()) : e.bare.callable = .ok () := by
  cases e <;> first | rfl | cases callable

section Resetting

variable {on : Bool} (on' : Bool)

/-- The same program with one setting throughout. -/
def withSetting (on : Bool) (code : Code) : Code := code.map fun i => ⟨i.operation, on⟩

theorem withSetting_append (front back : Code) :
    withSetting on' (front ++ back) = withSetting on' front ++ withSetting on' back :=
  List.map_append

theorem withSetting_conditionalCode (conditional : Bool) :
    withSetting on' (conditionalCode conditional on) = conditionalCode conditional on' := by
  cases conditional <;> rfl

theorem nameCode_withSetting {name : String} {arguments : Option (List TypeExpr)} {i : Instruction}
    (named : nameCode name on arguments = .ok i) :
    nameCode name on' arguments = .ok ⟨i.operation, on'⟩ := by
  obtain rfl := EvalScope.nameCode_eq_ok on named
  cases arguments with
  | none => rfl
  | some arguments =>
      cases arguments with
      | nil => cases named
      | cons t rest => rfl

end Resetting

mutual

theorem code_bare (e : Expr) {on : Bool} {code : Code} (compiled : e.code on = .ok code)
    (on' : Bool) : e.bare.code on' = .ok (withSetting on' code) := by
  cases e with
  | literal l =>
      obtain rfl := Except.ok.inj compiled
      rfl
  | identifier name =>
      obtain rfl := Except.ok.inj compiled
      rfl
  | generic name arguments =>
      obtain ⟨i, named, compiled⟩ := Except.bind_eq_ok_iff.mp compiled
      obtain rfl := Except.ok.inj compiled
      rw [bare, Expr.code, nameCode_withSetting on' named]
      rfl
  | this =>
      obtain rfl := Except.ok.inj compiled
      rfl
  | predefined runtimeName =>
      obtain rfl := Except.ok.inj compiled
      rfl
  | member target name arguments conditional =>
      obtain ⟨t, compiledTarget, compiled⟩ := Except.bind_eq_ok_iff.mp compiled
      obtain ⟨i, named, compiled⟩ := Except.bind_eq_ok_iff.mp compiled
      obtain rfl := Except.ok.inj compiled
      rw [bare, Expr.code, code_bare target compiledTarget on', nameCode_withSetting on' named,
        withSetting_append, withSetting_append, withSetting_conditionalCode]
      rfl
  | element target indices conditional =>
      cases indices with
      | nil => cases compiled
      | cons first rest =>
          obtain ⟨t, compiledTarget, compiled⟩ := Except.bind_eq_ok_iff.mp compiled
          obtain ⟨is, compiledIndices, compiled⟩ := Except.bind_eq_ok_iff.mp compiled
          obtain rfl := Except.ok.inj compiled
          rw [bare, Expr.code, code_bare target compiledTarget on',
            codeAll_bare (first :: rest) compiledIndices on', withSetting_append,
            withSetting_append, withSetting_append, withSetting_conditionalCode, bareAll_eq_map,
            List.length_map]
          rfl
  | invocation target arguments =>
      obtain ⟨⟨⟩, callable, compiled⟩ := Except.bind_eq_ok_iff.mp compiled
      obtain ⟨t, compiledTarget, compiled⟩ := Except.bind_eq_ok_iff.mp compiled
      obtain ⟨as, compiledArguments, compiled⟩ := Except.bind_eq_ok_iff.mp compiled
      obtain rfl := Except.ok.inj compiled
      rw [bare, Expr.code, callable_bare callable, code_bare target compiledTarget on',
        codeAll_bare arguments compiledArguments on', withSetting_append, withSetting_append,
        bareAll_eq_map, List.length_map]
      rfl
  | unary op operand =>
      obtain ⟨x, compiledOperand, compiled⟩ := Except.bind_eq_ok_iff.mp compiled
      obtain rfl := Except.ok.inj compiled
      rw [bare, Expr.code, code_bare operand compiledOperand on', withSetting_append]
      rfl
  | binary op left right =>
      obtain ⟨l, compiledLeft, compiled⟩ := Except.bind_eq_ok_iff.mp compiled
      obtain ⟨r, compiledRight, compiled⟩ := Except.bind_eq_ok_iff.mp compiled
      obtain rfl := Except.ok.inj compiled
      rw [bare, Expr.code, code_bare left compiledLeft on', code_bare right compiledRight on',
        withSetting_append, withSetting_append]
      rfl
  | checked setting body => exact code_bare body compiled on'
  | sizeOf type =>
      obtain rfl := Except.ok.inj compiled
      rfl
  | interpolated pieces =>
      obtain ⟨holes, compiledHoles, compiled⟩ := Except.bind_eq_ok_iff.mp compiled
      obtain rfl := Except.ok.inj compiled
      rw [bare, Expr.code, codePieces_bare pieces compiledHoles on', withSetting_append, erase_bare]
      rfl
  | unsupported keyword => cases compiled

theorem codeAll_bare (es : List Expr) {on : Bool} {code : Code}
    (compiled : codeAll on es = .ok code) (on' : Bool) :
    codeAll on' (bareAll es) = .ok (withSetting on' code) := by
  cases es with
  | nil =>
      obtain rfl := Except.ok.inj compiled
      rfl
  | cons e rest =>
      obtain ⟨c, compiledFirst, compiled⟩ := Except.bind_eq_ok_iff.mp compiled
      obtain ⟨cs, compiledRest, compiled⟩ := Except.bind_eq_ok_iff.mp compiled
      obtain rfl := Except.ok.inj compiled
      rw [bareAll, codeAll, code_bare e compiledFirst on', codeAll_bare rest compiledRest on',
        withSetting_append]
      rfl

theorem codePieces_bare (pieces : List (Piece Expr)) {on : Bool} {code : Code}
    (compiled : codePieces on pieces = .ok code) (on' : Bool) :
    codePieces on' (barePieces pieces) = .ok (withSetting on' code) := by
  cases pieces with
  | nil =>
      obtain rfl := Except.ok.inj compiled
      rfl
  | cons piece rest =>
      cases piece with
      | text t => exact codePieces_bare rest compiled on'
      | hole e =>
          obtain ⟨c, compiledFirst, compiled⟩ := Except.bind_eq_ok_iff.mp compiled
          obtain ⟨cs, compiledRest, compiled⟩ := Except.bind_eq_ok_iff.mp compiled
          obtain rfl := Except.ok.inj compiled
          rw [barePieces, codePieces, code_bare e compiledFirst on',
            codePieces_bare rest compiledRest on', withSetting_append]
          rfl

end

/-- In the program of a tree, the operations for the construct at each place are the construct's own,
and each instruction carries the setting of the innermost wrapper around its construct; none counts as
`unchecked`. Without its wrappers the tree has the same program but for the settings. It is also what
comes about with a single setting that every wrapper puts back. -/
theorem checking_lexical {e : Expr} {code : Code} (compiled : e.code false = .ok code) :
    code = e.emissions.map (fun s =>
        ⟨s.operation, (e.settingsAround s.place).getLast?.getD false⟩) ∧
      (∀ place, Emission.operationsAt e.emissions place =
        match e.at? place with
        | some construct => construct.operations
        | none => []) ∧
      e.bare.code false = .ok (code.map fun i => ⟨i.operation, false⟩) ∧
      (∀ place, e.bare.settingsAround place = []) ∧
      Emit.visit e ⟨[], false⟩ = .ok () ⟨code, false⟩ := by
  have bareCompiled := code_bare e compiled false
  have emitted := Emit.visit_of_code compiled []
  exact ⟨code_eq_instructions e compiled, operationsAt_emissions e, bareCompiled,
    settingsAround_bare e, emitted⟩

/-- `checked(a?[unchecked(b * c)].M(-d)) + $"{checked(e)}!"` -/
def mixedChecking : Expr :=
  .binary .add
    (.checked true
      (.invocation
        (.member
          (.element (.identifier "a")
            [.checked false (.binary .mul (.identifier "b") (.identifier "c"))] true)
          "M" none false)
        [.unary .minus (.identifier "d")]))
    (.interpolated [.hole (.checked true (.identifier "e")), .text "!"])

def mixedCode : Code :=
  [⟨.name "a" [], true⟩, ⟨.conditionalAccess, true⟩, ⟨.name "b" [], false⟩, ⟨.name "c" [], false⟩,
    ⟨.binary .mul, false⟩, ⟨.elementAccess 1, true⟩, ⟨.name "M" [], true⟩, ⟨.memberAccess, true⟩,
    ⟨.name "d" [], true⟩, ⟨.unary .minus, true⟩, ⟨.invocation 1, true⟩, ⟨.name "e" [], true⟩,
    ⟨.interpolate [.hole (), .text "!"], false⟩, ⟨.binary .add, false⟩]

theorem checking_lexical_mixed : mixedChecking.code false = .ok mixedCode ∧
    mixedCode = mixedChecking.emissions.map (fun s =>
        ⟨s.operation, (mixedChecking.settingsAround s.place).getLast?.getD false⟩) ∧
      (∀ place, Emission.operationsAt mixedChecking.emissions place =
        match mixedChecking.at? place with
        | some construct => construct.operations
        | none => []) ∧
      mixedChecking.bare.code false = .ok (mixedCode.map fun i => ⟨i.operation, false⟩) ∧
      (∀ place, mixedChecking.bare.settingsAround place = []) ∧
      Emit.visit mixedChecking ⟨[], false⟩ = .ok () ⟨mixedCode, false⟩ :=
  ⟨rfl, checking_lexical rfl⟩

end ManagedDebugger.Expr
