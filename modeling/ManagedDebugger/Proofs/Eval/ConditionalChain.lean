import ManagedDebugger.Proofs.Eval.Compiled

/-!
# Chains that meet null

A conditional access that meets null marks its entry, and every link of the chain that follows
passes the entry on. The operands of these links stand before them in the code, so they are
evaluated all the same: the chain is null once all indices and arguments of its links have been
evaluated, in order, and none of them fails.
-/

namespace ManagedDebugger

/-- One step of a chain. -/
inductive Link where
  | member (name : String) (typeArguments : Option (List TypeExpr)) (conditional : Bool)
  | element (indices : List Expr) (conditional : Bool)
  | call (arguments : List Expr)

namespace Link

def on (target : Expr) : Link → Expr
  | member name typeArguments conditional => .member target name typeArguments conditional
  | element indices conditional => .element target indices conditional
  | call arguments => .invocation target arguments

def isConditional : Link → Bool
  | member _ _ conditional | element _ conditional => conditional
  | call _ => false

/-- The trees that are evaluated for the link itself. -/
def operands : Link → List Expr
  | member .. => []
  | element indices _ => indices
  | call arguments => arguments

end Link

/-- A tree with a chain of links on top. -/
def Expr.chain (target : Expr) : List Link → Expr
  | [] => target
  | link :: rest => (link.on target).chain rest

namespace Eval

variable {α β : Type} {p : Eval α} {f : α → Eval β} {es es' : List (Exchange evalEffect)}

theorem plays_bind_ok_iff {b : β} :
    (p >>= f).run.Plays es (.ok b) ↔ ∃ first a second,
      p.run.Plays first (.ok a) ∧ (f a).run.Plays second (.ok b) ∧ es = first ++ second := by
  constructor
  · intro played
    obtain ⟨first, r, second, left, right, rfl⟩ := Program.plays_bind_iff.mp played
    cases r with
    | ok a => exact ⟨first, a, second, left, right, rfl⟩
    | error e => cases right
  · intro holds
    obtain ⟨first, a, second, left, right, rfl⟩ := holds
    exact Program.Plays.bind left right

/-- What follows a part that has succeeded. -/
theorem plays_after_iff {a : α} {r : Except EvalError β} (left : p.run.Plays es (.ok a)) :
    (p >>= f).run.Plays (es ++ es') r ↔ (f a).run.Plays es' r :=
  ⟨fun whole => Program.Plays.after (f := ExceptT.bindCont f) left whole,
    fun right => Program.Plays.bind left right⟩

end Eval

namespace EvalScope

variable (s : EvalScope) (checked : Bool)

def evaluateAll (es : List Expr) : Eval (List EvalValue) := do
  let xs ← Expr.walkAll s .onUse checked es
  s.resolveValues xs

/-- A link on top of an entry, after the check for null. -/
def take (link : Link) (x : StackEntry) : Eval StackEntry :=
  match link with
  | .member name typeArguments _ => return x.access ⟨name, typeArguments.getD []⟩
  | .element indices _ => do
    let is ← s.evaluateAll checked indices
    s.elementEntry x is
  | .call arguments => do
    let as ← s.evaluateAll checked arguments
    s.invocationEntry x as

def follow : List Link → StackEntry → Eval StackEntry
  | [], x => return x
  | link :: rest, x => do
    let x ← s.guardedIf link.isConditional x
    let x ← s.take checked link x
    follow rest x

/-- All that is left of a chain that met null. -/
def skip : List Link → Eval Unit
  | [] => return ()
  | link :: rest => do
    let _ ← s.evaluateAll checked link.operands
    skip rest

variable {s checked}

theorem walk_on (link : Link) (target : Expr) :
    (link.on target).walk s .onUse checked = (do
      let x ← target.walk s .onUse checked
      let x ← s.guardedIf link.isConditional x
      s.take checked link x) := by
  cases link with
  | member name typeArguments conditional => rfl
  | element indices conditional =>
      simp only [Link.on, Expr.walk, Link.isConditional, take, indexed_onUse, pure_bind,
        evaluateAll, bind_assoc]
  | call arguments =>
      simp only [Link.on, Expr.walk, Link.isConditional, take, called_onUse, pure_bind,
        evaluateAll, bind_assoc, guardedIf, Bool.false_eq_true, if_false]

theorem walk_chain (links : List Link) (target : Expr) :
    (target.chain links).walk s .onUse checked =
      target.walk s .onUse checked >>= s.follow checked links := by
  induction links generalizing target with
  | nil => exact (bind_pure _).symm
  | cons link rest inductionHypothesis =>
      rw [Expr.chain, inductionHypothesis, walk_on]
      simp only [bind_assoc, follow]

theorem guardedIf_skipped (conditional : Bool) {x : StackEntry} (skipped : x.skipped = true) :
    s.guardedIf conditional x = pure x := by
  cases conditional with
  | false => rfl
  | true =>
      change s.guarded x = pure x
      rw [guarded, if_pos skipped]

/-- A link passes on an entry that met null, after its own operands. -/
theorem take_skipped (link : Link) {x : StackEntry} (skipped : x.skipped = true) :
    s.take checked link x = (do
      let _ ← s.evaluateAll checked link.operands
      return x) := by
  cases link with
  | member name typeArguments conditional =>
      simp [take, StackEntry.access, skipped, Link.operands, evaluateAll, Expr.walkAll,
        resolveValues]
  | element indices conditional => simp [take, elementEntry, skipped, Link.operands]
  | call arguments => simp [take, invocationEntry, skipped, Link.operands]

theorem follow_skipped (links : List Link) {x : StackEntry} (skipped : x.skipped = true) :
    s.follow checked links x = (do
      s.skip checked links
      return x) := by
  induction links with
  | nil => exact (pure_bind _ _).symm
  | cons link rest inductionHypothesis =>
      simp only [follow, guardedIf_skipped _ skipped, take_skipped link skipped,
        inductionHypothesis, skip, bind_assoc, pure_bind]

/-- A target that evaluates to null leaves an entry that met null, and the check for null does
nothing more than the evaluation did. -/
theorem plays_guarded {target : Expr} {es : List (Exchange evalEffect)} {v : Evaluated}
    (evaluated : (target.evaluate s .onUse checked).run.Plays es (.ok v))
    (null : v.value.isNull = true) :
    ∃ x, (target.walk s .onUse checked >>= s.guarded).run.Plays es (.ok x) ∧
      x.skipped = true := by
  obtain ⟨walked, x, more, left, right, rfl⟩ := Eval.plays_bind_ok_iff.mp evaluated
  obtain ⟨resolved, ⟨r, editable⟩, last, bound, ended, rfl⟩ := Eval.plays_bind_ok_iff.mp right
  have isNull : r.isNull = true ∧ last = [] := by
    cases r with
    | value w =>
        obtain ⟨rfl, same⟩ := Program.plays_done_iff.mp ended
        obtain rfl := Except.ok.inj same
        exact ⟨null, rfl⟩
    | type t =>
        obtain ⟨_, failed⟩ := Program.plays_done_iff.mp ended
        cases failed
  obtain ⟨isNull, rfl⟩ := isNull
  rw [List.append_nil]
  cases skipped : x.skipped with
  | true =>
      rw [resolve, if_pos skipped] at bound
      obtain ⟨rfl, -⟩ := Program.plays_done_iff.mp bound
      refine ⟨x, Eval.plays_bind_ok_iff.mpr ⟨walked, x, [], left, ?_, rfl⟩, skipped⟩
      rw [guarded, if_pos skipped]
      exact .done _
  | false =>
      refine ⟨.null editable, Eval.plays_bind_ok_iff.mpr ⟨walked, x, resolved, left, ?_, rfl⟩, rfl⟩
      rw [guarded, if_neg (Bool.eq_false_iff.mp skipped)]
      refine Eval.plays_bind_ok_iff.mpr ⟨resolved, (r, editable), [], bound, ?_, by simp⟩
      simp only [isNull, if_true]
      exact .done _

/-- The chain of a target that is null. -/
def nullChain (s : EvalScope) (checked : Bool) (links : List Link) : Eval Evaluated := do
  s.skip checked links
  return ⟨.null, false⟩

/-- A chain that starts with a check for null, after that check. -/
theorem evaluate_chain (target : Expr) {first : Link} (conditional : first.isConditional = true)
    (rest : List Link) :
    (target.chain (first :: rest)).evaluate s .onUse checked = (do
      let x ← target.walk s .onUse checked >>= s.guarded
      let x ← s.take checked first x
      let x ← s.follow checked rest x
      let (r, editable) ← s.resolve x
      let v ← r.toValue
      return ⟨v, editable⟩) := by
  simp only [Expr.evaluate, walk_chain, follow, conditional, guardedIf, if_true, bind_assoc]

theorem rest_eq_nullChain (first : Link) (rest : List Link) {x : StackEntry}
    (skipped : x.skipped = true) :
    (do
      let x ← s.take checked first x
      let x ← s.follow checked rest x
      let (r, editable) ← s.resolve x
      let v ← r.toValue
      return ⟨v, editable⟩) = s.nullChain checked (first :: rest) := by
  simp only [take_skipped first skipped, follow_skipped rest skipped, bind_assoc, pure_bind,
    resolve, skipped, if_true, Resolved.toValue, nullChain, skip]

/-- What is left is nothing at all exactly if the operands do nothing. -/
theorem nullChain_only_iff (links : List Link) :
    (∀ es r, (s.nullChain checked links).run.Plays es r → es = [] ∧ r = .ok ⟨.null, false⟩) ↔
      s.skip checked links = pure () := by
  constructor
  · intro only
    refine Program.eq_done_of_plays (E := evalEffect) oneReply fun es r played => ?_
    cases r with
    | ok done =>
        have whole : (s.nullChain checked links).run.Plays es (.ok ⟨.null, false⟩) :=
          Eval.plays_bind_ok_iff.mpr ⟨es, done, [], played, .done _, (List.append_nil es).symm⟩
        exact ⟨(only es _ whole).1, rfl⟩
    | error e =>
        have whole : (s.nullChain checked links).run.Plays (es ++ []) (.error e) :=
          Program.Plays.bind played (.done _)
        cases (only _ _ whole).2
  · intro nothing es r played
    rw [nullChain, nothing, pure_bind] at played
    obtain ⟨rfl, rfl⟩ := Program.plays_done_iff.mp played
    exact ⟨rfl, rfl⟩

end EvalScope

theorem Link.code_on {link : Link} {target : Expr} {checked : Bool} {code : Code}
    (compiled : (link.on target).code checked = .ok code) :
    ∃ c, target.code checked = .ok c := by
  cases link with
  | member name typeArguments conditional =>
      obtain ⟨c, compiledTarget, -⟩ := Except.bind_eq_ok_iff.mp compiled
      exact ⟨c, compiledTarget⟩
  | element indices conditional =>
      cases indices with
      | nil => cases compiled
      | cons index rest =>
          obtain ⟨c, compiledTarget, -⟩ := Except.bind_eq_ok_iff.mp compiled
          exact ⟨c, compiledTarget⟩
  | call arguments =>
      obtain ⟨⟨⟩, -, compiled⟩ := Except.bind_eq_ok_iff.mp compiled
      obtain ⟨c, compiledTarget, -⟩ := Except.bind_eq_ok_iff.mp compiled
      exact ⟨c, compiledTarget⟩

theorem Expr.code_chain {links : List Link} {target : Expr} {checked : Bool} {code : Code}
    (compiled : (target.chain links).code checked = .ok code) :
    ∃ c, target.code checked = .ok c := by
  induction links generalizing target with
  | nil => exact ⟨code, compiled⟩
  | cons link rest inductionHypothesis =>
      obtain ⟨c, compiledLink⟩ := inductionHypothesis compiled
      exact link.code_on compiledLink

/-- Once the target of a conditional access has come to null, a chain on top of it only evaluates
the operands of its links, and then it is null. So it does nothing and fails with nothing exactly if
these operands do nothing. -/
theorem run_chain_null (s : EvalScope) {target : Expr} {first : Link} {rest : List Link}
    (conditional : first.isConditional = true) {checked : Bool} {code : Code}
    (compiled : (target.chain (first :: rest)).code checked = .ok code) :
    ∃ c, target.code checked = .ok c ∧
      ∀ es v, (s.run c).run.Plays es (.ok v) → v.value.isNull = true →
        (∀ es' r, (s.run code).run.Plays (es ++ es') r ↔
          (s.nullChain checked (first :: rest)).run.Plays es' r) ∧
        ((∀ es' r, (s.run code).run.Plays (es ++ es') r → es' = [] ∧ r = .ok ⟨.null, false⟩) ↔
          s.skip checked (first :: rest) = pure ()) := by
  obtain ⟨c, compiledTarget⟩ := Expr.code_chain compiled
  refine ⟨c, compiledTarget, fun es v evaluated null => ?_⟩
  rw [s.run_code compiledTarget] at evaluated
  obtain ⟨x, guarded, skipped⟩ := EvalScope.plays_guarded evaluated null
  have after (es' : List (Exchange evalEffect)) (r : Except EvalError Evaluated) :
      (s.run code).run.Plays (es ++ es') r ↔
        (s.nullChain checked (first :: rest)).run.Plays es' r := by
    rw [s.run_code compiled, EvalScope.evaluate_chain target conditional rest,
      Eval.plays_after_iff guarded, EvalScope.rest_eq_nullChain first rest skipped]
  refine ⟨after, ?_⟩
  simp only [after]
  exact EvalScope.nullChain_only_iff (first :: rest)

section NullLiteral

def nullLiteral : Expr := .literal .null

/-- Two members of null, where the first one is accessed on a condition. -/
def membersOfNull : List Link := [.member "M" none true, .member "N" none false]

/-- A method of null, accessed on a condition, with a call as its argument. -/
def callOfNull : List Link :=
  [.member "M" none true, .call [.invocation (.identifier "F") []]]

theorem run_membersOfNull : ∃ code, (nullLiteral.chain membersOfNull).code false = .ok code ∧
    ∀ es r, (EvalScope.run ⟨innermost, .empty⟩ code).run.Plays es r →
      es = [] ∧ r = .ok ⟨.null, false⟩ := by
  refine ⟨_, rfl, ?_⟩
  have compiled : (nullLiteral.chain (.member "M" none true :: [.member "N" none false])).code
      false = .ok _ := rfl
  obtain ⟨c, compiled, after⟩ := run_chain_null ⟨innermost, .empty⟩ rfl compiled
  obtain rfl := Except.ok.inj compiled
  exact (after [] ⟨.null, false⟩ (.done _) rfl).2.mpr rfl

/-- An argument of a chain that has met null is evaluated, with the call in it. -/
theorem call_after_null : ∃ target code, nullLiteral.code false = .ok target ∧
    (nullLiteral.chain callOfNull).code false = .ok code ∧
    callsOf (target.evaluate innermost) = ([], some ⟨.null, false⟩) ∧
    callsOf (code.evaluate innermost) = ([⟨1, 2⟩], some ⟨.null, false⟩) :=
  ⟨_, _, rfl, rfl, by decide +kernel, by decide +kernel⟩

end NullLiteral

end ManagedDebugger
