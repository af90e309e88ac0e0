import ManagedDebugger.Proofs.Expr.Terms

/-!
# Chains of names and numbers

Names and whole numbers, with unary operators in front of them and binary operators between them,
are read as one expression: the one that the table of precedence makes of them.
-/

namespace ManagedDebugger.Expr

open Text
open Text.Scan

/-- A name that is no keyword, or a whole number in decimal digits. -/
inductive Atom where
  | name (n : String) (isName : isName n = true) (free : isKeyword n = false)
  | number (digits : List Char) (nonempty : digits ≠ [])
      (decimal : ∀ d ∈ digits, d.isDigit = true) (small : decimalValue digits < UInt64.size)

namespace Atom

def text : Atom → List Char
  | name n _ _ => n.toList
  | number digits _ _ _ => digits

def expr : Atom → Expr
  | name n _ _ => .identifier n
  | number digits _ _ _ => .literal (.primitive (wholeNumber (decimalValue digits)))

end Atom

/-- An atom with unary operators in front. -/
structure PrefixedAtom where
  ops : List UnaryOp
  atom : Atom

namespace PrefixedAtom

def text (a : PrefixedAtom) : List Char := a.ops.flatMap (·.symbol.toList) ++ a.atom.text

def expr (a : PrefixedAtom) : Expr := a.ops.foldr .unary a.atom.expr

/-- Operands are read as they are written. -/
def spelling : Spelling PrefixedAtom := ⟨text, expr⟩

end PrefixedAtom

/-- The operands of a chain, with blanks around the operators between them. -/
def chainText (c : Chain PrefixedAtom) : String :=
  String.ofList (c.first.text ++ PrefixedAtom.spelling.behind [] c.rest)

/-! ## No parentheses, no points -/

theorem symbol_of_not_mem {text : String} {c : Char} {more w : List Char}
    (start : text.toList = c :: more) (absent : c ∉ w) : symbol text w = none := by
  cases found : symbol text w with
  | none => rfl
  | some x =>
      obtain ⟨v, same, -⟩ := symbol_eq_some_iff.mp found
      have isElement : c ∈ skipBlanks w := by
        rw [same, start]
        exact List.mem_cons_self
      exact absurd ((skipBlanks_suffix w).subset isElement) absent

theorem typeArguments_of_not_mem {w : List Char} (noCall : '(' ∉ w) (noDot : '.' ∉ w)
    (depth : Nat) : typeArguments depth w = none := by
  cases found : typeArguments depth w with
  | none => rfl
  | some x =>
      obtain ⟨arguments, r⟩ := x
      obtain ⟨_, v, list, rest⟩ := bind_eq_some_iff.mp found
      have suffix := (leaves_typeList (leaves_typeName depth) w _ v list).1
      have call : symbol "(" v = none :=
        symbol_of_not_mem rfl fun inside => noCall (suffix.subset inside)
      have dot : symbol "." v = none :=
        symbol_of_not_mem rfl fun inside => noDot (suffix.subset inside)
      have next : ahead (symbol "(" <|> symbol ".") v = none := by
        rw [ahead, (orElse_of_none call).trans dot]
        rfl
      rw [bind_of_none next] at rest
      cases rest

/-- The characters of chains. -/
def plain (c : Char) : Prop := c ≠ '(' ∧ c ≠ '.'

theorem plain_of_not_mem {cs : List Char} (noCall : '(' ∉ cs) (noDot : '.' ∉ cs) {c : Char}
    (isElement : c ∈ cs) : plain c :=
  ⟨ne_of_mem_of_not_mem isElement noCall, ne_of_mem_of_not_mem isElement noDot⟩

theorem plain_of_isNameChar {c : Char} (isChar : isNameChar c = true) : plain c := by
  constructor
  all_goals
    rintro rfl
    cases isChar

theorem Atom.plain_of_mem {a : Atom} {c : Char} (isElement : c ∈ a.text) : plain c := by
  cases a with
  | name n isName free =>
      exact plain_of_isNameChar (isNameChar_of_isName isName c isElement)
  | number digits nonempty decimal small =>
      refine plain_of_isNameChar ?_
      simp [isNameChar, Char.isAlphanum, decimal c isElement]

theorem PrefixedAtom.plain_of_mem {a : PrefixedAtom} {c : Char} (isElement : c ∈ a.text) :
    plain c := by
  rcases List.mem_append.mp isElement with inOps | inAtom
  · obtain ⟨op, -, inSymbol⟩ := List.mem_flatMap.mp inOps
    exact plain_of_not_mem (by cases op <;> decide) (by cases op <;> decide) inSymbol
  · exact Atom.plain_of_mem inAtom

theorem plain_of_mem_behind {rest : List (BinaryOp × PrefixedAtom)} {c : Char}
    (isElement : c ∈ PrefixedAtom.spelling.behind [] rest) : plain c := by
  induction rest with
  | nil => cases isElement
  | cons x rest inductionHypothesis =>
      obtain ⟨op, b⟩ := x
      have split : PrefixedAtom.spelling.behind [] ((op, b) :: rest) =
          ' ' :: (op.symbol.toList ++ [' ']) ++
            (b.text ++ PrefixedAtom.spelling.behind [] rest) := by
        rw [List.cons_append, List.append_assoc]
        rfl
      rw [split, List.mem_append, List.mem_append] at isElement
      rcases isElement with inSymbol | inOperand | behind
      · exact plain_of_not_mem (by cases op <;> decide) (by cases op <;> decide) inSymbol
      · exact PrefixedAtom.plain_of_mem inOperand
      · exact inductionHypothesis behind

/-! ## Operands -/

section

variable (rest : List (BinaryOp × PrefixedAtom)) (depth : Nat) (inner : Scan Expr)

theorem behind_chain : Behind (PrefixedAtom.spelling.behind [] rest) := by
  have noCall : '(' ∉ PrefixedAtom.spelling.behind [] rest :=
    fun isElement => (plain_of_mem_behind isElement).1 rfl
  have noDot : '.' ∉ PrefixedAtom.spelling.behind [] rest :=
    fun isElement => (plain_of_mem_behind isElement).2 rfl
  have plain := typeArguments_of_not_mem noCall noDot
  cases rest with
  | nil => exact .nil
  | cons x rest => exact ⟨rfl, bind_of_none (exactly_of_ne rfl (by decide) _), plain⟩

theorem Atom.term (a : Atom) :
    term depth inner (a.text ++ PrefixedAtom.spelling.behind [] rest) =
      some (a.expr, skipBlanks (PrefixedAtom.spelling.behind [] rest)) := by
  have behind := behind_chain rest
  cases a with
  | name n isName free =>
      have call : symbol "(" (PrefixedAtom.spelling.behind [] rest) = none :=
        symbol_of_not_mem rfl fun isElement => (plain_of_mem_behind isElement).1 rfl
      have read := term_name isName behind (fun _ => call) depth inner
      rwa [ofName_of_not_keyword free] at read
  | number digits nonempty decimal small =>
      obtain ⟨d, ds, rfl⟩ := List.exists_cons_of_ne_nil nonempty
      have shown := shown_of_isDigit (decimal d List.mem_cons_self)
      exact term_of_literalTerm (skipBlanks_cons_of_shown shown _)
        (literalTerm_whole nonempty decimal small behind.apart behind.whole)

theorem PrefixedAtom.unaryLevel (a : PrefixedAtom) :
    unaryLevel (primary depth inner) (a.text ++ PrefixedAtom.spelling.behind [] rest) =
      some (a.expr, skipBlanks (PrefixedAtom.spelling.behind [] rest)) := by
  obtain ⟨ops, atom⟩ := a
  induction ops with
  | nil =>
      have ends : postfixPart depth inner (skipBlanks (PrefixedAtom.spelling.behind [] rest)) =
          none := by
        cases rest with
        | nil => exact needs_postfixPart depth inner [] blank_nil
        | cons x rest =>
            obtain ⟨op, b⟩ := x
            rw [Spelling.skipBlanks_behind]
            exact postfixPart_operator depth inner op _
      have parts : many (postfixPart depth inner)
          (skipBlanks (PrefixedAtom.spelling.behind [] rest)) =
          some ([], skipBlanks (PrefixedAtom.spelling.behind [] rest)) :=
        congrArg some (itemsOf_of_none ends)
      exact unaryLevel_of_primary
        ((bind_of_some (atom.term rest depth inner)).trans (bind_of_some parts))
  | cons op ops inductionHypothesis =>
      have skips : Skips (primary depth inner) := (skips_term depth inner).bind _
      have longer : (PrefixedAtom.mk (op :: ops) atom).text =
          op.symbol.toList ++ (PrefixedAtom.mk ops atom).text := by
        rw [text, List.flatMap_cons, List.append_assoc]
        rfl
      rw [longer, List.append_assoc]
      exact unaryLevel_cons skips op inductionHypothesis

end

theorem PrefixedAtom.legible (depth : Nat) (inner : Scan Expr) (a : PrefixedAtom)
    (rest : List (BinaryOp × PrefixedAtom)) :
    spelling.Legible [] (Expr.unaryLevel (primary depth inner)) a rest := by
  induction rest generalizing a with
  | nil => exact .last (a.unaryLevel [] depth inner)
  | cons x rest inductionHypothesis =>
      exact .next (a.unaryLevel (x :: rest) depth inner) (inductionHypothesis x.2)

/-- A chain is read as one expression, the only one in which every operator holds what the table of
precedence lets it hold. -/
theorem parse?_chain (c : Chain PrefixedAtom) : ∃ t : OperatorTree PrefixedAtom,
    t.chain = c ∧ t.Grouped ∧ parse? (chainText c) = some [t.toExpr PrefixedAtom.expr] ∧
      ∀ other : OperatorTree PrefixedAtom, other.chain = c → other.Grouped → other = t := by
  obtain ⟨t, chain, grouped, read⟩ := Spelling.expression_of_legible .nil
    (PrefixedAtom.legible ((chainText c).length + 1) (expression (chainText c).length) c.first
      c.rest)
  refine ⟨t, chain, grouped, parse?_of_expression blank_nil ?_, fun other same isGrouped =>
    isGrouped.unique grouped (same.trans chain.symm)⟩
  rw [skips_expression, chainText, String.toList_ofList]
  exact read

end ManagedDebugger.Expr
