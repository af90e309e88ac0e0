import ManagedDebugger.Expr.Literal

/-!
Reading expressions. The grammar is that of the language's expressions, from the tightest level to
the loosest: postfix, unary, the levels of `leftLevels`, and the coalescing operator, the only one
that groups to the right. Readers that meet themselves again inside brackets take the number of
brackets they may still open.
-/

namespace ManagedDebugger.Expr

open Text (Scan)
open Text.Scan

def isNameStart (c : Char) : Bool := c.isAlpha || c == '_'

def isNameChar (c : Char) : Bool := c.isAlphanum || c == '_'

def name : Scan String := do
  let c ← satisfy isNameStart
  let rest ← many (satisfy isNameChar)
  pure (String.ofList (c :: rest))

def typeName : Nat → Scan TypeExpr
  | 0 => failure
  | depth + 1 => do
    let first ← name
    let rest ← many (do symbol "."; name)
    let arguments ←
      optional (enclosed (symbol "<") (separated (typeName depth) (symbol ",")) (symbol ">"))
    let brackets ← many (do symbol "["; symbol "]")
    pure (.ofPath (first :: rest) (arguments.getD []) brackets.length)

/-- Type arguments belong to a name only where a call or a member access follows; elsewhere their
bracket is a comparison. -/
def typeArguments (depth : Nat) : Scan (List TypeExpr) := do
  let arguments ← enclosed (symbol "<") (separated (typeName depth) (symbol ",")) (symbol ">")
  ahead (symbol "(" <|> symbol ".")
  pure arguments

def isUnsupported (keyword : String) : Bool :=
  ["base", "typeof", "new", "default", "nameof", "is", "as", "await", "stackalloc", "delegate",
    "ref", "out"].contains keyword

def ofName (name : String) : Expr :=
  match name with
  | "true" => .literal (.primitive (.bool true))
  | "false" => .literal (.primitive (.bool false))
  | "null" => .literal .null
  | "this" => .this
  | other =>
    if isUnsupported other then .unsupported other
    else match Type.ofKeyword? other with
      | some runtimeName => .predefined runtimeName
      | none => .identifier other

/-- In the text between the holes braces are written twice. -/
def interpolatedChar : Scan Char :=
  (do exactly "\x7b\x7b"; pure '{') <|>
  (do exactly "\x7d\x7d"; pure '}') <|>
  escape <|>
  noneOf "\"\\\x7b\x7d"

def interpolatedTerm (inner : Scan Expr) : Scan Expr := do
  let piece : Scan (Piece Expr) :=
    (do let chars ← many1 interpolatedChar; pure (.text (String.ofList chars))) <|>
    (do let e ← enclosed (exactly "\x7b") inner (exactly "\x7d"); pure (.hole e))
  let pieces ← enclosed (exactly "$\"") (many piece) (exactly "\"")
  pure (.interpolated pieces)

def inParentheses {α : Type} (p : Scan α) : Scan α := enclosed (symbol "(") p (symbol ")")

def checkedTerm (inner : Scan Expr) : Scan Expr := do
  let on ← (do exactly "checked"; pure true) <|> (do exactly "unchecked"; pure false)
  let body ← inParentheses inner
  pure (.checked on body)

def sizeOfTerm (depth : Nat) : Scan Expr := do
  exactly "sizeof"
  let type ← inParentheses (typeName depth)
  pure (.sizeOf type)

def genericTerm (depth : Nat) : Scan Expr := do
  let n ← name
  let arguments ← typeArguments depth
  pure (.generic n arguments)

def nameTerm : Scan Expr := do
  let n ← name
  pure (ofName n)

def term (depth : Nat) (inner : Scan Expr) : Scan Expr :=
  padded (literalTerm <|> interpolatedTerm inner <|> checkedTerm inner <|> sizeOfTerm depth <|>
    genericTerm depth <|> nameTerm <|> inParentheses inner)

/-- What follows a term, as a function of the expression in front of it. -/
def postfixPart (depth : Nat) (inner : Scan Expr) : Scan (Expr → Expr) :=
  let list := separated inner (symbol ",")
  let memberOf (conditional : Bool) : Scan (Expr → Expr) := do
    let n ← name
    let arguments ← optional (typeArguments depth)
    pure fun e => .member e n arguments conditional
  (do symbol "."; memberOf false) <|>
  (do symbol "?."; memberOf true) <|>
  (do
    let indices ← enclosed (symbol "[") list (symbol "]")
    pure fun e => .element e indices false) <|>
  (do
    let indices ← enclosed (symbol "?[") list (symbol "]")
    pure fun e => .element e indices true) <|>
  (do
    let arguments ← inParentheses list
    pure fun e => .invocation e arguments)

def primary (depth : Nat) (inner : Scan Expr) : Scan Expr := do
  let e ← term depth inner
  let parts ← many (postfixPart depth inner)
  pure (parts.foldl (fun e f => f e) e)

def operator {α : Type} (symbolOf : α → String) : List α → Scan α
  | [] => failure
  | op :: rest => (do symbol (symbolOf op); pure op) <|> operator symbolOf rest

def unaryLevel (operand : Scan Expr) : Scan Expr := do
  let ops ← many (operator UnaryOp.symbol UnaryOp.all)
  let e ← operand
  pure (ops.foldr .unary e)

def leftLevel (ops : List BinaryOp) (operand : Scan Expr) : Scan Expr := do
  let first ← operand
  let rest ← many (do
    let op ← operator BinaryOp.symbol ops
    let e ← operand
    pure (op, e))
  pure (rest.foldl (fun left (op, right) => .binary op left right) first)

/-- The levels that group to the left, tightest first; where one symbol starts with another, the
longer one is tried first. -/
def leftLevels : List (List BinaryOp) :=
  [[.mul, .div, .rem], [.add, .sub], [.shl, .shr], [.le, .ge, .lt, .gt], [.eq, .ne], [.bitAnd],
    [.bitXor], [.bitOr], [.and], [.or]]

def coalesced (first : Expr) : List Expr → Expr
  | [] => first
  | second :: rest => .binary .coalesce first (coalesced second rest)

def coalesceLevel (operand : Scan Expr) : Scan Expr := do
  let first ← operand
  let rest ← many (do symbol "??"; operand)
  pure (coalesced first rest)

/-- An expression that opens at most `depth` brackets inside one another. -/
def expression : Nat → Scan Expr
  | 0 => failure
  | depth + 1 =>
    coalesceLevel (leftLevels.foldl (fun operand ops => leftLevel ops operand)
      (unaryLevel (primary (depth + 1) (expression depth))))

/-- Expressions separated by semicolons, with one semicolon at the end if there is an expression. -/
def expressions (depth : Nat) : Scan (List Expr) := padded do
  let all ← separated (expression depth) (symbol ";")
  if all.isEmpty then pure []
  else
    let _ ← optional (symbol ";")
    pure all

/-- A text cannot open more brackets than it has characters. -/
def parse? (text : String) : Option (List Expr) :=
  run? (expressions (text.length + 1)) text

end ManagedDebugger.Expr
