import ManagedDebugger.Proofs.Expr.Terms

/-!
# Printed expressions

The text of an expression, and the expressions whose text can be read. A part of an expression that
is put together itself stands in parentheses; whether others do is left open. Type arguments are
different: they belong to a name only where a call or a member access stands right behind it, so
that the name goes there as it is.
-/

/-! ## Types -/

namespace ManagedDebugger.Type

/-- The words that stand for types. -/
def keywords : List String :=
  ["bool", "byte", "sbyte", "char", "short", "ushort", "int", "uint", "long", "ulong", "float",
    "double", "decimal", "string", "object"]

/-- The word for a type, if there is one. -/
def keyword? (runtimeName : String) : Option String :=
  keywords.find? fun word => ofKeyword? word == some runtimeName

/-- How the name of a type is written. -/
def written (name : String) : String := (keyword? name).getD name

/-- A type that has a word of its own, or a dotted name that is no word. -/
def Writable (name : String) : Prop :=
  (keyword? name).isSome = true ∨
    ∃ path, path ≠ [] ∧ (∀ n ∈ path, Expr.isName n = true) ∧ name = ".".intercalate path ∧
      ofKeyword? name = none

end ManagedDebugger.Type

namespace ManagedDebugger

/-- Texts with commas between them. -/
def commaSeparated (texts : List (List Char)) : List Char := [',', ' '].intercalate texts

/-- Type arguments in their brackets. -/
def angled (texts : List (List Char)) : List Char := '<' :: (commaSeparated texts ++ ['>'])

/-- The brackets of an array type. -/
def ranks (n : Nat) : List Char := (List.replicate n ()).flatMap fun _ => ['[', ']']

mutual

def TypeExpr.text : TypeExpr → List Char
  | .mk name arguments rank =>
    (Type.written name).toList ++
      ((if arguments.isEmpty then [] else angled (TypeExpr.texts arguments)) ++ ranks rank)

def TypeExpr.texts : List TypeExpr → List (List Char)
  | [] => []
  | t :: rest => t.text :: TypeExpr.texts rest

end

theorem TypeExpr.texts_eq_map (ts : List TypeExpr) : TypeExpr.texts ts = ts.map TypeExpr.text := by
  induction ts with
  | nil => rfl
  | cons t ts inductionHypothesis => rw [TypeExpr.texts, inductionHypothesis, List.map_cons]

inductive TypeExpr.Writable : TypeExpr → Prop
  | mk {name : String} {arguments : List TypeExpr} {rank : Nat} : Type.Writable name →
      (∀ t ∈ arguments, TypeExpr.Writable t) → TypeExpr.Writable (.mk name arguments rank)

/-! ## Literals -/

namespace Literal

open ManagedDebugger.Expr (IntegerSuffix quotedChar)

/-- Whole numbers have the suffix of their type. -/
def text : Literal → List Char
  | .null => "null".toList
  | .string s => Text.quoted s.toList
  | .primitive (.bool b) => (if b then "true" else "false").toList
  | .primitive (.char u) => quotedChar ((Text.unitChar? u).getD '?')
  | .primitive (.i32 v) => Nat.toDigits 10 v.toInt.toNat
  | .primitive (.u32 v) => Nat.toDigits 10 v.toNat ++ IntegerSuffix.u.text
  | .primitive (.i64 v) => Nat.toDigits 10 v.toInt.toNat ++ IntegerSuffix.l.text
  | .primitive (.u64 v) => Nat.toDigits 10 v.toNat ++ IntegerSuffix.ul.text
  | .primitive p => p.display.toList

/-- There are no literals for negative numbers, nor for half of a pair of units. -/
inductive Writable : Literal → Prop
  | null : Writable .null
  | string (s : String) : Writable (.string s)
  | bool (b : Bool) : Writable (.primitive (.bool b))
  | char {u : UInt16} {c : Char} : Text.unitChar? u = some c → Writable (.primitive (.char u))
  | int {v : Int32} : 0 ≤ v.toInt → Writable (.primitive (.i32 v))
  | uint (v : UInt32) : Writable (.primitive (.u32 v))
  | long {v : Int64} : 0 ≤ v.toInt → Writable (.primitive (.i64 v))
  | ulong (v : UInt64) : Writable (.primitive (.u64 v))

end Literal

/-! ## Expressions -/

namespace Expr

/-- A dot, behind a question mark where the access is conditional. -/
def dot (conditional : Bool) : List Char := if conditional then ['?', '.'] else ['.']

def bracket (conditional : Bool) : List Char := if conditional then ['?', '['] else ['[']

/-- A name with type arguments behind it. -/
def isGeneric : Expr → Bool
  | generic .. | member _ _ (some _) _ => true
  | _ => false

/-- Put together from other expressions without brackets around the whole. -/
def isCompound : Expr → Bool
  | member _ _ none _ | element .. | invocation .. | unary .. | binary .. => true
  | _ => false

end Expr

/-- No text is empty, and no two texts stand next to each other: they would be read as one. -/
def Piece.Separate {α : Type} : List (Piece α) → Prop
  | [] => True
  | .hole _ :: rest => Separate rest
  | .text s :: rest => s ≠ "" ∧ (∀ t, rest.head? ≠ some (.text t)) ∧ Separate rest

/-- The expressions that can be written. Those with type arguments can be where a call or a member
access follows. -/
inductive Expr.Writable : Bool → Expr → Prop
  | literal {followed : Bool} {l : Literal} : l.Writable → Writable followed (.literal l)
  | identifier {followed : Bool} {n : String} : isName n = true → isKeyword n = false →
      n ∉ parenthesized → Writable followed (.identifier n)
  | this {followed : Bool} : Writable followed .this
  | predefined {followed : Bool} {name : String} : (Type.keyword? name).isSome = true →
      Writable followed (.predefined name)
  | generic {n : String} {arguments : List TypeExpr} : isName n = true →
      (∀ t ∈ arguments, t.Writable) → Writable true (.generic n arguments)
  | member {followed conditional : Bool} {target : Expr} {n : String} :
      Writable (!conditional) target → isName n = true →
      Writable followed (.member target n none conditional)
  | genericMember {conditional : Bool} {target : Expr} {n : String} {arguments : List TypeExpr} :
      Writable (!conditional) target → isName n = true → (∀ t ∈ arguments, t.Writable) →
      Writable true (.member target n (some arguments) conditional)
  | element {followed conditional : Bool} {target : Expr} {indices : List Expr} :
      Writable false target → (∀ e ∈ indices, Writable false e) →
      Writable followed (.element target indices conditional)
  | invocation {followed : Bool} {target : Expr} {arguments : List Expr} :
      Writable true target → (∀ e ∈ arguments, Writable false e) →
      Writable followed (.invocation target arguments)
  | unary {followed : Bool} {op : UnaryOp} {operand : Expr} : Writable false operand →
      Writable followed (.unary op operand)
  | binary {followed : Bool} {op : BinaryOp} {left right : Expr} : Writable false left →
      Writable false right → Writable followed (.binary op left right)
  | checked {followed on : Bool} {body : Expr} : Writable false body →
      Writable followed (.checked on body)
  | sizeOf {followed : Bool} {type : TypeExpr} : type.Writable → Writable followed (.sizeOf type)
  | interpolated {followed : Bool} {pieces : List (Piece Expr)} :
      (∀ e, .hole e ∈ pieces → Writable false e) → Piece.Separate pieces →
      Writable followed (.interpolated pieces)

theorem Expr.Writable.isGeneric {e : Expr} (writable : e.Writable false) : e.isGeneric = false := by
  cases writable <;> rfl

/-- Which expressions stand in parentheses where they are parts of others. -/
structure Parentheses where
  around : Expr → Bool
  compound : ∀ e, e.isCompound = true → around e = true
  generic : ∀ e, e.isGeneric = true → around e = false

namespace Parentheses

/-- No more than have to. -/
def fewest : Parentheses where
  around := Expr.isCompound
  compound _ isCompound := isCompound
  generic e isGeneric := by
    unfold Expr.isGeneric at isGeneric
    split at isGeneric
    · rfl
    · rfl
    · cases isGeneric

variable (p : Parentheses)

/-- The text of a part. -/
def put (e : Expr) (text : List Char) : List Char :=
  if p.around e then '(' :: (text ++ [')']) else text

/-- In the text of interpolated strings braces are written twice. -/
def textChar (c : Char) : List Char :=
  if c = '{' then ['{', '{'] else if c = '}' then ['}', '}'] else Text.escaped c

mutual

/-- The text of an expression, its parts as they are put into it. -/
def text : Expr → List Char
  | .literal l => l.text
  | .identifier n => n.toList
  | .generic n arguments => n.toList ++ angled (TypeExpr.texts arguments)
  | .this => "this".toList
  | .predefined runtimeName => (Type.written runtimeName).toList
  | .member target n none conditional =>
    p.put target (text target) ++ (Expr.dot conditional ++ n.toList)
  | .member target n (some arguments) conditional =>
    p.put target (text target) ++
      (Expr.dot conditional ++ (n.toList ++ angled (TypeExpr.texts arguments)))
  | .element target indices conditional =>
    p.put target (text target) ++
      (Expr.bracket conditional ++ (commaSeparated (texts indices) ++ [']']))
  | .invocation target arguments =>
    p.put target (text target) ++ '(' :: (commaSeparated (texts arguments) ++ [')'])
  | .unary op operand => op.symbol.toList ++ p.put operand (text operand)
  | .binary op left right =>
    p.put left (text left) ++
      ' ' :: (op.symbol.toList ++ ' ' :: p.put right (text right))
  | .checked on body =>
    (if on then "checked" else "unchecked").toList ++ '(' :: (text body ++ [')'])
  | .sizeOf type => "sizeof".toList ++ '(' :: (type.text ++ [')'])
  | .interpolated pieces => '$' :: '"' :: (piecesText pieces ++ ['"'])
  | .unsupported keyword => keyword.toList

def texts : List Expr → List (List Char)
  | [] => []
  | e :: rest => p.put e (text e) :: texts rest

def piecesText : List (Piece Expr) → List Char
  | [] => []
  | .text s :: rest => s.toList.flatMap textChar ++ piecesText rest
  | .hole e :: rest => '{' :: (p.put e (text e) ++ '}' :: piecesText rest)

end

/-- The text of an expression as a part of another one. -/
def part (e : Expr) : List Char := p.put e (p.text e)

theorem text_generic (n : String) (arguments : List TypeExpr) :
    p.text (.generic n arguments) = n.toList ++ angled (TypeExpr.texts arguments) := rfl

theorem text_genericMember (target : Expr) (n : String) (arguments : List TypeExpr)
    (conditional : Bool) : p.text (.member target n (some arguments) conditional) =
      p.part target ++
        (Expr.dot conditional ++ (n.toList ++ angled (TypeExpr.texts arguments))) := rfl

theorem text_unary (op : UnaryOp) (operand : Expr) :
    p.text (.unary op operand) = op.symbol.toList ++ p.part operand := rfl

theorem text_binary (op : BinaryOp) (left right : Expr) :
    p.text (.binary op left right) =
      p.part left ++ ' ' :: (op.symbol.toList ++ ' ' :: p.part right) := rfl

theorem text_checked (on : Bool) (body : Expr) :
    p.text (.checked on body) =
      (if on then "checked" else "unchecked").toList ++ '(' :: (p.text body ++ [')']) := rfl

theorem text_sizeOf (type : TypeExpr) :
    p.text (.sizeOf type) = "sizeof".toList ++ '(' :: (type.text ++ [')']) := rfl

theorem text_interpolated (pieces : List (Piece Expr)) :
    p.text (.interpolated pieces) = '$' :: '"' :: (p.piecesText pieces ++ ['"']) := rfl

theorem piecesText_text (s : String) (pieces : List (Piece Expr)) :
    p.piecesText (.text s :: pieces) = s.toList.flatMap textChar ++ p.piecesText pieces := rfl

theorem piecesText_hole (e : Expr) (pieces : List (Piece Expr)) :
    p.piecesText (.hole e :: pieces) = '{' :: (p.part e ++ '}' :: p.piecesText pieces) := rfl

theorem texts_eq_map (es : List Expr) : p.texts es = es.map p.part := by
  induction es with
  | nil => rfl
  | cons e es inductionHypothesis =>
      rw [texts, inductionHypothesis, List.map_cons]
      rfl

def print (e : Expr) : String := String.ofList (p.text e)

end Parentheses

end ManagedDebugger
