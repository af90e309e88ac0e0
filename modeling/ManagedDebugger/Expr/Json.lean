import ManagedDebugger.Expr.Code
import ManagedDebugger.Json.Value
import ManagedDebugger.Value.Tagged

/-!
JSON forms of syntax trees and of programs. A tree is an array with the name of its construct in
front.
-/

namespace ManagedDebugger

open Json

mutual

def TypeExpr.json : TypeExpr → Json
  | .mk name arguments rank =>
    .obj [
      ("name", .str name),
      ("args", .arr (TypeExpr.jsonAll arguments)),
      ("rank", .nat rank),
      ("metadata", .str (TypeExpr.mk name arguments rank).metadataName)]

def TypeExpr.jsonAll : List TypeExpr → List Json
  | [] => []
  | t :: rest => t.json :: TypeExpr.jsonAll rest

end

def Literal.json : Literal → Json
  | .primitive p => .str p.tagged
  | .string text => .obj [("s", .str text)]
  | .null => .null

def Expr.node (construct : String) (parts : List Json) : Json := .arr (.str construct :: parts)

mutual

def Expr.json : Expr → Json
  | .literal l => node "lit" [l.json]
  | .identifier name => node "id" [.str name]
  | .generic name arguments => node "generic" [.str name, .arr (TypeExpr.jsonAll arguments)]
  | .this => node "this" []
  | .predefined name => node "predefined" [.str name]
  | .member target name arguments conditional =>
    node (if conditional then "?." else ".")
      [target.json, .str name, ofOption (fun ts => .arr (TypeExpr.jsonAll ts)) arguments]
  | .element target indices conditional =>
    node (if conditional then "?[" else "[") [target.json, .arr (Expr.jsonAll indices)]
  | .invocation target arguments => node "call" [target.json, .arr (Expr.jsonAll arguments)]
  | .unary op operand => node "un" [.str op.symbol, operand.json]
  | .binary op left right => node "bin" [.str op.symbol, left.json, right.json]
  | .checked on body => node (if on then "checked" else "unchecked") [body.json]
  | .sizeOf type => node "sizeof" [type.json]
  | .interpolated pieces => node "interpolated" [.arr (Expr.jsonPieces pieces)]
  | .unsupported keyword => node "unsupported" [.str keyword]

def Expr.jsonAll : List Expr → List Json
  | [] => []
  | e :: rest => e.json :: Expr.jsonAll rest

def Expr.jsonPieces : List (Piece Expr) → List Json
  | [] => []
  | .text s :: rest => .str s :: Expr.jsonPieces rest
  | .hole e :: rest => e.json :: Expr.jsonPieces rest

end

def Operation.json : Operation → Json
  | .name n [] => Expr.node "Identifier" [.str n]
  | .name n arguments => Expr.node "GenericName" [.str n, .arr (TypeExpr.jsonAll arguments)]
  | .this => Expr.node "This" []
  | .predefined n => Expr.node "PredefinedType" [.str n]
  | .literal l => Expr.node "Literal" [l.json]
  | .memberAccess => Expr.node "MemberAccess" []
  | .conditionalAccess => Expr.node "ConditionalAccess" []
  | .elementAccess count => Expr.node "ElementAccess" [.nat count]
  | .invocation count => Expr.node "Invocation" [.nat count]
  | .unary op => Expr.node "Unary" [.str op.symbol]
  | .binary op => Expr.node "Binary" [.str op.symbol]
  | .sizeOf type => Expr.node "SizeOf" [type.json]
  | .interpolate pieces =>
    let piece : Piece Unit → Json
      | .text s => .obj [("text", .str s)]
      | .hole () => .str "value"
    Expr.node "InterpolatedString" [ofList piece pieces]

def Instruction.json (i : Instruction) : Json :=
  .obj [("op", i.operation.json), ("checked", .bool i.checked)]

end ManagedDebugger
