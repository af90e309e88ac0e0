import ManagedDebugger.Keyed
import ManagedDebugger.Symbol.Data
import ManagedDebugger.Symbol.Document

/-!
The symbols of the loaded modules: from a source line to code, and from code to the source.
-/

namespace ManagedDebugger

/-- Where a breakpoint goes, and the lines of the point it goes to. -/
structure ResolvedBreakpoint where
  method : MethodRef
  offset : UInt32
  line : UInt32
  endLine : UInt32
  deriving DecidableEq, Repr, Inhabited

structure SourceLocation where
  file : String
  line : UInt32
  endLine : UInt32
  column : UInt32
  endColumn : UInt32
  deriving DecidableEq, Repr, Inhabited

/-- The symbols of one loaded module, with the methods by their tokens. -/
structure LoadedModule where
  methods : Keyed Token MethodSymbols
  entryPoint : Option Token
  deriving Repr

structure SymbolTable where
  modules : Keyed ModuleId LoadedModule
  deriving Repr

def MethodSymbols.sorted (m : MethodSymbols) : MethodSymbols :=
  { m with sequencePoints := m.sequencePoints.mergeSort fun a b => a.offset ≤ b.offset }

def LoadedModule.ofSymbols (s : ModuleSymbols) : LoadedModule :=
  ⟨s.methods.foldl (fun table m => table.put m.token m.sorted) [], s.entryPoint⟩

namespace MethodSymbols

/-- The point in effect at an offset: the last one that starts at or before it. -/
def pointAt? (m : MethodSymbols) (offset : UInt32) : Option SequencePoint :=
  (m.sequencePoints.takeWhile (·.offset ≤ offset)).getLast?

def pointAfter? (m : MethodSymbols) (offset : UInt32) : Option SequencePoint :=
  (m.sequencePoints.dropWhile (·.offset ≤ offset)).head?

/-- The offsets `[start, stop)` that belong together. What precedes the first point is one range,
and the last point goes to the end of the code. -/
def rangeAt? (m : MethodSymbols) (offset : UInt32) : Option (UInt32 × UInt32) :=
  match m.pointAt? offset, m.pointAfter? offset with
  | some p, some next => some (p.offset, next.offset)
  | some p, none => some (p.offset, m.codeSize)
  | none, some first => some (0, first.offset)
  | none, none => none

def locationAt? (m : MethodSymbols) (offset : UInt32) : Option SourceLocation :=
  match m.pointAt? offset with
  | some p =>
    if p.isHidden then none
    else some ⟨m.document, p.startLine, p.endLine, p.startColumn, p.endColumn⟩
  | none => none

end MethodSymbols

/-- The first element that no other one is less than. -/
def best? {α : Type} (less : α → α → Bool) : List α → Option α
  | [] => none
  | a :: rest => some (rest.foldl (fun kept b => if less b kept then b else kept) a)

/-- A visible sequence point of a method. -/
structure Candidate where
  token : Token
  point : SequencePoint
  deriving DecidableEq, Repr

namespace Candidate

def covers (line : UInt32) (c : Candidate) : Bool :=
  c.point.startLine ≤ line && line ≤ c.point.endLine

def startsAfter (line : UInt32) (c : Candidate) : Bool := line < c.point.startLine

/-- Among points that cover a line: those that start on it, then the shortest, then the first. -/
def tighter (line : UInt32) (a b : Candidate) : Bool :=
  let off (c : Candidate) := c.point.startLine != line
  let span (c : Candidate) := c.point.endLine - c.point.startLine
  if off a != off b then off b
  else if span a != span b then span a < span b
  else a.point.offset < b.point.offset

/-- Among points after a line: the first line, then the first offset. -/
def earlier (a b : Candidate) : Bool :=
  if a.point.startLine != b.point.startLine then a.point.startLine < b.point.startLine
  else a.point.offset < b.point.offset

end Candidate

namespace LoadedModule

/-- The visible points of the methods that come from a document. -/
def candidates (m : LoadedModule) (file : String) : List Candidate :=
  (m.methods.values.filter fun s => Document.same s.document file).flatMap fun s =>
    (s.sequencePoints.filter fun p => !p.isHidden).map fun p => ⟨s.token, p⟩

/-- The best point for a line, else the next one after it. -/
def resolve? (m : LoadedModule) (file : String) (line : UInt32) : Option Candidate :=
  let all := m.candidates file
  best? (Candidate.tighter line) (all.filter (Candidate.covers line)) <|>
    best? Candidate.earlier (all.filter (Candidate.startsAfter line))

end LoadedModule

namespace SymbolTable

def empty : SymbolTable := ⟨[]⟩

def add (t : SymbolTable) (module : ModuleId) (s : ModuleSymbols) : SymbolTable :=
  ⟨t.modules.put module (.ofSymbols s)⟩

def remove (t : SymbolTable) (module : ModuleId) : SymbolTable := ⟨t.modules.erase module⟩

def method? (t : SymbolTable) (m : MethodRef) : Option MethodSymbols :=
  (t.modules.get? m.module).bind (·.methods.get? m.token)

def resolve? (t : SymbolTable) (module : ModuleId) (file : String) (line : UInt32) :
    Option ResolvedBreakpoint := do
  let loaded ← t.modules.get? module
  let c ← loaded.resolve? file line
  return ⟨⟨module, c.token⟩, c.point.offset, c.point.startLine, c.point.endLine⟩

def location? (t : SymbolTable) (m : MethodRef) (offset : UInt32) : Option SourceLocation :=
  (t.method? m).bind (·.locationAt? offset)

def range? (t : SymbolTable) (m : MethodRef) (offset : UInt32) : Option (UInt32 × UInt32) :=
  (t.method? m).bind (·.rangeAt? offset)

def asyncInfo? (t : SymbolTable) (m : MethodRef) : Option AsyncInfo :=
  (t.method? m).bind (·.asyncInfo)

def hasPoints (t : SymbolTable) (m : MethodRef) : Bool :=
  (t.method? m).any fun s => !s.sequencePoints.isEmpty

def codeSize? (t : SymbolTable) (m : MethodRef) : Option UInt32 := (t.method? m).map (·.codeSize)

/-- The names in scope at an offset. -/
def localNames (t : SymbolTable) (m : MethodRef) (offset : UInt32) : List LocalName :=
  match t.method? m with
  | some s => s.locals.filter fun l => l.startOffset ≤ offset && offset < l.endOffset
  | none => []

def importedNamespaces (t : SymbolTable) (m : MethodRef) : List String :=
  match t.method? m with
  | some s => s.importedNamespaces
  | none => []

def entryPoint? (t : SymbolTable) (module : ModuleId) : Option MethodRef := do
  let loaded ← t.modules.get? module
  let token ← loaded.entryPoint
  return ⟨module, token⟩

end SymbolTable

end ManagedDebugger
