import ManagedDebugger.Value.Remote

/-!
Symbols of a module: where the code of each method comes from.
-/

namespace ManagedDebugger

/-- The line of code that has no place in the source. -/
def hiddenLine : UInt32 := 0xFEEFEE

/-- The source span of the code from `offset` to the next point. -/
structure SequencePoint where
  offset : UInt32
  startLine : UInt32
  endLine : UInt32
  startColumn : UInt32
  endColumn : UInt32
  deriving DecidableEq, Repr, Inhabited

def SequencePoint.isHidden (p : SequencePoint) : Bool := p.startLine == hiddenLine

/-- Where an asynchronous method suspends, and where its continuation picks up. -/
structure AwaitBlock where
  yieldOffset : UInt32
  resumeOffset : UInt32
  deriving DecidableEq, Repr, Inhabited

structure AsyncInfo where
  awaits : List AwaitBlock
  lastUserCodeOffset : UInt32
  deriving DecidableEq, Repr, Inhabited

/-- The name of a slot while the offset is in `[startOffset, endOffset)`. -/
structure LocalName where
  slot : UInt32
  name : String
  startOffset : UInt32
  endOffset : UInt32
  deriving DecidableEq, Repr, Inhabited

structure MethodSymbols where
  token : Token
  document : String
  codeSize : UInt32
  sequencePoints : List SequencePoint
  asyncInfo : Option AsyncInfo
  locals : List LocalName
  importedNamespaces : List String
  deriving DecidableEq, Repr, Inhabited

structure ModuleSymbols where
  methods : List MethodSymbols
  entryPoint : Option Token
  deriving DecidableEq, Repr, Inhabited

end ManagedDebugger
