import ManagedDebugger.Program
import ManagedDebugger.Target.Call

/-!
Programs over the calls of the target, each of which may fail.
-/

namespace ManagedDebugger

abbrev NativeCall.Reply (call : NativeCall) : Type := Except NativeError call.Answer

abbrev nativeEffect : Effect := ⟨NativeCall, NativeCall.Reply⟩

/-- The first failing call ends the program. -/
abbrev Native := ExceptT NativeError (Program nativeEffect)

namespace Native

def call (c : NativeCall) : Native c.Answer := ExceptT.mk (Program.ask (E := nativeEffect) c)

/-- The result of a program that may fail, as a value. -/
def attempt {α : Type} (p : Native α) : Program nativeEffect (Except NativeError α) := p.run

end Native

end ManagedDebugger
