import ManagedDebugger.Target.Event
import ManagedDebugger.Wire.Payload

/-!
The payload of an event packet: a number of notifications, each with its kind in front. One
notification that cannot be read spoils the packet, for the length of its payload is unknown.
-/

namespace ManagedDebugger.Wire.Layout

def stepReason : Layout StepReason :=
  coded
    (fun
      | .normal => 0
      | .returned => 1
      | .call => 2
      | .exception => 3
      | .intercept => 4
      | .exit => 5)
    (fun code => match code.toNat with
      | 0 => some .normal
      | 1 => some .returned
      | 2 => some .call
      | 3 => some .exception
      | 4 => some .intercept
      | 5 => some .exit
      | _ => none)
    (fun code => "Invalid step reason: " ++ toString code.toNat)

def exceptionStage : Layout ExceptionStage :=
  coded
    (fun
      | .firstChance => 1
      | .userFirstChance => 2
      | .catchHandlerFound => 3
      | .unhandled => 4)
    (fun code => match code.toNat with
      | 1 => some .firstChance
      | 2 => some .userFirstChance
      | 3 => some .catchHandlerFound
      | 4 => some .unhandled
      | _ => none)
    (fun code => "Invalid exception stage: " ++ toString code.toNat)

def putEvent : NativeEvent → Bytes
  | .processCreated pid => u8.put 1 ++ u32.put pid
  | .processExited code => u8.put 2 ++ i32.put code
  | .domainCreated => u8.put 3
  | .threadCreated t => u8.put 4 ++ u32.put t
  | .threadExited t => u8.put 5 ++ u32.put t
  | .moduleLoaded m => u8.put 6 ++ module.put m
  | .moduleUnloaded m => u8.put 7 ++ u64.put m
  | .breakpointHit t b => u8.put 8 ++ u32.put t ++ u32.put b.number
  | .stepComplete t reason => u8.put 9 ++ u32.put t ++ stepReason.put reason
  | .userBreak t => u8.put 10 ++ u32.put t
  | .exception t stage v => u8.put 11 ++ u32.put t ++ exceptionStage.put stage ++ value.put v
  | .evalComplete t e result => u8.put 12 ++ u32.put t ++ u64.put e.number ++ value.option.put result
  | .evalException t e v => u8.put 13 ++ u32.put t ++ u64.put e.number ++ value.put v

def readEvent : Reader NativeEvent := do
  let kind ← u8.read
  match kind.toNat with
  | 1 => do return .processCreated (← u32.read)
  | 2 => do return .processExited (← i32.read)
  | 3 => return .domainCreated
  | 4 => do return .threadCreated (← u32.read)
  | 5 => do return .threadExited (← u32.read)
  | 6 => do return .moduleLoaded (← module.read)
  | 7 => do return .moduleUnloaded (← u64.read)
  | 8 => do return .breakpointHit (← u32.read) ⟨← u32.read⟩
  | 9 => do return .stepComplete (← u32.read) (← stepReason.read)
  | 10 => do return .userBreak (← u32.read)
  | 11 => do return .exception (← u32.read) (← exceptionStage.read) (← value.read)
  | 12 => do return .evalComplete (← u32.read) ⟨← u64.read⟩ (← value.option.read)
  | 13 => do return .evalException (← u32.read) ⟨← u64.read⟩ (← value.read)
  | other => refuse ("Unsupported event kind: " ++ toString other)

def event : Layout NativeEvent := ⟨putEvent, readEvent⟩

/-- The number of notifications is held against its sign alone. -/
def eventCount : Reader Nat := do
  let n ← i32.read
  if n < 0 then refuse ("Invalid event count: " ++ toString n.toInt)
  else pure n.toInt.toNat

def events : Layout (List NativeEvent) where
  put es := u32.put es.length.toUInt32 ++ es.flatMap event.put
  read := do
    let n ← eventCount
    event.items n

/-- What follows the last notification is ignored. -/
def events? (payload : Bytes) : Except NativeError (List NativeEvent) :=
  (events.read payload).map (·.1)

end ManagedDebugger.Wire.Layout
