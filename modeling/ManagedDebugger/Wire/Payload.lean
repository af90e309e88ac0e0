import ManagedDebugger.Symbol.Data
import ManagedDebugger.Target.Description
import ManagedDebugger.Wire.Layout

/-!
The layouts of what the target tells about itself.
-/

namespace ManagedDebugger.Wire.Layout

def methodRef : Layout MethodRef :=
  (u64.pair u32).iso (fun (module, token) => ⟨module, token⟩) (fun m => (m.module, m.token))

def typeRef : Layout TypeRef :=
  (u64.pair (u32.pair string)).iso (fun (module, token, name) => ⟨module, token, name⟩)
    (fun t => (t.module, t.token, t.name))

def elementType : Layout ElementType :=
  coded ElementType.tag ElementType.ofTag? fun tag =>
    "Invalid element type: 0x" ++ Text.hexDigits tag.toNat

/-- A tag for the shape of a value; a primitive's is followed by its element tag. -/
def valueKind : Layout ValueKind where
  put
    | .primitive t => u8.put 1 ++ elementType.put t
    | .string => u8.put 2
    | .object => u8.put 3
    | .array => u8.put 4
    | .boxed => u8.put 5
    | .nullReference => u8.put 6
  read := do
    let tag ← u8.read
    match tag.toNat with
    | 1 => do
      let t ← elementType.read
      pure (.primitive t)
    | 2 => pure .string
    | 3 => pure .object
    | 4 => pure .array
    | 5 => pure .boxed
    | 6 => pure .nullReference
    | other => refuse ("Invalid value tag: " ++ toString other)

def value : Layout RemoteValue :=
  (u64.pair (valueKind.pair string)).iso (fun (id, kind, typeName) => ⟨⟨id⟩, kind, typeName⟩)
    (fun v => (v.id.number, v.kind, v.typeName))

def module : Layout ModuleInfo :=
  (u64.pair (string.pair string)).iso (fun (id, name, path) => ⟨id, name, path⟩)
    (fun m => (m.id, m.name, m.path))

def thread : Layout NativeThread :=
  (u32.pair string.option).iso (fun (id, name) => ⟨id, name⟩) (fun t => (t.id, t.name))

def frameKind : Layout FrameKind :=
  coded
    (fun
      | .managed => 0
      | .native => 1
      | .runtime => 2)
    (fun code => match code.toNat with
      | 0 => some .managed
      | 1 => some .native
      | 2 => some .runtime
      | _ => none)
    (fun code => "Invalid frame kind: " ++ toString code.toNat)

def frame : Layout NativeFrame :=
  (frameKind.pair (methodRef.option.pair u32)).iso
    (fun (kind, method, offset) => ⟨kind, method, offset⟩)
    (fun f => (f.kind, f.method, f.offset))

def namedValue : Layout NamedValue :=
  (string.pair value).iso (fun (name, v) => ⟨name, v⟩) (fun v => (v.name, v.value))

def localValue : Layout LocalValue :=
  (u32.pair value).iso (fun (slot, v) => ⟨slot, v⟩) (fun v => (v.slot, v.value))

def parameter : Layout Parameter :=
  (string.pair string).iso (fun (name, type) => ⟨name, type⟩) (fun p => (p.name, p.typeName))

def methodInfo : Layout MethodInfo :=
  (methodRef.pair (string.pair (typeRef.pair (bool.pair (parameter.list.pair (u32.pair
      (string.pair bool))))))).iso
    (fun (method, name, declaring, isStatic, parameters, arity, returned, nonUser) =>
      ⟨method, name, declaring, isStatic, parameters, arity, returned, nonUser⟩)
    (fun m => (m.method, m.name, m.declaringType, m.isStatic, m.parameters, m.genericArity,
      m.returnType, m.nonUserCode))

def field : Layout FieldInfo :=
  (u32.pair (string.pair (string.pair bool))).iso
    (fun (token, name, type, isStatic) => ⟨token, name, type, isStatic⟩)
    (fun f => (f.token, f.name, f.typeName, f.isStatic))

def property : Layout PropertyInfo :=
  (string.pair (string.pair (methodRef.option.pair bool))).iso
    (fun (name, type, getter, isStatic) => ⟨name, type, getter, isStatic⟩)
    (fun p => (p.name, p.typeName, p.getter, p.isStatic))

def typeInfo : Layout TypeInfo :=
  (typeRef.pair (typeRef.option.pair (bool.pair (field.list.pair (property.list.pair
      methodInfo.list))))).iso
    (fun (type, base, isValueType, fields, properties, methods) =>
      ⟨type, base, isValueType, fields, properties, methods⟩)
    (fun t => (t.type, t.base, t.isValueType, t.fields, t.properties, t.methods))

def sequencePoint : Layout SequencePoint :=
  (u32.pair (u32.pair (u32.pair (u32.pair u32)))).iso
    (fun (offset, startLine, endLine, startColumn, endColumn) =>
      ⟨offset, startLine, endLine, startColumn, endColumn⟩)
    (fun p => (p.offset, p.startLine, p.endLine, p.startColumn, p.endColumn))

def awaitBlock : Layout AwaitBlock :=
  (u32.pair u32).iso (fun (yields, resumes) => ⟨yields, resumes⟩)
    (fun a => (a.yieldOffset, a.resumeOffset))

def asyncInfo : Layout AsyncInfo :=
  (awaitBlock.list.pair u32).iso (fun (awaits, last) => ⟨awaits, last⟩)
    (fun a => (a.awaits, a.lastUserCodeOffset))

def localName : Layout LocalName :=
  (u32.pair (string.pair (u32.pair u32))).iso
    (fun (slot, name, first, last) => ⟨slot, name, first, last⟩)
    (fun l => (l.slot, l.name, l.startOffset, l.endOffset))

def methodSymbols : Layout MethodSymbols :=
  (u32.pair (string.pair (u32.pair (sequencePoint.list.pair (asyncInfo.option.pair
      (localName.list.pair string.list)))))).iso
    (fun (token, document, size, points, asyncInfo, locals, namespaces) =>
      ⟨token, document, size, points, asyncInfo, locals, namespaces⟩)
    (fun m => (m.token, m.document, m.codeSize, m.sequencePoints, m.asyncInfo, m.locals,
      m.importedNamespaces))

def moduleSymbols : Layout ModuleSymbols :=
  (methodSymbols.list.pair u32.option).iso (fun (methods, entry) => ⟨methods, entry⟩)
    (fun m => (m.methods, m.entryPoint))

end ManagedDebugger.Wire.Layout
