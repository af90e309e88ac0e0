import Mathlib.Algebra.Group.Nat.Defs
import ManagedDebugger.Proofs.Text.Utf8
import ManagedDebugger.Proofs.Wire.Delimiting

/-!
# What is written is read back

Every layout reads the value that it wrote and leaves what follows it. What cannot be written are
sizes: the length of a text takes four bytes, and the number of elements has to be positive as a
signed number. The first part of the module says which values keep to that.
-/

namespace ManagedDebugger

/-! ## Sizes that can be written -/

/-- The number of bytes fits into its four bytes. -/
def Short (s : String) : Prop := (Text.utf8Bytes s).length < 2 ^ 32

/-- A list whose length can be written, of elements that can be written. -/
def Listed {α : Type} (fits : α → Prop) (as : List α) : Prop :=
  as.length < 2 ^ 31 ∧ ∀ a ∈ as, fits a

instance (s : String) : Decidable (Short s) := Nat.decLt _ _

instance {α : Type} (fits : α → Prop) [DecidablePred fits] : DecidablePred (Listed fits) :=
  fun _ => instDecidableAnd

structure TypeRef.Fits (t : TypeRef) : Prop where
  name : Short t.name

structure RemoteValue.Fits (v : RemoteValue) : Prop where
  typeName : Short v.typeName

structure ModuleInfo.Fits (m : ModuleInfo) : Prop where
  name : Short m.name
  path : Short m.path

structure NativeThread.Fits (t : NativeThread) : Prop where
  name : ∀ s ∈ t.name, Short s

structure Parameter.Fits (p : Parameter) : Prop where
  name : Short p.name
  typeName : Short p.typeName

structure MethodInfo.Fits (m : MethodInfo) : Prop where
  name : Short m.name
  declaringType : m.declaringType.Fits
  parameters : Listed Parameter.Fits m.parameters
  returnType : Short m.returnType

structure FieldInfo.Fits (f : FieldInfo) : Prop where
  name : Short f.name
  typeName : Short f.typeName

structure PropertyInfo.Fits (p : PropertyInfo) : Prop where
  name : Short p.name
  typeName : Short p.typeName

structure TypeInfo.Fits (t : TypeInfo) : Prop where
  type : t.type.Fits
  base : ∀ b ∈ t.base, b.Fits
  fields : Listed FieldInfo.Fits t.fields
  properties : Listed PropertyInfo.Fits t.properties
  methods : Listed MethodInfo.Fits t.methods

structure LocalName.Fits (l : LocalName) : Prop where
  name : Short l.name

structure MethodSymbols.Fits (m : MethodSymbols) : Prop where
  document : Short m.document
  sequencePoints : m.sequencePoints.length < 2 ^ 31
  asyncInfo : ∀ i ∈ m.asyncInfo, i.awaits.length < 2 ^ 31
  locals : Listed LocalName.Fits m.locals
  importedNamespaces : Listed Short m.importedNamespaces

structure ModuleSymbols.Fits (m : ModuleSymbols) : Prop where
  methods : Listed MethodSymbols.Fits m.methods

def NativeEvent.Fits : NativeEvent → Prop
  | .moduleLoaded m => m.Fits
  | .exception _ _ v | .evalException _ _ v => v.Fits
  | .evalComplete _ _ result => ∀ v ∈ result, v.Fits
  | _ => True

/-! ## Numbers as bytes -/

@[simp] theorem length_littleEndian (n x : Nat) : (littleEndian n x).length = n := by
  induction n generalizing x with
  | zero => rfl
  | succ n inductionHypothesis => rw [littleEndian, List.length_cons, inductionHypothesis]

theorem ofLittleEndian_littleEndian (n x : Nat) :
    ofLittleEndian (littleEndian n x) = x % 256 ^ n := by
  induction n generalizing x with
  | zero => exact (Nat.mod_one x).symm
  | succ n inductionHypothesis =>
      rw [littleEndian, ofLittleEndian, inductionHypothesis, Nat.pow_succ', Nat.mod_mul]
      rfl

/-- A pattern of the size of its type stands for the value that it came from. -/
theorem Primitive.ofPattern_pattern (p : Primitive) : ofPattern p.type p.pattern = p := by
  cases p with
  | bool v => cases v <;> rfl
  | _ => simp [type, pattern, ofPattern]

theorem Primitive.pattern_lt (p : Primitive) : p.pattern < 256 ^ p.type.size := by
  cases p with
  | bool v => cases v <;> decide
  | char v | u16 v => exact v.toNat_lt
  | i8 v => exact v.toUInt8.toNat_lt
  | u8 v => exact v.toNat_lt
  | i16 v => exact v.toUInt16.toNat_lt
  | i32 v => exact v.toUInt32.toNat_lt
  | u32 v | f32 v => exact v.toNat_lt
  | i64 v => exact v.toUInt64.toNat_lt
  | u64 v | f64 v => exact v.toNat_lt

@[simp] theorem Primitive.length_toBytes (p : Primitive) : p.toBytes.length = p.type.size :=
  length_littleEndian _ _

@[simp] theorem Primitive.ofBytes?_toBytes (p : Primitive) :
    ofBytes? p.type p.toBytes = some p := by
  have pattern : ofLittleEndian p.toBytes = p.pattern :=
    (ofLittleEndian_littleEndian _ _).trans (Nat.mod_eq_of_lt p.pattern_lt)
  rw [ofBytes?, length_toBytes, if_neg (Nat.lt_irrefl _), ← p.length_toBytes, List.take_length,
    pattern, ofPattern_pattern]

namespace Wire

@[simp] theorem length_bigEndian (n x : Nat) : (bigEndian n x).length = n :=
  List.length_reverse.trans (length_littleEndian n x)

theorem ofBigEndian_bigEndian {n x : Nat} (less : x < 256 ^ n) :
    ofBigEndian (bigEndian n x) = x := by
  rw [ofBigEndian, bigEndian, List.reverse_reverse, ofLittleEndian_littleEndian,
    Nat.mod_eq_of_lt less]

namespace Layout

variable {α β : Type} {l : Layout α} {l' : Layout β} {a : α} {b : β}

/-- The layout writes a value so that it is read from the front of whatever follows. -/
def ReadsBack (l : Layout α) (a : α) : Prop :=
  ∀ rest, l.read (l.put a ++ rest) = .ok (a, rest)

/-! ## The parts of layouts -/

theorem readsBack_fixed {n x : Nat} (what : String) (less : x < 256 ^ n) :
    (fixed n what).ReadsBack x := by
  intro rest
  refine (bind_of_ok (take_eq_ok_iff.mpr ⟨length_bigEndian n x, rfl⟩)).trans ?_
  rw [ofBigEndian_bigEndian less]
  rfl

theorem readsBack_iso {into : α → β} {back : β → α} (same : into (back b) = b)
    (readsBack : l.ReadsBack (back b)) : (l.iso into back).ReadsBack b := by
  intro rest
  refine (bind_of_ok (readsBack rest)).trans ?_
  rw [same]
  rfl

theorem readsBack_u8 (x : UInt8) : u8.ReadsBack x :=
  readsBack_iso (by simp) (readsBack_fixed _ x.toNat_lt)

theorem readsBack_u32 (x : UInt32) : u32.ReadsBack x :=
  readsBack_iso (by simp) (readsBack_fixed _ x.toNat_lt)

theorem readsBack_i32 (x : Int32) : i32.ReadsBack x :=
  readsBack_iso (by simp) (readsBack_fixed _ x.toUInt32.toNat_lt)

theorem readsBack_u64 (x : UInt64) : u64.ReadsBack x :=
  readsBack_iso (by simp) (readsBack_fixed _ x.toNat_lt)

theorem readsBack_bool (b : Bool) : bool.ReadsBack b :=
  readsBack_iso (by cases b <;> rfl) (readsBack_u8 _)

theorem ReadsBack.pair (first : l.ReadsBack a) (second : l'.ReadsBack b) :
    (l.pair l').ReadsBack (a, b) := by
  intro rest
  change (l.pair l').read (l.put a ++ l'.put b ++ rest) = _
  rw [List.append_assoc]
  exact (bind_of_ok (first _)).trans (bind_of_ok (second rest))

theorem readsBack_option {o : Option α} (readsBack : ∀ a ∈ o, l.ReadsBack a) :
    l.option.ReadsBack o := by
  intro rest
  cases o with
  | none => exact bind_of_ok (readsBack_bool false rest)
  | some a =>
      change l.option.read (bool.put true ++ l.put a ++ rest) = _
      rw [List.append_assoc]
      exact (bind_of_ok (readsBack_bool true _)).trans (bind_of_ok (readsBack a rfl rest))

theorem readsBack_coded {codeOf : α → UInt8} {ofCode? : UInt8 → Option α}
    {invalid : UInt8 → String} (known : ofCode? (codeOf a) = some a) :
    (coded codeOf ofCode? invalid).ReadsBack a := by
  intro rest
  refine (bind_of_ok (readsBack_u8 (codeOf a) rest)).trans ?_
  rw [known]
  rfl

theorem toNat_length {n : Nat} (less : n < 2 ^ 32) : n.toUInt32.toNat = n :=
  Nat.mod_eq_of_lt less

theorem readsBack_string {s : String} (short : Short s) : string.ReadsBack s := by
  intro rest
  change string.read (u32.put (Text.utf8Bytes s).length.toUInt32 ++ Text.utf8Bytes s ++ rest) = _
  rw [List.append_assoc]
  refine (bind_of_ok (readsBack_u32 _ _)).trans ?_
  rw [toNat_length short]
  refine (bind_of_ok (take_eq_ok_iff.mpr ⟨rfl, rfl⟩)).trans ?_
  rw [Text.decodeUtf8_utf8Bytes]
  dsimp only
  rw [String.ofList_toList]
  rfl

theorem readsBack_primitive (p : Primitive) : primitive.ReadsBack p := by
  intro rest
  have short : p.toBytes.length < 2 ^ 32 := by
    rw [Primitive.length_toBytes]
    cases p.type <;> decide
  change primitive.read
    (u8.put p.type.tag ++ u32.put p.toBytes.length.toUInt32 ++ p.toBytes ++ rest) = _
  rw [List.append_assoc, List.append_assoc]
  refine (bind_of_ok (readsBack_u8 _ _)).trans ?_
  refine (bind_of_ok (readsBack_u32 _ _)).trans ?_
  rw [toNat_length short]
  refine (bind_of_ok (take_eq_ok_iff.mpr ⟨rfl, rfl⟩)).trans ?_
  simp only [ElementType.ofTag?_tag, Primitive.ofBytes?_toBytes]
  rfl

/-! ## Lists -/

theorem items_flatMap {as : List α} (readsBack : ∀ a ∈ as, l.ReadsBack a) (rest : Bytes) :
    l.items as.length (as.flatMap l.put ++ rest) = .ok (as, rest) := by
  induction as with
  | nil => rfl
  | cons a as inductionHypothesis =>
      rw [List.flatMap_cons, List.append_assoc]
      refine (bind_of_ok (readsBack a List.mem_cons_self _)).trans ?_
      refine bind_of_ok (inductionHypothesis fun a' isElement => ?_)
      exact readsBack a' (List.mem_cons_of_mem a isElement)

/-- A number of elements is written as the bytes of the signed number that is read. -/
theorem i32_read_length (n : Nat) (rest : Bytes) :
    i32.read (u32.put n.toUInt32 ++ rest) = .ok (n.toUInt32.toInt32, rest) := by
  have same : u32.put n.toUInt32 = i32.put n.toUInt32.toInt32 := by
    change bigEndian 4 _ = bigEndian 4 n.toUInt32.toInt32.toUInt32.toNat
    rw [UInt32.toUInt32_toInt32]
  rw [same]
  exact readsBack_i32 _ rest

theorem toInt_length {n : Nat} (less : n < 2 ^ 31) : n.toUInt32.toInt32.toInt = n :=
  Int32.toInt_ofNat_of_lt less

theorem toInt32_length_nonneg {n : Nat} (less : n < 2 ^ 31) : ¬ n.toUInt32.toInt32 < 0 := by
  rw [Int32.lt_iff_toInt_lt, toInt_length less]
  exact Int.not_lt.mpr (Int.natCast_nonneg _)

theorem length_le_flatMap (delimits : Delimits 1 l.read) {as : List α}
    (readsBack : ∀ a ∈ as, l.ReadsBack a) : as.length ≤ (as.flatMap l.put).length := by
  obtain ⟨used, enough, same, -⟩ :=
    delimits_items delimits as.length _ as [] (items_flatMap readsBack [])
  rw [List.append_cancel_right same]
  exact enough

/-- No list is refused for its number of elements, since each of them takes a byte. -/
theorem readsBack_list (delimits : Delimits 1 l.read) {as : List α}
    (listed : Listed l.ReadsBack as) : l.list.ReadsBack as := by
  intro rest
  obtain ⟨few, readsBack⟩ := listed
  have counted : count (u32.put as.length.toUInt32 ++ (as.flatMap l.put ++ rest)) =
      .ok (as.length, as.flatMap l.put ++ rest) := by
    refine count_eq_ok_iff.mpr ⟨_, i32_read_length _ _, toInt32_length_nonneg few, ?_, ?_⟩
    · rw [toInt_length few]
      rfl
    · rw [List.length_append]
      exact Nat.le_trans (length_le_flatMap delimits readsBack) (Nat.le_add_right _ _)
  change l.list.read (u32.put as.length.toUInt32 ++ as.flatMap l.put ++ rest) = _
  rw [List.append_assoc]
  exact (bind_of_ok counted).trans (items_flatMap readsBack rest)

theorem listed_readsBack {fits : α → Prop} (readsBack : ∀ a, fits a → l.ReadsBack a) {as : List α}
    (listed : Listed fits as) : Listed l.ReadsBack as :=
  ⟨listed.1, fun a isElement => readsBack a (listed.2 a isElement)⟩

/-! ## Payloads -/

theorem readsBack_methodRef (m : MethodRef) : methodRef.ReadsBack m :=
  readsBack_iso rfl ((readsBack_u64 _).pair (readsBack_u32 _))

theorem readsBack_typeRef {t : TypeRef} (fits : t.Fits) : typeRef.ReadsBack t :=
  readsBack_iso rfl ((readsBack_u64 _).pair ((readsBack_u32 _).pair (readsBack_string fits.name)))

theorem readsBack_elementType (t : ElementType) : elementType.ReadsBack t :=
  readsBack_coded (ElementType.ofTag?_tag t)

theorem readsBack_valueKind (k : ValueKind) : valueKind.ReadsBack k := by
  intro rest
  cases k with
  | primitive t =>
      change valueKind.read (u8.put 1 ++ elementType.put t ++ rest) = _
      rw [List.append_assoc]
      refine (bind_of_ok (readsBack_u8 1 _)).trans ?_
      exact bind_of_ok (readsBack_elementType t rest)
  | string => exact bind_of_ok (readsBack_u8 2 rest)
  | object => exact bind_of_ok (readsBack_u8 3 rest)
  | array => exact bind_of_ok (readsBack_u8 4 rest)
  | boxed => exact bind_of_ok (readsBack_u8 5 rest)
  | nullReference => exact bind_of_ok (readsBack_u8 6 rest)

theorem readsBack_value {v : RemoteValue} (fits : v.Fits) : value.ReadsBack v :=
  readsBack_iso rfl ((readsBack_u64 _).pair ((readsBack_valueKind _).pair (readsBack_string fits.typeName)))

theorem readsBack_module {m : ModuleInfo} (fits : m.Fits) : module.ReadsBack m :=
  readsBack_iso rfl ((readsBack_u64 _).pair
    ((readsBack_string fits.name).pair (readsBack_string fits.path)))

theorem readsBack_thread {t : NativeThread} (fits : t.Fits) : thread.ReadsBack t :=
  readsBack_iso rfl ((readsBack_u32 _).pair
    (readsBack_option fun s isThere => readsBack_string (fits.name s isThere)))

theorem readsBack_frameKind (k : FrameKind) : frameKind.ReadsBack k :=
  readsBack_coded (by cases k <;> rfl)

theorem readsBack_frame (f : NativeFrame) : frame.ReadsBack f :=
  readsBack_iso rfl ((readsBack_frameKind _).pair
    ((readsBack_option fun m _ => readsBack_methodRef m).pair (readsBack_u32 _)))

theorem readsBack_parameter {p : Parameter} (fits : p.Fits) : parameter.ReadsBack p :=
  readsBack_iso rfl ((readsBack_string fits.name).pair (readsBack_string fits.typeName))

theorem readsBack_methodInfo {m : MethodInfo} (fits : m.Fits) : methodInfo.ReadsBack m := by
  have parameters : parameter.list.ReadsBack m.parameters :=
    readsBack_list delimits_parameter
      (listed_readsBack (fun _ => readsBack_parameter) fits.parameters)
  exact readsBack_iso rfl ((readsBack_methodRef _).pair ((readsBack_string fits.name).pair
    ((readsBack_typeRef fits.declaringType).pair ((readsBack_bool _).pair (parameters.pair
      ((readsBack_u32 _).pair ((readsBack_string fits.returnType).pair
        (readsBack_bool _))))))))

theorem readsBack_field {f : FieldInfo} (fits : f.Fits) : field.ReadsBack f :=
  readsBack_iso rfl ((readsBack_u32 _).pair ((readsBack_string fits.name).pair
    ((readsBack_string fits.typeName).pair (readsBack_bool _))))

theorem readsBack_property {p : PropertyInfo} (fits : p.Fits) : property.ReadsBack p :=
  readsBack_iso rfl ((readsBack_string fits.name).pair ((readsBack_string fits.typeName).pair
    ((readsBack_option fun m _ => readsBack_methodRef m).pair (readsBack_bool _))))

theorem readsBack_typeInfo {t : TypeInfo} (fits : t.Fits) : typeInfo.ReadsBack t := by
  have fields : field.list.ReadsBack t.fields :=
    readsBack_list delimits_field (listed_readsBack (fun _ => readsBack_field) fits.fields)
  have properties : property.list.ReadsBack t.properties :=
    readsBack_list delimits_property
      (listed_readsBack (fun _ => readsBack_property) fits.properties)
  have methods : methodInfo.list.ReadsBack t.methods :=
    readsBack_list delimits_methodInfo
      (listed_readsBack (fun _ => readsBack_methodInfo) fits.methods)
  exact readsBack_iso rfl ((readsBack_typeRef fits.type).pair
    ((readsBack_option fun b isThere => readsBack_typeRef (fits.base b isThere)).pair
      ((readsBack_bool _).pair (fields.pair (properties.pair methods)))))

theorem readsBack_sequencePoint (p : SequencePoint) : sequencePoint.ReadsBack p :=
  readsBack_iso rfl ((readsBack_u32 _).pair ((readsBack_u32 _).pair
    ((readsBack_u32 _).pair ((readsBack_u32 _).pair (readsBack_u32 _)))))

theorem readsBack_awaitBlock (a : AwaitBlock) : awaitBlock.ReadsBack a :=
  readsBack_iso rfl ((readsBack_u32 _).pair (readsBack_u32 _))

theorem readsBack_asyncInfo {i : AsyncInfo} (few : i.awaits.length < 2 ^ 31) :
    asyncInfo.ReadsBack i := by
  have awaits : awaitBlock.list.ReadsBack i.awaits :=
    readsBack_list delimits_awaitBlock ⟨few, fun a _ => readsBack_awaitBlock a⟩
  exact readsBack_iso rfl (awaits.pair (readsBack_u32 _))

theorem readsBack_localName {n : LocalName} (fits : n.Fits) : localName.ReadsBack n :=
  readsBack_iso rfl ((readsBack_u32 _).pair ((readsBack_string fits.name).pair
    ((readsBack_u32 _).pair (readsBack_u32 _))))

theorem readsBack_methodSymbols {m : MethodSymbols} (fits : m.Fits) :
    methodSymbols.ReadsBack m := by
  have points : sequencePoint.list.ReadsBack m.sequencePoints :=
    readsBack_list delimits_sequencePoint
      ⟨fits.sequencePoints, fun p _ => readsBack_sequencePoint p⟩
  have asyncInfo : asyncInfo.option.ReadsBack m.asyncInfo :=
    readsBack_option fun i isThere => readsBack_asyncInfo (fits.asyncInfo i isThere)
  have locals : localName.list.ReadsBack m.locals :=
    readsBack_list delimits_localName (listed_readsBack (fun _ => readsBack_localName) fits.locals)
  have namespaces : string.list.ReadsBack m.importedNamespaces :=
    readsBack_list delimits_string
      (listed_readsBack (fun _ => readsBack_string) fits.importedNamespaces)
  exact readsBack_iso rfl ((readsBack_u32 _).pair ((readsBack_string fits.document).pair ((readsBack_u32 _).pair
    (points.pair (asyncInfo.pair (locals.pair namespaces))))))

theorem readsBack_moduleSymbols {m : ModuleSymbols} (fits : m.Fits) :
    moduleSymbols.ReadsBack m := by
  have methods : methodSymbols.list.ReadsBack m.methods :=
    readsBack_list delimits_methodSymbols
      (listed_readsBack (fun _ => readsBack_methodSymbols) fits.methods)
  exact readsBack_iso rfl (methods.pair (readsBack_option fun e _ => readsBack_u32 e))

/-! ## Notifications -/

theorem readsBack_stepReason (r : StepReason) : stepReason.ReadsBack r :=
  readsBack_coded (by cases r <;> rfl)

theorem readsBack_exceptionStage (s : ExceptionStage) : exceptionStage.ReadsBack s :=
  readsBack_coded (by cases s <;> rfl)

theorem readsBack_event {e : NativeEvent} (fits : e.Fits) : event.ReadsBack e := by
  intro rest
  change readEvent (putEvent e ++ rest) = _
  cases e with
  | domainCreated => exact bind_of_ok (readsBack_u8 3 rest)
  | processCreated pid =>
      rw [putEvent, List.append_assoc]
      exact (bind_of_ok (readsBack_u8 1 _)).trans (bind_of_ok (readsBack_u32 pid rest))
  | processExited code =>
      rw [putEvent, List.append_assoc]
      exact (bind_of_ok (readsBack_u8 2 _)).trans (bind_of_ok (readsBack_i32 code rest))
  | threadCreated t =>
      rw [putEvent, List.append_assoc]
      exact (bind_of_ok (readsBack_u8 4 _)).trans (bind_of_ok (readsBack_u32 t rest))
  | threadExited t =>
      rw [putEvent, List.append_assoc]
      exact (bind_of_ok (readsBack_u8 5 _)).trans (bind_of_ok (readsBack_u32 t rest))
  | moduleLoaded m =>
      rw [putEvent, List.append_assoc]
      exact (bind_of_ok (readsBack_u8 6 _)).trans (bind_of_ok (readsBack_module fits rest))
  | moduleUnloaded m =>
      rw [putEvent, List.append_assoc]
      exact (bind_of_ok (readsBack_u8 7 _)).trans (bind_of_ok (readsBack_u64 m rest))
  | userBreak t =>
      rw [putEvent, List.append_assoc]
      exact (bind_of_ok (readsBack_u8 10 _)).trans (bind_of_ok (readsBack_u32 t rest))
  | breakpointHit t b =>
      rw [putEvent, List.append_assoc, List.append_assoc]
      exact (bind_of_ok (readsBack_u8 8 _)).trans
        ((bind_of_ok (readsBack_u32 t _)).trans (bind_of_ok (readsBack_u32 b.number rest)))
  | stepComplete t reason =>
      rw [putEvent, List.append_assoc, List.append_assoc]
      exact (bind_of_ok (readsBack_u8 9 _)).trans
        ((bind_of_ok (readsBack_u32 t _)).trans (bind_of_ok (readsBack_stepReason reason rest)))
  | exception t stage v =>
      rw [putEvent, List.append_assoc, List.append_assoc, List.append_assoc]
      exact (bind_of_ok (readsBack_u8 11 _)).trans ((bind_of_ok (readsBack_u32 t _)).trans
        ((bind_of_ok (readsBack_exceptionStage stage _)).trans
          (bind_of_ok (readsBack_value fits rest))))
  | evalComplete t eval result =>
      have back : value.option.ReadsBack result :=
        readsBack_option fun v isThere => readsBack_value (fits v isThere)
      rw [putEvent, List.append_assoc, List.append_assoc, List.append_assoc]
      exact (bind_of_ok (readsBack_u8 12 _)).trans ((bind_of_ok (readsBack_u32 t _)).trans
        ((bind_of_ok (readsBack_u64 eval.number _)).trans (bind_of_ok (back rest))))
  | evalException t eval v =>
      rw [putEvent, List.append_assoc, List.append_assoc, List.append_assoc]
      exact (bind_of_ok (readsBack_u8 13 _)).trans ((bind_of_ok (readsBack_u32 t _)).trans
        ((bind_of_ok (readsBack_u64 eval.number _)).trans (bind_of_ok (readsBack_value fits rest))))

theorem eventCount_written {n : Nat} (few : n < 2 ^ 31) (rest : Bytes) :
    eventCount (u32.put n.toUInt32 ++ rest) = .ok (n, rest) := by
  refine (bind_of_ok (i32_read_length n _)).trans ?_
  rw [if_neg (toInt32_length_nonneg few), toInt_length few]
  rfl

theorem readsBack_events {es : List NativeEvent} (listed : Listed NativeEvent.Fits es) :
    events.ReadsBack es := by
  intro rest
  obtain ⟨few, fits⟩ := listed
  change events.read (u32.put es.length.toUInt32 ++ es.flatMap event.put ++ rest) = _
  rw [List.append_assoc]
  refine (bind_of_ok (eventCount_written few _)).trans ?_
  exact items_flatMap (fun e isElement => readsBack_event (fits e isElement)) rest

end Layout

/-! ## Every payload -/

/-- The sizes in a value can be written. -/
def PayloadType.Fits : (t : PayloadType) → t.Carrier → Prop
  | string, s => Short s
  | typeRef, t => TypeRef.Fits t
  | value, v => RemoteValue.Fits v
  | module, m => ModuleInfo.Fits m
  | thread, t => NativeThread.Fits t
  | methodInfo, m => MethodInfo.Fits m
  | typeInfo, t => TypeInfo.Fits t
  | moduleSymbols, m => ModuleSymbols.Fits m
  | list item, as => Listed item.Fits as
  | option item, o => ∀ a ∈ o, item.Fits a
  | u8, _ | bool, _ | u32, _ | i32, _ | u64, _ | methodRef, _ | primitive, _ | frame, _ => True

theorem PayloadType.readsBack_layout (t : PayloadType) {v : t.Carrier} (fits : t.Fits v) :
    t.layout.ReadsBack v := by
  induction t with
  | u8 => exact Layout.readsBack_u8 v
  | bool => exact Layout.readsBack_bool v
  | u32 => exact Layout.readsBack_u32 v
  | i32 => exact Layout.readsBack_i32 v
  | u64 => exact Layout.readsBack_u64 v
  | string => exact Layout.readsBack_string fits
  | methodRef => exact Layout.readsBack_methodRef v
  | typeRef => exact Layout.readsBack_typeRef fits
  | value => exact Layout.readsBack_value fits
  | primitive => exact Layout.readsBack_primitive v
  | module => exact Layout.readsBack_module fits
  | thread => exact Layout.readsBack_thread fits
  | frame => exact Layout.readsBack_frame v
  | methodInfo => exact Layout.readsBack_methodInfo fits
  | typeInfo => exact Layout.readsBack_typeInfo fits
  | moduleSymbols => exact Layout.readsBack_moduleSymbols fits
  | list item inductionHypothesis =>
      exact Layout.readsBack_list item.delimits_layout
        (Layout.listed_readsBack (fun _ => inductionHypothesis) fits)
  | option item inductionHypothesis =>
      exact Layout.readsBack_option fun a isThere => inductionHypothesis (fits a isThere)

/-- The writers of commands: numbers with their highest byte first, texts and raw bytes behind their
lengths. -/
theorem put_string {s : String} (short : Short s) :
    Layout.string.put s = bigEndian 4 (Text.utf8Bytes s).length ++ Text.utf8Bytes s := by
  change bigEndian 4 (Text.utf8Bytes s).length.toUInt32.toNat ++ _ = _
  rw [Layout.toNat_length short]

theorem put_primitive (p : Primitive) : Layout.primitive.put p =
    p.type.tag :: (bigEndian 4 p.type.size ++ littleEndian p.type.size p.pattern) := by
  have size : p.type.size < 2 ^ 32 := by cases p.type <;> decide
  change [p.type.tag.toNat.toUInt8] ++ bigEndian 4 p.toBytes.length.toUInt32.toNat ++ _ = _
  rw [Primitive.length_toBytes, Layout.toNat_length size]
  simp [Primitive.toBytes]

/-- What a layout writes is read back from the front of any bytes, be it a value of a payload or the
notifications of an event packet; and the parts of commands are written in these layouts. -/
theorem written_readBack :
    (∀ (t : PayloadType) (v : t.Carrier) (rest : Bytes), t.Fits v →
      t.layout.read (t.layout.put v ++ rest) = .ok (v, rest)) ∧
    (∀ (es : List NativeEvent) (rest : Bytes), Listed NativeEvent.Fits es →
      Layout.events? (Layout.events.put es ++ rest) = .ok es) ∧
    (∀ s : String, Short s →
      Layout.string.put s = bigEndian 4 (Text.utf8Bytes s).length ++ Text.utf8Bytes s) ∧
    (∀ m : MethodRef,
      Layout.methodRef.put m = bigEndian 8 m.module.toNat ++ bigEndian 4 m.token.toNat) ∧
    (∀ t : TypeRef, Layout.typeRef.put t =
      bigEndian 8 t.module.toNat ++ (bigEndian 4 t.token.toNat ++ Layout.string.put t.name)) ∧
    ∀ p : Primitive, Layout.primitive.put p =
      p.type.tag :: (bigEndian 4 p.type.size ++ littleEndian p.type.size p.pattern) := by
  refine ⟨?_, ?_, fun s => put_string, fun m => rfl, fun t => rfl, put_primitive⟩
  · intro t v rest fits
    exact t.readsBack_layout fits rest
  · intro es rest fits
    rw [Layout.events?, Layout.readsBack_events fits rest]
    rfl

/-- The symbols of a module with one asynchronous method. -/
def programSymbols : ModuleSymbols :=
  ⟨[⟨0x06000001, "/src/App/Program.cs", 30, [⟨0, 12, 12, 9, 30⟩], some ⟨[⟨12, 30⟩], 32⟩, [],
    ["System"]⟩], some 0x06000001⟩

/-- How they are sent: the number of methods, then of the one method its token, its document, the
size of its code, a point, an await and the last offset of user code, no local, a namespace, and
behind the methods the entry point. -/
def programPayload : Bytes :=
  [0, 0, 0, 1, 6, 0, 0, 1, 0, 0, 0, 19, 47, 115, 114, 99, 47, 65, 112, 112, 47, 80, 114, 111,
    103, 114, 97, 109, 46, 99, 115, 0, 0, 0, 30, 0, 0, 0, 1, 0, 0, 0, 0, 0, 0, 0, 12, 0, 0, 0,
    12, 0, 0, 0, 9, 0, 0, 0, 30, 1, 0, 0, 0, 1, 0, 0, 0, 12, 0, 0, 0, 30, 0, 0, 0, 32, 0, 0, 0,
    0, 0, 0, 0, 1, 0, 0, 0, 6, 83, 121, 115, 116, 101, 109, 1, 6, 0, 0, 1]

/-- The symbols of a module with one asynchronous method, and two notifications, in front of bytes
that belong to something else. -/
theorem written_readBack_moduleSymbols :
    let symbols : ModuleSymbols :=
      ⟨[⟨0x06000001, "/src/Été.cs", 30, [⟨0, 12, 12, 9, 30⟩], some ⟨[⟨12, 30⟩], 32⟩,
        [⟨0, "n", 0, 30⟩], ["System"]⟩], some 0x06000001⟩
    let hits : List NativeEvent :=
      [.breakpointHit 7 ⟨3⟩, .evalComplete 7 ⟨1⟩ (some ⟨⟨42⟩, .primitive .i4, "System.Int32"⟩)]
    PayloadType.moduleSymbols.Fits symbols ∧ Listed NativeEvent.Fits hits ∧ Short "Été" ∧
      Layout.moduleSymbols.read (Layout.moduleSymbols.put symbols ++ [1, 2]) =
        .ok (symbols, [1, 2]) ∧
      Layout.events? (Layout.events.put hits ++ [1, 2]) = .ok hits ∧
      Layout.string.put "Été" = [0, 0, 0, 5, 0xC3, 0x89, 0x74, 0xC3, 0xA9] ∧
      Layout.moduleSymbols.put programSymbols = programPayload ∧
      Layout.moduleSymbols.read (programPayload ++ [1, 2]) = .ok (programSymbols, [1, 2]) := by
  intro symbols hits
  have symbolsFit : PayloadType.moduleSymbols.Fits symbols := by
    refine ⟨by decide, fun m isElement => ?_⟩
    obtain rfl := List.mem_singleton.mp isElement
    refine ⟨by decide, by decide, by decide, ⟨by decide, fun n isLocal => ?_⟩, by decide⟩
    obtain rfl := List.mem_singleton.mp isLocal
    exact ⟨by decide⟩
  have hitsFit : Listed NativeEvent.Fits hits := by
    refine ⟨by decide, fun e isElement => ?_⟩
    obtain rfl | rfl : e = hits[0] ∨ e = hits[1] := by simpa [hits] using isElement
    · trivial
    · intro v isResult
      obtain rfl := Option.some.inj isResult
      exact ⟨by decide⟩
  have short : Short "Été" := by decide
  have programFits : PayloadType.moduleSymbols.Fits programSymbols := by
    refine ⟨by decide, fun m isElement => ?_⟩
    obtain rfl := List.mem_singleton.mp isElement
    exact ⟨by decide, by decide, by decide, ⟨by decide, List.forall_mem_nil _⟩, by decide⟩
  have sent : Layout.moduleSymbols.put programSymbols = programPayload := by decide
  have read := written_readBack.1 .moduleSymbols programSymbols [1, 2] programFits
  exact ⟨symbolsFit, hitsFit, short, written_readBack.1 .moduleSymbols symbols [1, 2] symbolsFit,
    written_readBack.2.1 hits [1, 2] hitsFit, written_readBack.2.2.1 "Été" short, sent,
    sent ▸ read⟩

end Wire

end ManagedDebugger
