import ManagedDebugger.Wire.Notification

/-!
# Readers that find their own end

A payload has no marks between its parts. Each reader has to find the end of its value by itself,
and it does: it takes some bytes from the front, and whatever follows them changes nothing. A list
looks at everything that is left of the payload before it reads its first element; that does no harm,
since each element takes a byte at least.
-/

namespace ManagedDebugger.Wire

variable {α β : Type}

theorem bind_eq_ok_iff {p : Reader α} {f : α → Reader β} {bs : Bytes} {b : β} {rest : Bytes} :
    (p >>= f) bs = .ok (b, rest) ↔
      ∃ a middle, p bs = .ok (a, middle) ∧ f a middle = .ok (b, rest) := by
  change (p bs >>= fun r => f r.1 r.2) = .ok (b, rest) ↔ _
  cases p bs with
  | error e => exact ⟨nofun, fun ⟨_, _, failed, _⟩ => nomatch failed⟩
  | ok r =>
      obtain ⟨a, middle⟩ := r
      constructor
      · intro read
        exact ⟨a, middle, rfl, read⟩
      · intro holds
        obtain ⟨_, _, ⟨⟩, read⟩ := holds
        exact read

/-- The reader goes on with what its first part left. -/
theorem bind_of_ok {p : Reader α} {f : α → Reader β} {bs middle : Bytes} {a : α}
    (read : p bs = .ok (a, middle)) : (p >>= f) bs = f a middle := by
  change (p bs >>= fun r => f r.1 r.2) = _
  rw [read]
  rfl

theorem bind_of_error {p : Reader α} {f : α → Reader β} {bs : Bytes} {e : NativeError}
    (failed : p bs = .error e) : (p >>= f) bs = .error e := by
  change (p bs >>= fun r => f r.1 r.2) = _
  rw [failed]
  rfl

theorem pure_eq_ok_iff {a b : α} {bs rest : Bytes} :
    (pure a : Reader α) bs = .ok (b, rest) ↔ b = a ∧ rest = bs := by
  constructor
  · intro read
    obtain ⟨rfl, rfl⟩ := Prod.mk.inj (Except.ok.inj read)
    exact ⟨rfl, rfl⟩
  · intro holds
    obtain ⟨rfl, rfl⟩ := holds
    rfl

theorem take_eq_ok_iff {n : Nat} {short : Nat → String} {bs front rest : Bytes} :
    take n short bs = .ok (front, rest) ↔ front.length = n ∧ bs = front ++ rest := by
  unfold take
  constructor
  · intro read
    split at read
    case isTrue enough =>
      obtain ⟨rfl, rfl⟩ := Prod.mk.inj (Except.ok.inj read)
      exact ⟨List.length_take_of_le enough, (List.take_append_drop n bs).symm⟩
    case isFalse => cases read
  · intro holds
    obtain ⟨rfl, rfl⟩ := holds
    simp

/-- A reading uses up bytes at the front, `least` of them at least, and comes to the same whatever
follows them. -/
def Delimits (least : Nat) (p : Reader α) : Prop :=
  ∀ bs a rest, p bs = .ok (a, rest) →
    ∃ used, least ≤ used.length ∧ bs = used ++ rest ∧ ∀ more, p (used ++ more) = .ok (a, more)

namespace Delimits

variable {m n : Nat} {p : Reader α} {f : α → Reader β}

theorem mono (delimits : Delimits n p) (le : m ≤ n) : Delimits m p := by
  intro bs a rest read
  obtain ⟨used, enough, same, again⟩ := delimits bs a rest read
  exact ⟨used, Nat.le_trans le enough, same, again⟩

theorem pure (a : α) : Delimits 0 (pure a : Reader α) := by
  intro bs b rest read
  obtain ⟨rfl, rfl⟩ := pure_eq_ok_iff.mp read
  exact ⟨[], Nat.le_refl 0, rfl, fun more => rfl⟩

theorem refuse (n : Nat) (detail : String) : Delimits n (refuse detail : Reader α) :=
  fun _ _ _ read => nomatch read

theorem take (n : Nat) (short : Nat → String) : Delimits n (take n short) := by
  intro bs front rest read
  obtain ⟨length, same⟩ := take_eq_ok_iff.mp read
  exact ⟨front, Nat.le_of_eq length.symm, same, fun more => take_eq_ok_iff.mpr ⟨length, rfl⟩⟩

theorem bind (first : Delimits m p) (second : ∀ a, Delimits n (f a)) :
    Delimits (m + n) (p >>= f) := by
  intro bs b rest read
  obtain ⟨a, middle, front, back⟩ := bind_eq_ok_iff.mp read
  obtain ⟨used, enough, rfl, again⟩ := first bs a middle front
  obtain ⟨used', enough', rfl, again'⟩ := second a _ b rest back
  refine ⟨used ++ used', ?_, (List.append_assoc ..).symm, fun more => ?_⟩
  · rw [List.length_append]
    exact Nat.add_le_add enough enough'
  · rw [List.append_assoc, bind_of_ok (again (used' ++ more)), again' more]

/-- What the first part uses is enough, whatever the second does. -/
theorem bind_left (first : Delimits n p) (second : ∀ a, Delimits 0 (f a)) :
    Delimits n (p >>= f) :=
  first.bind second

/-- A part that need not use anything for the whole. -/
theorem next (first : Delimits n p) (second : ∀ a, Delimits 0 (f a)) : Delimits 0 (p >>= f) :=
  (first.mono n.zero_le).bind_left second

theorem ite {c : Prop} [Decidable c] {q : Reader α} (yes : Delimits n p) (no : Delimits n q) :
    Delimits n (if c then p else q) := by
  split
  · exact yes
  · exact no

/-- A reading of all that was used is the same reading with nothing left. -/
theorem whole (delimits : Delimits n p) {used rest : Bytes} {a : α}
    (read : p (used ++ rest) = .ok (a, rest)) : p used = .ok (a, []) := by
  obtain ⟨used', -, same, again⟩ := delimits _ a rest read
  obtain rfl := List.append_cancel_right same
  simpa using again []

/-- A part of what a value takes is not enough for a value. -/
theorem cut (delimits : Delimits n p) {used short : Bytes} {a : α} (read : p used = .ok (a, []))
    (front : short <+: used) (less : short ≠ used) : ∃ e, p short = .error e := by
  cases found : p short with
  | error e => exact ⟨e, rfl⟩
  | ok result =>
      obtain ⟨b, left⟩ := result
      obtain ⟨more, rfl⟩ := front
      obtain ⟨used', -, rfl, again⟩ := delimits short b left found
      have longer : p (used' ++ left ++ more) = .ok (b, left ++ more) := by
        rw [List.append_assoc]
        exact again (left ++ more)
      rw [read] at longer
      have nothing : left ++ more = [] := (Prod.mk.inj (Except.ok.inj longer)).2.symm
      obtain ⟨rfl, rfl⟩ := List.append_eq_nil_iff.mp nothing
      exact absurd (List.append_nil _).symm less

end Delimits

namespace Layout

variable {m n : Nat}

theorem delimits_fixed (n : Nat) (what : String) : Delimits n (fixed n what).read :=
  (Delimits.take n _).bind_left fun _ => Delimits.pure _

variable {l : Layout α}

theorem delimits_iso (delimits : Delimits n l.read) (into : α → β) (back : β → α) :
    Delimits n (l.iso into back).read :=
  delimits.bind_left fun _ => Delimits.pure _

theorem delimits_u8 : Delimits 1 u8.read := delimits_iso (delimits_fixed 1 _) _ _

theorem delimits_u32 : Delimits 1 u32.read :=
  (delimits_iso (delimits_fixed 4 _) _ _).mono (by decide)

theorem delimits_i32 : Delimits 1 i32.read :=
  (delimits_iso (delimits_fixed 4 _) _ _).mono (by decide)

theorem delimits_u64 : Delimits 1 u64.read :=
  (delimits_iso (delimits_fixed 8 _) _ _).mono (by decide)

theorem delimits_bool : Delimits 1 bool.read := delimits_iso delimits_u8 _ _

theorem delimits_pair {l' : Layout β} (first : Delimits m l.read) (second : Delimits n l'.read) :
    Delimits m (l.pair l').read :=
  first.bind_left fun _ => second.next fun _ => Delimits.pure _

theorem delimits_string : Delimits 1 string.read := by
  refine delimits_u32.bind_left fun n => ?_
  refine (Delimits.take n.toNat _).next fun bs => ?_
  cases Text.decodeUtf8 bs with
  | ok s => exact Delimits.pure _
  | error fault => exact Delimits.refuse 0 _

/-- As many elements take as many bytes at least. -/
theorem delimits_items (delimits : Delimits 1 l.read) (n : Nat) : Delimits n (l.items n) := by
  induction n with
  | zero => exact Delimits.pure []
  | succ n inductionHypothesis =>
      refine (delimits.bind fun a => ?_).mono (Nat.le_of_eq (Nat.add_comm n 1))
      exact inductionHypothesis.bind_left fun as => Delimits.pure _

theorem count_eq_ok_iff {n : Nat} {bs rest : Bytes} :
    count bs = .ok (n, rest) ↔
      ∃ x : Int32, i32.read bs = .ok (x, rest) ∧ ¬ x < 0 ∧ x.toInt.toNat = n ∧
        n ≤ rest.length := by
  unfold count
  constructor
  · intro read
    obtain ⟨x, middle, counted, read⟩ := bind_eq_ok_iff.mp read
    obtain ⟨length, middle', ⟨⟩, read⟩ := bind_eq_ok_iff.mp read
    split at read
    case isTrue => cases read
    case isFalse fits =>
      obtain ⟨rfl, rfl⟩ := pure_eq_ok_iff.mp read
      rw [not_or, Nat.not_lt] at fits
      exact ⟨x, counted, fits.1, rfl, fits.2⟩
  · intro holds
    obtain ⟨x, counted, sign, rfl, fits⟩ := holds
    refine bind_eq_ok_iff.mpr ⟨x, rest, counted, ?_⟩
    refine bind_eq_ok_iff.mpr ⟨rest.length, rest, rfl, ?_⟩
    rw [if_neg (not_or.mpr ⟨sign, Nat.not_lt.mpr fits⟩)]
    rfl

/-- The number is held against the whole rest of the payload, but what the elements take is enough
for it. -/
theorem delimits_list (delimits : Delimits 1 l.read) : Delimits 1 l.list.read := by
  intro bs as rest read
  obtain ⟨n, body, counted, elements⟩ := bind_eq_ok_iff.mp read
  obtain ⟨x, number, sign, size, -⟩ := count_eq_ok_iff.mp counted
  obtain ⟨head, enough, rfl, again⟩ := delimits_i32 bs x body number
  obtain ⟨used, taken, rfl, again'⟩ := delimits_items delimits n body as rest elements
  refine ⟨head ++ used, ?_, (List.append_assoc ..).symm, fun more => ?_⟩
  · rw [List.length_append]
    exact Nat.le_trans enough (Nat.le_add_right _ _)
  · have fits : n ≤ (used ++ more).length := by
      rw [List.length_append]
      exact Nat.le_trans taken (Nat.le_add_right _ _)
    have counts : count (head ++ (used ++ more)) = .ok (n, used ++ more) :=
      count_eq_ok_iff.mpr ⟨x, again _, sign, size, fits⟩
    rw [List.append_assoc]
    exact (bind_of_ok counts).trans (again' more)

theorem delimits_option (delimits : Delimits n l.read) : Delimits 1 l.option.read := by
  refine delimits_bool.bind_left fun isThere => Delimits.ite ?_ (Delimits.pure none)
  exact delimits.next fun _ => Delimits.pure _

theorem delimits_coded {codeOf : α → UInt8} {ofCode? : UInt8 → Option α}
    {invalid : UInt8 → String} : Delimits 1 (coded codeOf ofCode? invalid).read := by
  refine delimits_u8.bind_left fun code => ?_
  cases ofCode? code with
  | some a => exact Delimits.pure a
  | none => exact Delimits.refuse 0 _

theorem delimits_primitive : Delimits 1 primitive.read := by
  refine delimits_u8.bind_left fun tag => ?_
  refine delimits_u32.next fun n => ?_
  refine (Delimits.take n.toNat _).next fun bs => ?_
  dsimp only
  split
  · exact Delimits.pure _
  · exact Delimits.refuse 0 _

theorem delimits_methodRef : Delimits 1 methodRef.read :=
  delimits_iso (delimits_pair delimits_u64 delimits_u32) _ _

theorem delimits_typeRef : Delimits 1 typeRef.read :=
  delimits_iso (delimits_pair delimits_u64 (delimits_pair delimits_u32 delimits_string)) _ _

theorem delimits_valueKind : Delimits 1 valueKind.read := by
  refine delimits_u8.bind_left fun tag => ?_
  split
  · exact delimits_coded.next fun t => Delimits.pure _
  all_goals first | exact Delimits.pure _ | exact Delimits.refuse 0 _

theorem delimits_value : Delimits 1 value.read :=
  delimits_iso (delimits_pair delimits_u64 (delimits_pair delimits_valueKind delimits_string)) _ _

theorem delimits_module : Delimits 1 module.read :=
  delimits_iso (delimits_pair delimits_u64 (delimits_pair delimits_string delimits_string)) _ _

theorem delimits_thread : Delimits 1 thread.read :=
  delimits_iso (delimits_pair delimits_u32 (delimits_option delimits_string)) _ _

theorem delimits_frame : Delimits 1 frame.read :=
  delimits_iso (delimits_pair delimits_coded
    (delimits_pair (delimits_option delimits_methodRef) delimits_u32)) _ _

theorem delimits_parameter : Delimits 1 parameter.read :=
  delimits_iso (delimits_pair delimits_string delimits_string) _ _

theorem delimits_methodInfo : Delimits 1 methodInfo.read :=
  delimits_iso (delimits_pair delimits_methodRef (delimits_pair delimits_string
    (delimits_pair delimits_typeRef (delimits_pair delimits_bool
      (delimits_pair (delimits_list delimits_parameter) (delimits_pair delimits_u32
        (delimits_pair delimits_string delimits_bool))))))) _ _

theorem delimits_field : Delimits 1 field.read :=
  delimits_iso (delimits_pair delimits_u32
    (delimits_pair delimits_string (delimits_pair delimits_string delimits_bool))) _ _

theorem delimits_property : Delimits 1 property.read :=
  delimits_iso (delimits_pair delimits_string (delimits_pair delimits_string
    (delimits_pair (delimits_option delimits_methodRef) delimits_bool))) _ _

theorem delimits_typeInfo : Delimits 1 typeInfo.read :=
  delimits_iso (delimits_pair delimits_typeRef (delimits_pair (delimits_option delimits_typeRef)
    (delimits_pair delimits_bool (delimits_pair (delimits_list delimits_field)
      (delimits_pair (delimits_list delimits_property)
        (delimits_list delimits_methodInfo)))))) _ _

theorem delimits_sequencePoint : Delimits 1 sequencePoint.read :=
  delimits_iso (delimits_pair delimits_u32 (delimits_pair delimits_u32
    (delimits_pair delimits_u32 (delimits_pair delimits_u32 delimits_u32)))) _ _

theorem delimits_awaitBlock : Delimits 1 awaitBlock.read :=
  delimits_iso (delimits_pair delimits_u32 delimits_u32) _ _

theorem delimits_asyncInfo : Delimits 1 asyncInfo.read :=
  delimits_iso (delimits_pair (delimits_list delimits_awaitBlock) delimits_u32) _ _

theorem delimits_localName : Delimits 1 localName.read :=
  delimits_iso (delimits_pair delimits_u32
    (delimits_pair delimits_string (delimits_pair delimits_u32 delimits_u32))) _ _

theorem delimits_methodSymbols : Delimits 1 methodSymbols.read :=
  delimits_iso (delimits_pair delimits_u32 (delimits_pair delimits_string
    (delimits_pair delimits_u32 (delimits_pair (delimits_list delimits_sequencePoint)
      (delimits_pair (delimits_option delimits_asyncInfo)
        (delimits_pair (delimits_list delimits_localName)
          (delimits_list delimits_string))))))) _ _

theorem delimits_moduleSymbols : Delimits 1 moduleSymbols.read :=
  delimits_iso (delimits_pair (delimits_list delimits_methodSymbols)
    (delimits_option delimits_u32)) _ _

/-- A notification takes the byte of its kind at least. -/
theorem delimits_event : Delimits 1 event.read := by
  refine delimits_u8.bind_left fun kind => ?_
  split
  · exact delimits_u32.next fun pid => Delimits.pure _
  · exact delimits_i32.next fun code => Delimits.pure _
  · exact Delimits.pure _
  · exact delimits_u32.next fun thread => Delimits.pure _
  · exact delimits_u32.next fun thread => Delimits.pure _
  · exact delimits_module.next fun module => Delimits.pure _
  · exact delimits_u64.next fun module => Delimits.pure _
  · exact delimits_u32.next fun thread => delimits_u32.next fun breakpoint => Delimits.pure _
  · exact delimits_u32.next fun thread => delimits_coded.next fun reason => Delimits.pure _
  · exact delimits_u32.next fun thread => Delimits.pure _
  · refine delimits_u32.next fun thread => delimits_coded.next fun stage => ?_
    exact delimits_value.next fun exception => Delimits.pure _
  · refine delimits_u32.next fun thread => delimits_u64.next fun eval => ?_
    exact (delimits_option delimits_value).next fun result => Delimits.pure _
  · refine delimits_u32.next fun thread => delimits_u64.next fun eval => ?_
    exact delimits_value.next fun exception => Delimits.pure _
  · exact Delimits.refuse 0 _

end Layout

/-- What stands in the payloads of commands and replies. -/
inductive PayloadType where
  | u8 | bool | u32 | i32 | u64 | string | methodRef | typeRef | value | primitive | module | thread
  | frame | methodInfo | typeInfo | moduleSymbols
  | list (item : PayloadType)
  | option (item : PayloadType)
  deriving DecidableEq, Repr

namespace PayloadType

/-- The values of a payload type. -/
abbrev Carrier : PayloadType → Type
  | u8 => UInt8
  | bool => Bool
  | u32 => UInt32
  | i32 => Int32
  | u64 => UInt64
  | string => String
  | methodRef => MethodRef
  | typeRef => TypeRef
  | value => RemoteValue
  | primitive => Primitive
  | module => ModuleInfo
  | thread => NativeThread
  | frame => NativeFrame
  | methodInfo => MethodInfo
  | typeInfo => TypeInfo
  | moduleSymbols => ModuleSymbols
  | list item => List item.Carrier
  | option item => Option item.Carrier

def layout : (t : PayloadType) → Layout t.Carrier
  | u8 => Layout.u8
  | bool => Layout.bool
  | u32 => Layout.u32
  | i32 => Layout.i32
  | u64 => Layout.u64
  | string => Layout.string
  | methodRef => Layout.methodRef
  | typeRef => Layout.typeRef
  | value => Layout.value
  | primitive => Layout.primitive
  | module => Layout.module
  | thread => Layout.thread
  | frame => Layout.frame
  | methodInfo => Layout.methodInfo
  | typeInfo => Layout.typeInfo
  | moduleSymbols => Layout.moduleSymbols
  | list item => item.layout.list
  | option item => item.layout.option

theorem delimits_layout (t : PayloadType) : Delimits 1 t.layout.read := by
  induction t with
  | u8 => exact Layout.delimits_u8
  | bool => exact Layout.delimits_bool
  | u32 => exact Layout.delimits_u32
  | i32 => exact Layout.delimits_i32
  | u64 => exact Layout.delimits_u64
  | string => exact Layout.delimits_string
  | methodRef => exact Layout.delimits_methodRef
  | typeRef => exact Layout.delimits_typeRef
  | value => exact Layout.delimits_value
  | primitive => exact Layout.delimits_primitive
  | module => exact Layout.delimits_module
  | thread => exact Layout.delimits_thread
  | frame => exact Layout.delimits_frame
  | methodInfo => exact Layout.delimits_methodInfo
  | typeInfo => exact Layout.delimits_typeInfo
  | moduleSymbols => exact Layout.delimits_moduleSymbols
  | list item inductionHypothesis => exact Layout.delimits_list inductionHypothesis
  | option item inductionHypothesis => exact Layout.delimits_option inductionHypothesis

/-- Payloads delimit themselves: what a reading leaves is the end of the bytes, the bytes that it
used are read as the same value in front of any other bytes, and no shorter part of them is read as
a value at all. -/
theorem payload_delimited (t : PayloadType) {bs rest : Bytes} {v : t.Carrier}
    (read : t.layout.read bs = .ok (v, rest)) :
    ∃ used, bs = used ++ rest ∧
      (∀ more, t.layout.read (used ++ more) = .ok (v, more)) ∧
      ∀ short, short <+: used → short ≠ used → ∃ e, t.layout.read short = .error e := by
  obtain ⟨used, -, same, again⟩ := t.delimits_layout bs v rest read
  refine ⟨used, same, again, fun short front less => ?_⟩
  exact t.delimits_layout.cut (t.delimits_layout.whole (again [])) front less

/-- Two strings, the second of them missing, and a byte that belongs to something else. -/
theorem payload_delimited_listOfStrings :
    (list (option string)).layout.read [0, 0, 0, 2, 1, 0, 0, 0, 1, 0x41, 0, 7] =
        .ok ([some "A", none], [7]) ∧
      ∃ used, [0, 0, 0, 2, 1, 0, 0, 0, 1, 0x41, 0, 7] = used ++ [7] ∧
        (∀ more, (list (option string)).layout.read (used ++ more) =
          .ok ([some "A", none], more)) ∧
        ∀ short, short <+: used → short ≠ used →
          ∃ e, (list (option string)).layout.read short = .error e := by
  have read : (list (option string)).layout.read [0, 0, 0, 2, 1, 0, 0, 0, 1, 0x41, 0, 7] =
      .ok ([some "A", none], [7]) := rfl
  exact ⟨read, payload_delimited (list (option string)) read⟩

end PayloadType

end ManagedDebugger.Wire
