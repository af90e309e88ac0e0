import ManagedDebugger.Proofs.Wire.RoundTrip
import ManagedDebugger.Wire.Packet

/-!
# Packets in a stream

Packets stand one behind the other in a stream, with nothing between them but the length at the
front of each. Whoever reads them in order finds each where the one before it ends: packets that are
not too long are read as they were written, and a packet that breaks off is never taken for a whole
one.
-/

namespace ManagedDebugger.Wire

/-! ## One packet -/

namespace PacketKind

/-- The flag that tells commands from replies, and what goes with it. -/
def bytes : PacketKind → Bytes
  | command set number => [0x00, set, number]
  | reply code => 0x80 :: bigEndian 2 code.toNat

theorem u8_put (x : UInt8) : Layout.u8.put x = [x] := by
  change [x.toNat.toUInt8] = [x]
  simp

theorem layout_put (kind : PacketKind) : layout.put kind = kind.bytes := by
  cases kind with
  | command set number => simp [layout, bytes, u8_put]
  | reply code => simp [layout, bytes, u8_put, Layout.u16, Layout.iso, Layout.fixed]

theorem length_bytes (kind : PacketKind) : kind.bytes.length = 3 := by
  cases kind <;> simp [bytes]

theorem readsBack_u16 (x : UInt16) : Layout.u16.ReadsBack x :=
  Layout.readsBack_iso (by simp) (Layout.readsBack_fixed _ x.toNat_lt)

theorem readsBack_layout (kind : PacketKind) : layout.ReadsBack kind := by
  intro rest
  cases kind with
  | command set number =>
      have written : layout.put (command set number) ++ rest =
          Layout.u8.put 0x00 ++ (Layout.u8.put set ++ (Layout.u8.put number ++ rest)) := by
        simp [layout]
      rw [written]
      refine (bind_of_ok (Layout.readsBack_u8 0x00 _)).trans ?_
      rw [if_pos rfl]
      refine (bind_of_ok (Layout.readsBack_u8 set _)).trans ?_
      exact bind_of_ok (Layout.readsBack_u8 number rest)
  | reply code =>
      have written : layout.put (reply code) ++ rest =
          Layout.u8.put 0x80 ++ (Layout.u16.put code ++ rest) := by
        simp [layout]
      rw [written]
      refine (bind_of_ok (Layout.readsBack_u8 0x80 _)).trans ?_
      rw [if_neg (by decide), if_pos rfl]
      exact bind_of_ok (readsBack_u16 code rest)

end PacketKind

namespace Packet

/-- The length with the header, the id and the kind. -/
def header (p : Packet) : Bytes :=
  bigEndian 4 (headerSize + p.payload.length).toUInt32.toNat ++ bigEndian 4 p.id.toNat ++ p.kind.bytes

theorem encode_eq (p : Packet) : p.encode = p.header ++ p.payload := by
  rw [encode, PacketKind.layout_put]
  rfl

theorem length_header (p : Packet) : p.header.length = headerSize := by
  simp [header, PacketKind.length_bytes, headerSize]

theorem length_encode (p : Packet) : p.encode.length = headerSize + p.payload.length := by
  rw [encode_eq, List.length_append, length_header]

/-- The header says how long the packet is, whatever follows it. -/
theorem parse_header {p : Packet} (writable : p.encode.length < 2 ^ 32) (rest : Bytes) :
    Header.parse (p.header ++ rest) = .ok ⟨p.encode.length, p.id, p.kind⟩ := by
  rw [length_encode] at writable
  have enough : ¬ (p.header ++ rest).length < headerSize := by
    rw [List.length_append, length_header]
    omega
  have written : p.header ++ rest =
      (Layout.u32.pair (Layout.u32.pair PacketKind.layout)).put
        ((headerSize + p.payload.length).toUInt32, p.id, p.kind) ++ rest := by
    simp [header, Layout.pair, PacketKind.layout_put, Layout.u32, Layout.iso, Layout.fixed]
  have read := (Layout.readsBack_u32 (headerSize + p.payload.length).toUInt32).pair
    ((Layout.readsBack_u32 p.id).pair (PacketKind.readsBack_layout p.kind)) rest
  rw [← written] at read
  unfold Header.parse
  rw [if_neg enough, read, length_encode]
  simp only [bind, Except.bind, Layout.toNat_length writable]
  rw [if_neg (by omega)]

end Packet

/-! ## The packet at the front of a stream -/

theorem nextPacket_encode {p : Packet} (fits : p.encode.length ≤ maxPacketSize) (rest : Bytes) :
    nextPacket (p.encode ++ rest) = .packet p rest := by
  have writable : p.encode.length < 2 ^ 32 := by
    unfold maxPacketSize at fits
    omega
  have long : headerSize ≤ p.encode.length := by
    rw [p.length_encode]
    omega
  have parsed : Header.parse (p.encode ++ rest) = .ok ⟨p.encode.length, p.id, p.kind⟩ := by
    rw [p.encode_eq, List.append_assoc, ← p.encode_eq]
    exact Packet.parse_header writable (p.payload ++ rest)
  have payload : p.encode.drop headerSize = p.payload := by
    rw [p.encode_eq, ← p.length_header, List.drop_left]
  unfold nextPacket
  rw [if_neg (by rw [List.length_append]; omega), parsed]
  dsimp only
  rw [if_neg (by omega), if_neg (by rw [List.length_append]; omega), List.take_left, List.drop_left,
    payload]

/-- A packet that breaks off is incomplete, unless its header already claims too much. -/
theorem nextPacket_cut {p : Packet} (writable : p.encode.length < 2 ^ 32) {cut : Bytes}
    (front : cut <+: p.encode) (broken : cut ≠ p.encode) :
    nextPacket cut = .more ∨ maxPacketSize < p.encode.length ∧ ∃ e, nextPacket cut = .broken e := by
  have shorter : cut.length < p.encode.length :=
    Nat.lt_of_le_of_ne front.length_le fun same => broken (front.eq_of_length same)
  by_cases headless : cut.length < headerSize
  · left
    simp [nextPacket, headless]
  · obtain ⟨part, rfl⟩ : p.header <+: cut := by
      apply List.prefix_of_prefix_length_le (List.prefix_append p.header p.payload)
      · rw [← p.encode_eq]
        exact front
      · rw [p.length_header]
        omega
    have parsed := Packet.parse_header writable part
    unfold nextPacket
    rw [if_neg headless, parsed]
    by_cases long : maxPacketSize < p.encode.length
    · right
      refine ⟨long, ?_⟩
      simp only [if_pos long]
      exact ⟨_, rfl⟩
    · left
      simp only [if_neg long, if_pos shorter]

theorem readPacket_encode {p : Packet} (fits : p.encode.length ≤ maxPacketSize) (rest : Bytes) :
    readPacket (p.encode ++ rest) = .ok (p, rest) := by
  rw [readPacket, nextPacket_encode fits]

/-! ## A whole stream -/

/-- Packets are read one after another from all the bytes that will ever arrive, until one cannot be
read. -/
inductive Reads : Bytes → List Packet → NativeError → Prop where
  | fail {stream : Bytes} {e : NativeError} : readPacket stream = .error e → Reads stream [] e
  | read {stream rest : Bytes} {p : Packet} {ps : List Packet} {e : NativeError} :
      readPacket stream = .ok (p, rest) → Reads rest ps e → Reads stream (p :: ps) e

theorem reads_iff_of_fail {stream : Bytes} {e : NativeError} (failed : readPacket stream = .error e)
    {ps : List Packet} {e' : NativeError} : Reads stream ps e' ↔ ps = [] ∧ e' = e := by
  constructor
  · intro reads
    cases reads with
    | fail failed' =>
        rw [failed] at failed'
        exact ⟨rfl, (Except.error.inj failed').symm⟩
    | read found _ =>
        rw [failed] at found
        cases found
  · rintro ⟨rfl, rfl⟩
    exact .fail failed

theorem reads_iff_of_read {stream rest : Bytes} {p : Packet}
    (found : readPacket stream = .ok (p, rest)) {ps : List Packet} {e : NativeError} :
    Reads stream ps e ↔ ∃ others, ps = p :: others ∧ Reads rest others e := by
  constructor
  · intro reads
    cases reads with
    | fail failed =>
        rw [found] at failed
        cases failed
    | read found' others =>
        rw [found] at found'
        cases found'
        exact ⟨_, rfl, others⟩
  · rintro ⟨others, rfl, reads⟩
    exact .read found reads

/-- A connection takes packets from what has arrived as they are read, and keeps the rest. -/
theorem packetsOf_encode {p : Packet} (fits : p.encode.length ≤ maxPacketSize) (rest : Bytes) :
    packetsOf (p.encode ++ rest) =
      (p :: (packetsOf rest).1, (packetsOf rest).2.1, (packetsOf rest).2.2) := by
  have shorter : rest.length < (p.encode ++ rest).length := by
    rw [List.length_append, p.length_encode, headerSize]
    omega
  rw [packetsOf, nextPacket_encode fits]
  simp only [if_pos shorter]

theorem packetsOf_of_fail {stream : Bytes} {e : NativeError}
    (failed : readPacket stream = .error e) :
    (packetsOf stream).1 = [] ∧ (packetsOf stream).2.1 = stream := by
  unfold readPacket at failed
  unfold packetsOf
  cases next : nextPacket stream with
  | packet p rest =>
      rw [next] at failed
      cases failed
  | more => simp
  | broken e => simp

/-! ## A stream that comes in pieces -/

theorem delimits_kind : Delimits 1 PacketKind.layout.read := by
  apply Layout.delimits_u8.bind_left
  intro flags
  apply Delimits.ite
  · exact Layout.delimits_u8.next fun _ => Layout.delimits_u8.next fun _ => Delimits.pure _
  · apply Delimits.ite
    · have code : Delimits 2 Layout.u16.read := Layout.delimits_iso (Layout.delimits_fixed 2 _) _ _
      exact code.next fun _ => Delimits.pure _
    · exact Delimits.refuse 0 _

/-- A header tells of itself at least. -/
theorem Header.le_length {stream : Bytes} {h : Header} (parsed : Header.parse stream = .ok h) :
    headerSize ≤ h.length := by
  unfold Header.parse at parsed
  split at parsed
  · cases parsed
  · cases read : (Layout.u32.pair (Layout.u32.pair PacketKind.layout)).read stream with
    | error e =>
        rw [read] at parsed
        cases parsed
    | ok result =>
        obtain ⟨⟨length, id, kind⟩, rest⟩ := result
        rw [read] at parsed
        change (if length.toNat < headerSize then _ else _) = _ at parsed
        split at parsed
        · cases parsed
        · next enough =>
          cases parsed
          exact Nat.not_lt.mp enough

theorem Header.parse_append {stream : Bytes} {h : Header} (parsed : Header.parse stream = .ok h)
    (more : Bytes) : Header.parse (stream ++ more) = .ok h := by
  have delimits : Delimits 1 (Layout.u32.pair (Layout.u32.pair PacketKind.layout)).read :=
    Layout.delimits_pair Layout.delimits_u32 (Layout.delimits_pair Layout.delimits_u32 delimits_kind)
  unfold Header.parse at parsed ⊢
  split at parsed
  · cases parsed
  · next enough =>
    have still : ¬ (stream ++ more).length < headerSize := by
      rw [List.length_append]
      omega
    rw [if_neg still]
    cases read : (Layout.u32.pair (Layout.u32.pair PacketKind.layout)).read stream with
    | error e =>
        rw [read] at parsed
        cases parsed
    | ok result =>
        obtain ⟨fields, rest⟩ := result
        obtain ⟨used, -, rfl, again⟩ := delimits stream fields rest read
        rw [read] at parsed
        rw [List.append_assoc, again (rest ++ more)]
        exact parsed

/-- A packet that is complete stays what it is, whatever comes behind it. -/
theorem nextPacket_append {stream rest : Bytes} {p : Packet}
    (next : nextPacket stream = .packet p rest) (more : Bytes) :
    nextPacket (stream ++ more) = .packet p (rest ++ more) ∧ rest.length < stream.length := by
  unfold nextPacket at next
  split at next
  · cases next
  · next enough =>
    split at next
    · cases next
    · next h parsed =>
      split at next
      · cases next
      · next fits =>
        split at next
        · cases next
        · next complete =>
          cases next
          have all : h.length ≤ stream.length := Nat.not_lt.mp complete
          have still : ¬ (stream ++ more).length < headerSize ∧
              ¬ (stream ++ more).length < h.length := by
            rw [List.length_append]
            omega
          constructor
          · rw [nextPacket, if_neg still.1, Header.parse_append parsed]
            simp only [if_neg fits, if_neg still.2, List.take_append_of_le_length all,
              List.drop_append_of_le_length all]
          · have header : headerSize ≤ h.length := Header.le_length parsed
            rw [List.length_drop]
            rw [headerSize] at enough header
            omega

/-- More bytes bring the packets that are complete with them, behind those that were before. -/
theorem packetsOf_append {stream rest : Bytes} {ps : List Packet}
    (read : packetsOf stream = (ps, rest, true)) (more : Bytes) :
    packetsOf (stream ++ more) =
      (ps ++ (packetsOf (rest ++ more)).1, (packetsOf (rest ++ more)).2) := by
  induction ps generalizing stream with
  | nil =>
      unfold packetsOf at read
      split at read
      · cases read
        rfl
      · cases read
      · split at read
        · cases read
        · cases read
  | cons p ps inductionHypothesis =>
      unfold packetsOf at read
      split at read
      · cases read
      · cases read
      · next first behind next =>
        obtain ⟨again, shorter⟩ := nextPacket_append next more
        rw [if_pos shorter] at read
        simp only [Prod.mk.injEq, List.cons.injEq] at read
        obtain ⟨⟨rfl, others⟩, left, readable⟩ := read
        have remaining : packetsOf behind = (ps, rest, true) :=
          Prod.ext others (Prod.ext left readable)
        have still : (behind ++ more).length < (stream ++ more).length := by
          simpa using shorter
        rw [packetsOf, again]
        simp only [if_pos still, inductionHypothesis remaining, List.cons_append]

section Stream

variable {ps : List Packet} {cut : Bytes} {e : NativeError}

theorem reads_flatMap_iff (fits : ∀ p ∈ ps, p.encode.length ≤ maxPacketSize)
    (failed : readPacket cut = .error e) {ps' : List Packet} {e' : NativeError} :
    Reads (ps.flatMap Packet.encode ++ cut) ps' e' ↔ ps' = ps ∧ e' = e := by
  induction ps generalizing ps' with
  | nil => exact reads_iff_of_fail failed
  | cons p ps inductionHypothesis =>
      have others : ∀ q ∈ ps, q.encode.length ≤ maxPacketSize :=
        fun q isElement => fits q (List.mem_cons_of_mem p isElement)
      rw [List.flatMap_cons, List.append_assoc,
        reads_iff_of_read (readPacket_encode (fits p List.mem_cons_self) _)]
      simp only [inductionHypothesis others]
      constructor
      · rintro ⟨_, rfl, rfl, rfl⟩
        exact ⟨rfl, rfl⟩
      · rintro ⟨rfl, rfl⟩
        exact ⟨ps, rfl, rfl, rfl⟩

theorem packetsOf_flatMap (fits : ∀ p ∈ ps, p.encode.length ≤ maxPacketSize)
    (failed : readPacket cut = .error e) :
    (packetsOf (ps.flatMap Packet.encode ++ cut)).1 = ps ∧
      (packetsOf (ps.flatMap Packet.encode ++ cut)).2.1 = cut := by
  induction ps with
  | nil => exact packetsOf_of_fail failed
  | cons p ps inductionHypothesis =>
      have others := inductionHypothesis fun q isElement => fits q (List.mem_cons_of_mem p isElement)
      rw [List.flatMap_cons, List.append_assoc, packetsOf_encode (fits p List.mem_cons_self)]
      exact ⟨congrArg (p :: ·) others.1, others.2⟩

end Stream

/-- Packets that are not too long, each written with its length in front, are read as they were
written, and the packet that breaks off behind them is an error. -/
theorem reads_written {ps : List Packet} (fits : ∀ p ∈ ps, p.encode.length ≤ maxPacketSize)
    {further : Packet} (writable : further.encode.length < 2 ^ 32) {cut : Bytes}
    (front : cut <+: further.encode) (broken : cut ≠ further.encode) :
    (∀ p ∈ ps, p.encode = bigEndian 4 (headerSize + p.payload.length) ++ bigEndian 4 p.id.toNat ++
        p.kind.bytes ++ p.payload) ∧
      (∃ e, (further.encode.length ≤ maxPacketSize → e = .io) ∧
        ∀ ps' e', Reads (ps.flatMap Packet.encode ++ cut) ps' e' ↔ ps' = ps ∧ e' = e) ∧
      (packetsOf (ps.flatMap Packet.encode ++ cut)).1 = ps ∧
      (packetsOf (ps.flatMap Packet.encode ++ cut)).2.1 = cut := by
  have failed : ∃ e, (further.encode.length ≤ maxPacketSize → e = .io) ∧
      readPacket cut = .error e := by
    cases nextPacket_cut writable front broken with
    | inl incomplete =>
        refine ⟨.io, fun _ => rfl, ?_⟩
        rw [readPacket, incomplete]
    | inr tooLong =>
        obtain ⟨long, e, refused⟩ := tooLong
        refine ⟨e, fun short => absurd short (Nat.not_le_of_lt long), ?_⟩
        rw [readPacket, refused]
  obtain ⟨e, incomplete, failed⟩ := failed
  refine ⟨?_, ⟨e, incomplete, fun _ _ => reads_flatMap_iff fits failed⟩,
    packetsOf_flatMap fits failed⟩
  intro p isElement
  have short : headerSize + p.payload.length < 2 ^ 32 := by
    have fit := fits p isElement
    rw [p.length_encode] at fit
    unfold maxPacketSize at fit
    omega
  rw [p.encode_eq, Packet.header, Layout.toNat_length short]

/-- A command and an error reply, and a command whose payload has not arrived. -/
theorem reads_written_commandAndReply :
    let attach : Packet := ⟨1, .command 1 2, [0, 0, 0, 7]⟩
    let refusal : Packet := ⟨1, .reply 21, []⟩
    let stop : Packet := ⟨2, .command 64 100, [0, 0, 0, 0]⟩
    let ps := [attach, refusal]
    let cut : Bytes := [0, 0, 0, 15, 0, 0, 0, 2, 0, 64, 100, 0]
    (∀ p ∈ ps, p.encode.length ≤ maxPacketSize) ∧ attach ∈ ps ∧ stop.encode.length < 2 ^ 32 ∧
      cut <+: stop.encode ∧ cut ≠ stop.encode ∧
      (∀ p ∈ ps, p.encode = bigEndian 4 (headerSize + p.payload.length) ++
          bigEndian 4 p.id.toNat ++ p.kind.bytes ++ p.payload) ∧
      (∃ e, (stop.encode.length ≤ maxPacketSize → e = .io) ∧
        ∀ ps' e', Reads (ps.flatMap Packet.encode ++ cut) ps' e' ↔ ps' = ps ∧ e' = e) ∧
      (packetsOf (ps.flatMap Packet.encode ++ cut)).1 = ps ∧
      (packetsOf (ps.flatMap Packet.encode ++ cut)).2.1 = cut := by
  have fits : ∀ p ∈ ([⟨1, .command 1 2, [0, 0, 0, 7]⟩, ⟨1, .reply 21, []⟩] : List Packet),
      p.encode.length ≤ maxPacketSize := by decide
  have writable : (⟨2, .command 64 100, [0, 0, 0, 0]⟩ : Packet).encode.length < 2 ^ 32 := by decide
  have front : ([0, 0, 0, 15, 0, 0, 0, 2, 0, 64, 100, 0] : Bytes) <+:
      (⟨2, .command 64 100, [0, 0, 0, 0]⟩ : Packet).encode := by decide
  have broken : ([0, 0, 0, 15, 0, 0, 0, 2, 0, 64, 100, 0] : Bytes) ≠
      (⟨2, .command 64 100, [0, 0, 0, 0]⟩ : Packet).encode := by decide
  exact ⟨fits, List.mem_cons_self, writable, front, broken,
    reads_written fits writable front broken⟩

end ManagedDebugger.Wire
