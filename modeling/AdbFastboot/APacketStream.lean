import AdbFastboot.APacketReassembly
import AdbFastboot.Outcome

namespace AdbFastboot

open List AdbMessageHeader

/-- A reader of `data` that delivers as many bytes at its `n`-th read as `sizes n` says, as far as
the caller's buffer and the data go: none at the end, else at least one. -/
structure SizedReader where
  data : Bytes
  sizes : Nat → Nat
  reads : Nat

namespace SizedReader

def count (rd : SizedReader) (cap : Nat) : Nat :=
  min (min cap (max 1 (rd.sizes rd.reads))) rd.data.length

def read (rd : SizedReader) (cap : Nat) : Bytes × SizedReader :=
  (rd.data.take (rd.count cap),
    { rd with data := rd.data.drop (rd.count cap), reads := rd.reads + 1 })

theorem read_append (rd : SizedReader) (cap : Nat) :
    (rd.read cap).1 ++ (rd.read cap).2.data = rd.data := take_append_drop _ _

theorem read_length (rd : SizedReader) (cap : Nat) :
    (rd.read cap).1.length + (rd.read cap).2.data.length = rd.data.length := by
  rw [← length_append, read_append]

theorem read_ne_nil {rd : SizedReader} {cap : Nat} (hc : 0 < cap) (hd : rd.data ≠ []) :
    (rd.read cap).1 ≠ [] := by
  have hpos := length_pos_iff.mpr hd
  have hct : 0 < rd.count cap := by
    rw [count]
    omega
  rw [← length_pos_iff, read, length_take]
  omega

end SizedReader

inductive PacketReadState where
  | needHeader
  | needPayload (remaining : Nat)
deriving DecidableEq, Repr

structure APacketStreamReader where
  reader : SizedReader
  buf : Bytes
  state : PacketReadState
  pendingHeader : Option AdbMessageHeader
  streamOffset : Nat

inductive FillTurn where
  | done (result : Outcome String (Option (AdbMessageHeader × Bytes)))
      (s : APacketStreamReader)
  | again (s : APacketStreamReader)

namespace APacketStreamReader

def tmpLen : Nat := 8192

def new (reader : SizedReader) : APacketStreamReader where
  reader := reader
  buf := []
  state := .needHeader
  pendingHeader := none
  streamOffset := 0

def readMore (s : APacketStreamReader) (cap : Nat)
    (eof : Outcome String (Option (AdbMessageHeader × Bytes))) : FillTurn :=
  let got := s.reader.read cap
  if got.1.length = 0 then .done eof { s with reader := got.2 }
  else .again { s with
    reader := got.2
    buf := s.buf ++ got.1
    streamOffset := s.streamOffset + got.1.length }

def takeHeader (s : APacketStreamReader) : FillTurn :=
  match AdbMessageHeader.decode (s.buf.take AdbMessageHeader.size) with
  | .error e => .done (fail ("bad header: " ++ e.text)) s
  | .ok header =>
    let dataLen := header.dataLength.toNat
    if maxPayloadV2.toNat < dataLen then
      .done (fail ("payload too large: " ++ toString dataLen)) s
    else if dataLen = 0 then
      .done (.ok (some (header, []))) { s with buf := s.buf.drop AdbMessageHeader.size }
    else .again { s with
      state := .needPayload (dataLen + AdbMessageHeader.size)
      pendingHeader := some header }

def takePayload (s : APacketStreamReader) : FillTurn :=
  match s.pendingHeader with
  | none => .done panicked s
  | some header =>
    let stop := AdbMessageHeader.size + header.dataLength.toNat
    if s.buf.length < stop then .done panicked { s with pendingHeader := none }
    else .done (.ok (some (header, slice s.buf AdbMessageHeader.size stop))) { s with
      buf := s.buf.drop stop
      pendingHeader := none
      state := .needHeader }

def fillTurn (s : APacketStreamReader) : FillTurn :=
  match s.state with
  | .needHeader =>
    if s.buf.length < AdbMessageHeader.size then
      s.readMore tmpLen (if s.buf.isEmpty then .ok none else fail "EOF during header")
    else s.takeHeader
  | .needPayload remaining =>
    if s.buf.length < remaining then
      s.readMore (min (remaining - s.buf.length) tmpLen) (fail "EOF during payload")
    else s.takePayload

/-- The data that is still to be read, and the header that is still to be taken. -/
def work (s : APacketStreamReader) : Nat :=
  2 * s.reader.data.length + if s.state = .needHeader then 1 else 0

variable {s s' : APacketStreamReader} {tail : Bytes}

theorem readMore_work {cap : Nat} {eof : Outcome String (Option (AdbMessageHeader × Bytes))}
    (h : s.readMore cap eof = .again s') : s'.work < s.work := by
  have hl := s.reader.read_length cap
  unfold readMore at h
  simp only at h
  split at h
  next => cases h
  cases h
  simp only [work]
  omega

/-- Each turn that goes on leaves less to do. -/
theorem fillTurn_work (h : s.fillTurn = .again s') : s'.work < s.work := by
  unfold fillTurn at h
  split at h
  next hs =>
    split at h
    next => exact readMore_work h
    unfold takeHeader at h
    split at h
    next => cases h
    simp only at h
    split at h
    next => cases h
    split at h
    next => cases h
    cases h
    simp [work, hs]
  next =>
    split at h
    next => exact readMore_work h
    unfold takePayload at h
    split at h
    next => cases h
    simp only at h
    split at h <;> cases h

def fill (s : APacketStreamReader) :
    Outcome String (Option (AdbMessageHeader × Bytes)) × APacketStreamReader :=
  match _h : s.fillTurn with
  | .done result s' => (result, s')
  | .again s' => s'.fill
termination_by s.work
decreasing_by exact fillTurn_work _h

def fillTimes (s : APacketStreamReader) :
    Nat → List (Outcome String (Option (AdbMessageHeader × Bytes)))
  | 0 => []
  | n + 1 => s.fill.1 :: s.fill.2.fillTimes n

theorem fill_done {result : Outcome String (Option (AdbMessageHeader × Bytes))}
    (h : s.fillTurn = .done result s') : s.fill = (result, s') := by
  rw [fill]
  split
  next hd =>
    obtain ⟨rfl, rfl⟩ := FillTurn.done.inj (hd.symm.trans h)
    rfl
  next ha => simp [h] at ha

theorem fill_again (h : s.fillTurn = .again s') : s.fill = s'.fill := by
  rw [fill]
  split
  next hd => simp [h] at hd
  next ha => rw [FillTurn.again.inj (ha.symm.trans h)]

structure Ready (s : APacketStreamReader) (stream : Bytes) : Prop where
  state_eq : s.state = .needHeader
  pending_eq : s.pendingHeader = none
  bytes_eq : s.buf ++ s.reader.data = stream

structure InPayload (s : APacketStreamReader) (p : AdbPacket) (tail : Bytes) : Prop where
  state_eq : s.state = .needPayload (p.header.dataLength.toNat + AdbMessageHeader.size)
  pending_eq : s.pendingHeader = some p.header
  bytes_eq : s.buf ++ s.reader.data = p.encode ++ tail

theorem readMore_again {cap : Nat} (eof : Outcome String (Option (AdbMessageHeader × Bytes)))
    (hc : 0 < cap) (hd : s.reader.data ≠ []) :
    ∃ s', s.readMore cap eof = .again s' ∧ s'.state = s.state ∧
      s'.pendingHeader = s.pendingHeader ∧ s'.buf ++ s'.reader.data = s.buf ++ s.reader.data ∧
      s'.reader.data.length < s.reader.data.length := by
  have hne := SizedReader.read_ne_nil hc hd
  have hpos := length_pos_iff.mpr hne
  have hl := s.reader.read_length cap
  refine ⟨_, if_neg (by omega), rfl, rfl, ?_, ?_⟩
  · rw [append_assoc, SizedReader.read_append]
  · change (s.reader.read cap).2.data.length < _
    omega

theorem data_ne_nil {stream : Bytes} (h : s.buf ++ s.reader.data = stream)
    (hlt : s.buf.length < stream.length) : s.reader.data ≠ [] := by
  intro hn
  rw [hn, append_nil] at h
  rw [h] at hlt
  omega

variable {p : AdbPacket}

/-- Once the payload is buffered, the packet is returned. -/
theorem takePayload_spec (hp : p.Framed) (h : InPayload s p tail) (hl : p.encode.length ≤ s.buf.length) :
    ∃ s', s.takePayload = .done (.ok (some (p.header, p.payload))) s' ∧ Ready s' tail := by
  obtain ⟨more, hb, ht⟩ := append_cut h.bytes_eq.symm hl
  have hst : size + p.header.dataLength.toNat = p.encode.length := by
    rw [AdbPacket.encode_length, hp.length_eq]
    rfl
  have hs : slice s.buf size p.encode.length = p.payload := by
    have hd : s.buf.drop size = p.payload ++ more := by
      rw [hb, AdbPacket.encode]
      exact drop_left' (encode_length _)
    exact slice_of_drop hd (AdbPacket.encode_length p)
  unfold takePayload
  simp only [h.pending_eq, hst]
  rw [if_neg (by omega), hs]
  refine ⟨_, rfl, rfl, rfl, ?_⟩
  rw [ht]
  rw [hb, drop_left]

/-- Within a payload `fill` reads on until it can return the packet. -/
theorem fill_inPayload (hp : p.Framed) (h : InPayload s p tail) :
    s.fill.1 = .ok (some (p.header, p.payload)) ∧ Ready s.fill.2 tail := by
  induction hn : s.reader.data.length using Nat.strongRecOn generalizing s with
  | ind n ih =>
    have hsp : p.header.dataLength.toNat + size = p.encode.length := by
      rw [AdbPacket.encode_length, hp.length_eq, size, Nat.add_comm]
    by_cases hs : s.buf.length < p.encode.length
    · have hdt := data_ne_nil h.bytes_eq (by rw [length_append]; omega)
      obtain ⟨s', ha, hst, hpd, hb, hl⟩ := readMore_again (s := s) (fail "EOF during payload")
        (show 0 < min (p.encode.length - s.buf.length) tmpLen by rw [tmpLen]; omega) hdt
      have ht : s.fillTurn = .again s' := by
        unfold fillTurn
        simp only [h.state_eq, hsp]
        rw [if_pos hs, ha]
      rw [fill_again ht]
      exact ih s'.reader.data.length (by omega)
        ⟨hst.trans h.state_eq, hpd.trans h.pending_eq, hb.trans h.bytes_eq⟩ rfl
    · obtain ⟨s', hd, hr⟩ := takePayload_spec hp h (by omega)
      have ht : s.fillTurn = .done (.ok (some (p.header, p.payload))) s' := by
        unfold fillTurn
        simp only [h.state_eq, hsp]
        rw [if_neg hs, hd]
      rw [fill_done ht]
      exact ⟨rfl, hr⟩

section

variable (hp : p.Framed) (hmagic : p.header.magic = p.header.command ^^^ 0xFFFFFFFF)
  (h : Ready s (p.encode ++ tail))
include hp hmagic h

theorem takeHeader_spec (hl : size ≤ s.buf.length) :
    (∃ s', s.takeHeader = .done (.ok (some (p.header, p.payload))) s' ∧ Ready s' tail) ∨
      ∃ s', s.takeHeader = .again s' ∧ InPayload s' p tail := by
  have hs : p.header.encode.length = size := encode_length _
  have hbs : s.buf ++ s.reader.data = p.header.encode ++ (p.payload ++ tail) := by
    rw [h.bytes_eq, AdbPacket.encode, append_assoc]
  obtain ⟨more, hb, ht⟩ := append_cut hbs.symm (by omega)
  have hd : AdbMessageHeader.decode (s.buf.take size) = .ok p.header := by
    rw [hb, take_left' hs, decode_encode hmagic]
  have hle := Nat.not_lt.mpr (UInt32.le_iff_toNat_le.mp hp.length_le)
  unfold takeHeader
  simp only [hd]
  rw [if_neg hle]
  by_cases hz : p.header.dataLength.toNat = 0
  · have hn := eq_nil_of_length_eq_zero (hp.length_eq.symm.trans hz)
    left
    rw [if_pos hz, hn]
    refine ⟨_, rfl, h.state_eq, h.pending_eq, ?_⟩
    rw [hb, drop_left' hs, ← ht, hn, nil_append]
  · right
    rw [if_neg hz]
    exact ⟨_, rfl, rfl, rfl, h.bytes_eq⟩

/-- At a packet, `fill` returns it, however many reads it takes. -/
theorem fill_packet : s.fill.1 = .ok (some (p.header, p.payload)) ∧ Ready s.fill.2 tail := by
  induction hn : s.reader.data.length using Nat.strongRecOn generalizing s with
  | ind n ih =>
    by_cases hs : s.buf.length < size
    · have hdt := data_ne_nil h.bytes_eq (by
        rw [length_append, AdbPacket.encode_length]
        rw [size] at hs
        omega)
      obtain ⟨s', ha, hst, hpd, hb, hl⟩ := readMore_again (s := s)
        (if s.buf.isEmpty then .ok none else fail "EOF during header")
        (show 0 < tmpLen by rw [tmpLen]; omega) hdt
      have ht : s.fillTurn = .again s' := by
        unfold fillTurn
        simp only [h.state_eq]
        rw [if_pos hs, ha]
      rw [fill_again ht]
      exact ih s'.reader.data.length (by omega)
        ⟨hst.trans h.state_eq, hpd.trans h.pending_eq, hb.trans h.bytes_eq⟩ rfl
    · have ht : s.fillTurn = s.takeHeader := by
        unfold fillTurn
        simp only [h.state_eq]
        rw [if_neg hs]
      obtain ⟨s', hd, hr⟩ | ⟨s', ha, hi⟩ := takeHeader_spec hp hmagic h (by omega)
      · rw [fill_done (ht.trans hd)]
        exact ⟨rfl, hr⟩
      · rw [fill_again (ht.trans ha)]
        exact fill_inPayload hp hi

end

theorem fill_end (h : Ready s []) : s.fill.1 = .ok none ∧ Ready s.fill.2 [] := by
  obtain ⟨hb, hd⟩ := append_eq_nil_iff.mp h.bytes_eq
  have ht : s.fillTurn = .done (.ok none) { s with reader := (s.reader.read tmpLen).2 } := by
    unfold fillTurn
    rw [if_pos (by rw [hb]; simp [size]), readMore, if_pos (by
      simp [SizedReader.read, hd]), hb, h.state_eq]
    rfl
  rw [fill_done ht]
  refine ⟨rfl, h.state_eq, h.pending_eq, ?_⟩
  simp [SizedReader.read, hb, hd]

theorem fillTimes_end (h : Ready s []) (k : Nat) : s.fillTimes k = List.replicate k (.ok none) := by
  induction k generalizing s with
  | zero => rfl
  | succ k ih =>
    obtain ⟨hrt, hr⟩ := fill_end h
    rw [fillTimes, hrt, ih hr, replicate_succ]

/-- Calls of `fill` return the packets in order, and then the end. -/
theorem fillTimes_packets {ps : List AdbPacket} (hps : ∀ p ∈ ps, p.Framed)
    (hmagic : ∀ p ∈ ps, p.header.magic = p.header.command ^^^ 0xFFFFFFFF)
    (h : Ready s (packetBytes ps)) (k : Nat) :
    s.fillTimes (ps.length + k)
      = ps.map (fun p => .ok (some (p.header, p.payload))) ++ List.replicate k (.ok none) := by
  induction ps generalizing s with
  | nil =>
    rw [length_nil, Nat.zero_add, fillTimes_end h]
    rfl
  | cons p ps ih =>
    rw [forall_mem_cons] at hps hmagic
    obtain ⟨hrt, hr⟩ := fill_packet hps.1 hmagic.1 h
    rw [length_cons, Nat.add_right_comm, fillTimes, hrt, ih hps.2 hmagic.2 hr]
    rfl

end APacketStreamReader

/-- Packets whose headers state their length come out of both readers as they were sent: of the
block reader whatever blocks the stream is cut into, of the stream reader whatever it reads at a
time. -/
theorem packets_reassembled (ps : List AdbPacket) (hps : ∀ p ∈ ps, p.Framed) :
    (∀ blocks : List (List UInt8), blocks.flatten = packetBytes ps →
      (APacketReader.new.addAll blocks).1 = ps ∧ (APacketReader.new.addAll blocks).2.Idle) ∧
    ((∀ p ∈ ps, p.header.magic = p.header.command ^^^ 0xFFFFFFFF) → ∀ (sizes : Nat → Nat) (k : Nat),
        (APacketStreamReader.new ⟨packetBytes ps, sizes, 0⟩).fillTimes (ps.length + k)
          = ps.map (fun p => .ok (some (p.header, p.payload))) ++ List.replicate k (.ok none)) :=
  ⟨fun _ hb => APacketReader.addAll_new hps hb,
    fun hmagic _ k => APacketStreamReader.fillTimes_packets hps hmagic ⟨rfl, rfl, rfl⟩ k⟩

theorem packets_reassembled_write_okay : (APacketReader.new.addAll
        [(AdbPacket.new aWrte 1 2 [0x68, 0x69]).encode ++ (AdbPacket.new aOkay 1 2 []).encode]).1
      = [AdbPacket.new aWrte 1 2 [0x68, 0x69], AdbPacket.new aOkay 1 2 []] ∧
    (APacketStreamReader.new ⟨packetBytes [AdbPacket.new aWrte 1 2 [0x68, 0x69],
        AdbPacket.new aOkay 1 2 []], fun n => n % 3, 0⟩).fillTimes 3
      = [.ok (some ((AdbPacket.new aWrte 1 2 [0x68, 0x69]).header, [0x68, 0x69])),
        .ok (some ((AdbPacket.new aOkay 1 2 []).header, [])), .ok none] := by
  have hf : ∀ p ∈ [AdbPacket.new aWrte 1 2 [0x68, 0x69], AdbPacket.new aOkay 1 2 []],
      p.Framed := by
    intro p hp
    simp only [mem_cons, not_mem_nil, or_false] at hp
    rcases hp with rfl | rfl
    · exact AdbPacket.new_framed _ _ _ (by decide)
    · exact AdbPacket.new_framed _ _ _ (by decide)
  have hmagic : ∀ p ∈ [AdbPacket.new aWrte 1 2 [0x68, 0x69], AdbPacket.new aOkay 1 2 []],
      p.header.magic = p.header.command ^^^ 0xFFFFFFFF := by
    intro p hp
    simp only [mem_cons, not_mem_nil, or_false] at hp
    rcases hp with rfl | rfl <;> rfl
  obtain ⟨hb, hs⟩ := packets_reassembled _ hf
  refine ⟨(hb _ ?_).1, hs hmagic _ 1⟩
  simp [packetBytes]

end AdbFastboot
