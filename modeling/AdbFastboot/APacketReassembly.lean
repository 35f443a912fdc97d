import AdbFastboot.APacketReader

namespace AdbFastboot

open Block AdbMessageHeader List

def packetBytes (ps : List AdbPacket) : Bytes := ps.flatMap AdbPacket.encode

/-- The first bytes of a buffer are `taken`; behind them stands what `base` has there. -/
def Block.Over (base taken : Bytes) (b : Block) : Prop :=
  b.buf = taken ++ base.drop taken.length ∧ b.pos = taken.length

section

variable {b b' : Block} {base taken : Bytes}

theorem Block.Over.eq (h : b.Over base taken) (h' : b'.Over base taken) : b = b' := by
  obtain ⟨buf, pos, hle⟩ := b
  obtain ⟨buf', pos', hle'⟩ := b'
  obtain ⟨rfl, rfl⟩ := h
  obtain ⟨rfl, rfl⟩ := h'
  rfl

theorem Block.over_new (size : Nat) : (Block.new size).Over (List.replicate size 0) [] := ⟨rfl, rfl⟩

variable (h : b.Over base taken) (hle : taken.length ≤ base.length)
include h hle

theorem Block.Over.isFull_iff : b.isFull = true ↔ base.length ≤ taken.length := by
  rw [isFull, decide_eq_true_iff, h.1, h.2, length_append, length_drop]
  omega

/-- A filled block holds a longer part of the stream, and the source the rest. -/
theorem Block.Over.fillFrom (src : Block) :
    (b.fillFrom src).1.Over base ((taken ++ src.rest).take base.length) ∧
      (b.fillFrom src).2.rest = src.rest.drop (base.length - taken.length) := by
  have hr : b.remaining = base.length - taken.length := by
    rw [remaining, h.1, h.2, length_append, length_drop]
    omega
  have hb : (taken ++ src.rest).take base.length = taken ++ src.rest.take b.remaining := by
    rw [take_append, take_of_length_le hle, hr]
  refine ⟨⟨?_, ?_⟩, by rw [fillFrom_rest, hr]⟩
  · simp only [Block.fillFrom, filledWith]
    rw [hb, fillFrom_bytes, h.2, h.1, take_left, drop_append, length_append,
      drop_of_length_le (by omega), nil_append, drop_drop]
    congr 2
    omega
  · simp only [Block.fillFrom]
    rw [hb, length_append, length_take, h.2, rest_length]

end

abbrev announced (front : Bytes) : Nat := (decodeFramingHeader front).dataLength.toNat

abbrev Oversize (front : Bytes) : Prop := maxPayloadV2 < (decodeFramingHeader front).dataLength

/-- What a stream is to the block reader: the packets that are complete, the last header that is,
and what there is of the packet behind. -/
structure Parsed where
  packets : List AdbPacket
  last : Bytes
  pending : Bytes

/-- What is behind an oversize header in the block is dropped. -/
def parse (last bytes : Bytes) : Parsed :=
  let front := bytes.take AdbMessageHeader.size
  if bytes.length < AdbMessageHeader.size then ⟨[], last, bytes⟩
  else if Oversize front then ⟨[], front, []⟩
  else if bytes.length < AdbMessageHeader.size + announced front then ⟨[], last, bytes⟩
  else
    let later := parse front (bytes.drop (AdbMessageHeader.size + announced front))
    { later with
      packets := ⟨decodeFramingHeader front,
        (bytes.drop AdbMessageHeader.size).take (announced front)⟩ :: later.packets }
termination_by bytes.length
decreasing_by
  have : AdbMessageHeader.size = 24 := rfl
  rw [length_drop]
  omega

section

variable {front body rest : Bytes} (last : Bytes)

theorem parse_short (h : front.length < size) : parse last front = ⟨[], last, front⟩ := by
  rw [parse]
  exact if_pos h

theorem parse_nil : parse last [] = ⟨[], last, []⟩ := parse_short last (by decide)

variable (hfr : front.length = AdbMessageHeader.size)
include hfr

theorem parse_over (ho : Oversize front) : parse last (front ++ rest) = ⟨[], front, []⟩ := by
  rw [parse, take_left' hfr]
  simp only [length_append]
  rw [if_neg (by omega), if_pos ho]

variable (hle : ¬Oversize front)
include hle

theorem parse_unfinished (hs : rest.length < announced front) :
    parse last (front ++ rest) = ⟨[], last, front ++ rest⟩ := by
  rw [parse, take_left' hfr]
  simp only [length_append]
  rw [if_neg (by omega), if_neg hle, if_pos (by omega)]

/-- A whole packet at the front of the stream is parsed off it. -/
theorem parse_packet (hb : body.length = announced front) : parse last (front ++ (body ++ rest)) =
      { parse front rest with
        packets := ⟨decodeFramingHeader front, body⟩ :: (parse front rest).packets } := by
  rw [parse, take_left' hfr]
  simp only [length_append]
  rw [if_neg (by omega), if_neg hle, if_neg (by omega), ← drop_drop, drop_left' hfr,
    drop_left' hb, take_left' hb]

end

namespace APacketReader

def PayloadOver (plen : Nat) (payload : Option Block) (body : Bytes) : Prop :=
  (payload = none ∧ body = []) ∨
    ∃ pb, payload = some pb ∧ body ≠ [] ∧ pb.Over (List.replicate plen 0) body

/-- The reader has taken these bytes of a packet that is not complete. Before, the header buffer has
held `last`. -/
inductive Holds (r : APacketReader) (last : Bytes) : Bytes → Prop
  | header {front : Bytes} (short : front.length < AdbMessageHeader.size)
      (header : r.header.Over last front) (packet : r.packet = none) (payload : r.payload = none) :
      Holds r last front
  | payload {front body : Bytes} (hfront : front.length = AdbMessageHeader.size)
      (header : r.header.Over last front) (packet : r.packet = some (decodeFramingHeader front))
      (payload : PayloadOver (announced front) r.payload body) (le : ¬Oversize front)
      (short : body.length < announced front) : Holds r last (front ++ body)

/-- The reader has read a stream to its end, where it had these packets before. -/
structure Reads (before : List AdbPacket) (r : APacketReader) (x : Parsed) : Prop where
  holds : Holds r x.last x.pending
  size : x.last.length = AdbMessageHeader.size
  packets : r.packets = before ++ x.packets

def Turns (before : List AdbPacket) (last bytes : Bytes) : BlockTurn → Prop
  | .stop r' => Reads before r' (parse last bytes)
  | .again r' block => ∃ front body, bytes = front ++ (body ++ block.rest) ∧
      front.length = AdbMessageHeader.size ∧ ¬Oversize front ∧ body.length = announced front ∧
      Holds r' front [] ∧ r'.packets = before ++ [⟨decodeFramingHeader front, body⟩]

variable {r : APacketReader} {block : Block} {last front body pending : Bytes}

theorem holds_prepareNext (r : APacketReader) : Holds r.prepareNext r.header.buf [] :=
  .header (by decide) ⟨rfl, rfl⟩ rfl rfl

/-- What a reader holds back is no packet yet. -/
theorem Holds.parse_eq (h : Holds r last pending) : parse last pending = ⟨[], last, pending⟩ := by
  cases h with
  | header short => exact parse_short last short
  | payload hfr _ _ _ le short => exact parse_unfinished last hfr le short

section

variable (hla : last.length = AdbMessageHeader.size)
  (hfr : front.length = AdbMessageHeader.size) (hhd : r.header.Over last front)
include hla hfr hhd

theorem header_buf : r.header.buf = front := by
  rw [hhd.1, drop_of_length_le (by omega), append_nil]

section

variable (hle : ¬Oversize front)
include hle

theorem turns_complete (block' : Block) (hb : body.length = announced front) :
    Turns r.packets last (front ++ (body ++ block'.rest))
      (.again (r.push ⟨decodeFramingHeader front, body⟩).prepareNext block') := by
  refine ⟨front, body, rfl, hfr, hle, hb, ?_, rfl⟩
  have hh := holds_prepareNext (r.push ⟨decodeFramingHeader front, body⟩)
  rwa [show (r.push _).header.buf = front from header_buf hla hfr hhd] at hh

/-- Reading on in a payload agrees with parsing the bytes held and the block. -/
theorem fillPayload_turns {payload : Option Block} {pb : Block}
    (hs : (if payload.isNone ∧ 0 < block.remaining then
      some (Block.new (decodeFramingHeader front).dataLength.toNat) else payload) = some pb)
    (hp : pb.Over (List.replicate (announced front) 0) body)
    (hsh : body.length < announced front) (hne : block.rest ≠ []) :
    Turns r.packets last (front ++ (body ++ block.rest))
      (r.fillPayload (decodeFramingHeader front) payload block) := by
  obtain ⟨ho, hr⟩ := hp.fillFrom (by rw [length_replicate]; omega) block
  have hf := ho.isFull_iff (by rw [length_take]; exact Nat.min_le_left _ _)
  rw [length_replicate] at ho hr hf
  simp only [fillPayload, hs]
  by_cases he : (body ++ block.rest).length < announced front
  · rw [take_of_length_le (by omega)] at ho hf
    rw [if_neg (by rw [hf]; omega)]
    change Reads _ _ _
    rw [parse_unfinished last hfr hle he]
    refine ⟨.payload hfr hhd rfl (.inr ⟨_, rfl, by simp [hne], ho⟩) hle he, hla, ?_⟩
    exact (append_nil _).symm
  · have hl : ((body ++ block.rest).take (announced front)).length = announced front := by
      rw [length_take]
      omega
    have hbuf : (pb.fillFrom block).1.buf = (body ++ block.rest).take (announced front) := by
      rw [ho.1, hl, drop_of_length_le (by rw [length_replicate]), append_nil]
    have ht := turns_complete hla hfr hhd hle (pb.fillFrom block).2 hl
    have hb : (pb.fillFrom block).2.rest = (body ++ block.rest).drop (announced front) := by
      rw [hr, drop_append, drop_of_length_le (show body.length ≤ _ by omega), nil_append]
    rw [hb, take_append_drop] at ht
    rw [if_pos (by rw [hf, hl]), hbuf]
    exact ht

/-- Where the reader stands with the payload behind a full header: nothing is noted of the header,
or the payload goes on in this block. -/
def Awaits (r : APacketReader) (block : Block) (front body : Bytes) : Prop :=
  (r.packet = none ∧ r.payload = none ∧ body = []) ∨
    (r.packet = some (decodeFramingHeader front) ∧ PayloadOver (announced front) r.payload body ∧
      ¬Oversize front ∧ body.length < announced front ∧ block.rest ≠ [])

theorem processPayload_turns (hp : 0 < announced front) (ha : Awaits r block front body) :
    Turns r.packets last (front ++ (body ++ block.rest))
      (r.processPayload (decodeFramingHeader front) block) := by
  unfold processPayload
  rcases ha with ⟨hpk, hpl, rfl⟩ | ⟨hpk, ho, -, hsh, hne⟩
  · simp only [hpk, nil_append]
    split
    next hz =>
      have hn := eq_nil_of_length_eq_zero (by rw [rest_length, hz])
      change Reads _ _ _
      rw [hn, parse_unfinished last hfr hle (show ([] : Bytes).length < _ from hp)]
      exact ⟨.payload hfr hhd rfl (.inl ⟨hpl, rfl⟩) hle hp, hla, (append_nil _).symm⟩
    next hs =>
      have hne : block.rest ≠ [] := fun hn => hs (by rw [← rest_length, hn, length_nil])
      split
      next hexact =>
        have he : (block.advance (announced front)).rest = [] := by
          have hr := block.remaining_le
          refine drop_of_length_le ?_
          change block.buf.length ≤ min (block.pos + announced front) block.buf.length
          rw [announced]
          omega
        have hl : block.rest.length = announced front := by rw [rest_length, hexact]
        have ht := turns_complete hla hfr hhd hle (block.advance (announced front)) hl
        rw [take_of_length_le (Nat.le_of_eq hl)]
        rwa [he, append_nil] at ht
      next =>
        exact fillPayload_turns hla hfr hhd hle (if_neg (by simp)) (over_new _) hp hne
  · simp only [hpk]
    rcases ho with ⟨hno, rfl⟩ | ⟨pb, hpb, -, ho⟩
    · have hs : 0 < block.remaining := by
        rw [← rest_length]
        exact length_pos_iff.mpr hne
      exact fillPayload_turns hla hfr hhd hle (if_pos ⟨by rw [hno]; rfl, hs⟩)
        (over_new _) hp hne
    · rw [hpb]
      exact fillPayload_turns hla hfr hhd hle (if_neg (by simp)) ho hsh hne

end

theorem processPacket_turns (block : Block) (ha : Awaits r block front body) :
    Turns r.packets last (front ++ (body ++ block.rest)) (r.processPacket block) := by
  unfold processPacket
  simp only [header_buf hla hfr hhd]
  split
  next ho =>
    change Reads _ _ _
    rw [parse_over last hfr ho]
    have hh := holds_prepareNext r
    rw [header_buf hla hfr hhd] at hh
    exact ⟨hh, hfr, (append_nil _).symm⟩
  next hle =>
    split
    next hz =>
      have hn : body = [] := by
        rcases ha with ⟨-, -, hn⟩ | ⟨-, -, -, hs, -⟩
        · exact hn
        · simp [announced, hz] at hs
      subst hn
      exact turns_complete hla hfr hhd hle block (by simp [announced, hz])
    next hne =>
      exact processPayload_turns hla hfr hhd hle (u32_toNat_pos hne) ha

end

/-- One turn of the reader agrees with the parser on what is held and the block. -/
theorem processTurn_turns (hla : last.length = size)
    (hh : Holds r last pending) (hne : block.rest ≠ []) :
    Turns r.packets last (pending ++ block.rest) (r.processTurn block) := by
  have hs : block.remaining ≠ 0 := by
    rw [← rest_length]
    exact fun hz => hne (eq_nil_of_length_eq_zero hz)
  rw [processTurn, if_neg hs]
  cases hh with
  | header short header packet payload =>
    obtain ⟨ho, hr⟩ := header.fillFrom (by omega) block
    rw [hla] at ho hr
    have hf := ho.isFull_iff (by rw [length_take, hla]; exact Nat.min_le_left _ _)
    rw [hla] at hf
    by_cases hl : (pending ++ block.rest).length < size
    · rw [take_of_length_le (Nat.le_of_lt hl)] at ho hf
      rw [if_neg (by rw [fillHeader, hf]; omega)]
      change Reads _ _ _
      rw [parse_short last hl]
      exact ⟨.header hl ho packet payload, hla, (append_nil _).symm⟩
    · have ht : ((pending ++ block.rest).take size).length = size := by
        rw [length_take]
        omega
      have hb : (r.header.fillFrom block).2.rest = (pending ++ block.rest).drop size := by
        rw [hr, drop_append, drop_of_length_le (show pending.length ≤ _ by omega), nil_append]
      have htr := processPacket_turns (r := r.fillHeader block) hla ht ho
        (r.header.fillFrom block).2 (.inl ⟨packet, payload, rfl⟩)
      rw [nil_append, hb, take_append_drop] at htr
      rw [if_pos (by rw [fillHeader, hf, ht])]
      exact htr
  | @payload front body hfr header packet payload le short =>
    obtain ⟨ho, hr⟩ := header.fillFrom (by omega) block
    rw [hla, take_left' hfr] at ho
    rw [hla, hfr, Nat.sub_self, drop_zero] at hr
    have hf := ho.isFull_iff (by omega)
    rw [if_pos (by rw [fillHeader, hf]; omega), append_assoc, ← hr]
    exact processPacket_turns (r := r.fillHeader block) hla hfr ho _
      (.inr ⟨packet, payload, le, short, by rwa [hr]⟩)

theorem processTurn_nil (h : block.rest = []) : r.processTurn block = .stop r :=
  if_pos (by rw [← rest_length, h, length_nil])

/-- A block is read as the parser reads the held bytes followed by the block. -/
theorem processBlock_reads (block : Block) (hla : last.length = size)
    (hh : Holds r last pending) :
    Reads r.packets (r.processBlock block) (parse last (pending ++ block.rest)) := by
  induction r, block using processBlock.induct generalizing last pending with
  | case1 r block r' hs =>
    have hb : r.processBlock block = r' := by
      rw [processBlock]
      split
      next hs' => exact BlockTurn.stop.inj (hs'.symm.trans hs)
      next ha => simp [hs] at ha
    rw [hb]
    by_cases hne : block.rest = []
    · cases (processTurn_nil hne).symm.trans hs
      rw [hne, append_nil, hh.parse_eq]
      exact ⟨hh, hla, (append_nil _).symm⟩
    · have ht := processTurn_turns hla hh hne
      rwa [hs] at ht
  | case2 r block r' block' ha ih =>
    have hb : r.processBlock block = r'.processBlock block' := by
      rw [processBlock]
      split
      next hs => simp [ha] at hs
      next ha' =>
        obtain ⟨rfl, rfl⟩ := BlockTurn.again.inj (ha'.symm.trans ha)
        rfl
    have hne : block.rest ≠ [] := fun hn => by cases (processTurn_nil hn).symm.trans ha
    have ht := processTurn_turns hla hh hne
    rw [ha] at ht
    obtain ⟨front, body, hbs, hfr, hle, hbd, hh', hp⟩ := ht
    obtain ⟨hh', hsz, hl⟩ := ih hfr hh'
    rw [hb, hbs, parse_packet last hfr hle hbd]
    refine ⟨hh', hsz, ?_⟩
    rw [hl, hp, append_assoc]
    rfl

theorem Holds.takePackets (h : Holds r last pending) : Holds { r with packets := [] } last pending := by
  cases h with
  | header short header packet payload => exact .header short header packet payload
  | payload hfr header packet payload le short =>
    exact .payload hfr header packet payload le short

/-- A reader between two calls that has taken `pending`. -/
structure Resting (r : APacketReader) (last pending : Bytes) : Prop where
  holds : Holds r last pending
  size : last.length = AdbMessageHeader.size
  packets : r.packets = []

/-- One call of `add_bytes` returns what the parser finds in the bytes so far. -/
theorem addBytes_reads (h : Resting r last pending) (data : Bytes) :
    (r.addBytes data).1 = (parse last (pending ++ data)).packets ∧
      Resting (r.addBytes data).2 (parse last (pending ++ data)).last
        (parse last (pending ++ data)).pending := by
  unfold addBytes
  split
  next hm =>
    rw [isEmpty_iff.mp hm, append_nil, h.holds.parse_eq]
    exact ⟨h.packets, h.holds.takePackets, h.size, rfl⟩
  obtain ⟨hh, hs, hp⟩ :=
    processBlock_reads (Block.fromVec data) h.size h.holds
  rw [h.packets, nil_append] at hp
  exact ⟨hp, hh.takePackets, hs, rfl⟩

theorem resting_new : Resting .new (List.replicate size 0) [] :=
  ⟨holds_prepareNext .new, length_replicate, rfl⟩

theorem PayloadOver.eq {plen : Nat} {payload payload' : Option Block}
    (h : PayloadOver plen payload body) (h' : PayloadOver plen payload' body) :
    payload = payload' := by
  rcases h with ⟨rfl, hn⟩ | ⟨pb, rfl, hne, ho⟩
  · rcases h' with ⟨rfl, -⟩ | ⟨-, -, hne, -⟩
    · rfl
    · exact absurd hn hne
  · rcases h' with ⟨-, hn⟩ | ⟨pb', rfl, -, ho'⟩
    · exact absurd hn hne
    · rw [ho.eq ho']

/-- A reader at rest is determined by the last header and the bytes it holds. -/
theorem Resting.eq {r' : APacketReader} (h : Resting r last pending)
    (h' : Resting r' last pending) : r = r' := by
  obtain ⟨header, packet, payload, packets, hhd⟩ := r
  obtain ⟨header', packet', payload', packets', hhd'⟩ := r'
  obtain ⟨hh, -, rfl⟩ := h
  obtain ⟨hh', -, rfl⟩ := h'
  cases hh with
  | header short ho hp hpl =>
    cases hh' with
    | header _ ho' hp' hpl' =>
      cases ho.eq ho'
      cases hp.trans hp'.symm
      cases hpl.trans hpl'.symm
      rfl
    | payload hfr =>
      rw [length_append] at short
      omega
  | @payload front body hfr ho hp hpl =>
    generalize hb : front ++ body = pending at hh'
    cases hh' with
    | header short =>
      rw [← hb, length_append] at short
      omega
    | payload hfr' ho' hp' hpl' =>
      obtain ⟨rfl, rfl⟩ := append_inj hb (hfr.trans hfr'.symm)
      cases ho.eq ho'
      cases hp.trans hp'.symm
      cases hpl.eq hpl'
      rfl

theorem Resting.header_pos (h : Resting r last pending)
    (hs : pending.length < AdbMessageHeader.size) : r.header.pos = pending.length := by
  cases h.holds with
  | header _ header => exact header.2
  | payload hfr =>
    rw [length_append] at hs
    omega

theorem Resting.idle (h : Resting r last []) : Idle r := by
  have hpos := h.header_pos (by decide)
  obtain ⟨hh, -, hpks⟩ := h
  generalize hp : ([] : Bytes) = pending at hh
  cases hh with
  | header _ _ packet payload => exact ⟨hpos, packet, payload, hpks⟩
  | payload hfr =>
    have hl := congrArg length hp
    rw [length_append, hfr, length_nil, AdbMessageHeader.size] at hl
    omega

end APacketReader

/-- A header in the stream announces too much, and there are bytes behind it. -/
inductive Overruns : Bytes → Prop
  | here {front rest : Bytes} (hfront : front.length = AdbMessageHeader.size)
      (hover : Oversize front) (hrest : rest ≠ []) : Overruns (front ++ rest)
  | later {front body rest : Bytes} (hfront : front.length = AdbMessageHeader.size)
      (hle : ¬Oversize front) (hbody : body.length = announced front) (hrest : Overruns rest) :
      Overruns (front ++ (body ++ rest))

/-- A stream is too short for a header, oversize, unfinished, or has a packet. -/
theorem stream_cases (bytes : Bytes) : bytes.length < size ∨
    ∃ front rest, bytes = front ++ rest ∧ front.length = size ∧
      (Oversize front ∨ ¬Oversize front ∧ (rest.length < announced front ∨
        ∃ body behind, rest = body ++ behind ∧ body.length = announced front)) := by
  rcases Nat.lt_or_ge bytes.length size with hs | hln
  · exact .inl hs
  refine .inr ⟨_, _, (take_append_drop size bytes).symm, length_take_of_le hln, ?_⟩
  by_cases ho : Oversize (bytes.take size)
  · exact .inl ho
  refine .inr ⟨ho, (Nat.lt_or_ge _ _).imp_right fun hl => ?_⟩
  exact ⟨_, _, (take_append_drop _ _).symm, length_take_of_le hl⟩

theorem Overruns.length_lt {stream : Bytes} (h : Overruns stream) : size < stream.length := by
  induction h with
  | here hfr _ hrs =>
    have := length_pos_iff.mpr hrs
    rw [length_append]
    omega
  | later _ _ _ _ ih =>
    rw [length_append, length_append]
    omega

theorem not_overruns_nil : ¬Overruns [] := fun h => absurd h.length_lt (by decide)

theorem Overruns.behind {front body rest : Bytes}
    (hfr : front.length = size) (hle : ¬Oversize front)
    (hbd : body.length = announced front) (h : Overruns (front ++ (body ++ rest))) :
    Overruns rest := by
  generalize hbs : front ++ (body ++ rest) = bytes at h
  cases h with
  | here hfr' hov =>
    obtain ⟨rfl, -⟩ := append_inj hbs (hfr.trans hfr'.symm)
    exact absurd hov hle
  | later hfr' _ hbd' hrs =>
    obtain ⟨rfl, htl⟩ := append_inj hbs (hfr.trans hfr'.symm)
    obtain ⟨-, rfl⟩ := append_inj htl (hbd.trans hbd'.symm)
    exact hrs

/-- With or without its last byte, an overrunning stream leaves nothing held back. -/
theorem Overruns.drops {stream : Bytes} (h : Overruns stream) (last : Bytes) :
    (parse last stream).pending = [] ∧ (parse last stream.dropLast).pending = [] := by
  induction h generalizing last with
  | here hfr hov hrs =>
    rw [dropLast_append_of_ne_nil hrs, parse_over last hfr hov, parse_over last hfr hov]
    exact ⟨rfl, rfl⟩
  | @later front body rest hfr hle hbd hrs ih =>
    have hne := length_pos_iff.mp (Nat.lt_of_le_of_lt (Nat.zero_le _) hrs.length_lt)
    rw [dropLast_append_of_ne_nil (by simp [hne]), dropLast_append_of_ne_nil hne,
      parse_packet last hfr hle hbd, parse_packet last hfr hle hbd]
    exact ih front

/-- Without an oversize header, a stream can be parsed in two parts. -/
theorem parse_append (last : Bytes) {bytes more : Bytes} (h : ¬Overruns (bytes ++ more)) :
    parse last (bytes ++ more) =
        { parse (parse last bytes).last ((parse last bytes).pending ++ more) with
          packets := (parse last bytes).packets
            ++ (parse (parse last bytes).last ((parse last bytes).pending ++ more)).packets } ∧
      ¬Overruns ((parse last bytes).pending ++ more) := by
  induction hn : bytes.length using Nat.strongRecOn generalizing last bytes with
  | ind n ih =>
    obtain hs | ⟨front, rest, rfl, hfr, ho |
      ⟨hle, hpt | ⟨body, behind, rfl, hb⟩⟩⟩ := stream_cases bytes
    · rw [parse_short last hs]
      exact ⟨rfl, h⟩
    · have hnil : rest ++ more = [] := by
        by_contra hne
        exact h (by rw [append_assoc]; exact .here hfr ho hne)
      obtain ⟨rfl, rfl⟩ := append_eq_nil_iff.mp hnil
      rw [append_nil, parse_over last hfr ho]
      exact ⟨by rw [append_nil, parse_nil]; rfl, not_overruns_nil⟩
    · rw [parse_unfinished last hfr hle hpt]
      exact ⟨rfl, h⟩
    · rw [append_assoc, append_assoc] at h ⊢
      have hl : ¬Overruns (behind ++ more) := fun hr => h (.later hfr hle hb hr)
      have hls : behind.length < n := by
        rw [← hn, length_append, length_append, hfr, size]
        omega
      obtain ⟨hp, hc⟩ := ih behind.length hls front hl rfl
      rw [parse_packet last hfr hle hb, parse_packet last hfr hle hb, hp]
      exact ⟨rfl, hc⟩

theorem AdbPacket.Framed.announced {p : AdbPacket} (h : p.Framed) :
    ¬Oversize p.header.encode ∧ p.payload.length = AdbFastboot.announced p.header.encode := by
  rw [Oversize, AdbFastboot.announced, decodeFramingHeader_encode, h.length_eq]
  exact ⟨UInt32.not_lt.mpr h.length_le, rfl⟩

theorem packetBytes_cons (p : AdbPacket) (ps : List AdbPacket) :
    packetBytes (p :: ps) = p.header.encode ++ (p.payload ++ packetBytes ps) := append_assoc _ _ _

section

variable {ps : List AdbPacket} (hps : ∀ p ∈ ps, p.Framed)
include hps

theorem parse_packets (last : Bytes) : (parse last (packetBytes ps)).packets = ps ∧
    (parse last (packetBytes ps)).pending = [] := by
  induction ps generalizing last with
  | nil =>
    rw [show packetBytes [] = [] from rfl, parse_nil]
    exact ⟨rfl, rfl⟩
  | cons p ps ih =>
    rw [forall_mem_cons] at hps
    obtain ⟨hle, hb⟩ := hps.1.announced
    obtain ⟨hpks, hp⟩ := ih hps.2 p.header.encode
    rw [packetBytes_cons, parse_packet last p.header.encode_length hle hb,
      decodeFramingHeader_encode, hpks]
    exact ⟨rfl, hp⟩

theorem not_overruns_packets : ¬Overruns (packetBytes ps) := by
  induction ps with
  | nil => exact not_overruns_nil
  | cons p ps ih =>
    rw [forall_mem_cons] at hps
    obtain ⟨hle, hb⟩ := hps.1.announced
    exact fun h => ih hps.2 (h.behind p.header.encode_length hle hb)

end

namespace APacketReader

variable {r : APacketReader} {last pending : Bytes}

/-- A stream without overruns is read alike however it is cut. -/
theorem addAll_reads (blocks : List Bytes) (h : Resting r last pending)
    (hc : ¬Overruns (pending ++ blocks.flatten)) :
    (r.addAll blocks).1 = (parse last (pending ++ blocks.flatten)).packets ∧
      Resting (r.addAll blocks).2 (parse last (pending ++ blocks.flatten)).last
        (parse last (pending ++ blocks.flatten)).pending := by
  induction blocks generalizing r last pending with
  | nil =>
    rw [flatten_nil, append_nil, h.holds.parse_eq]
    exact ⟨rfl, h⟩
  | cons data blocks ih =>
    obtain ⟨hn, hr⟩ := addBytes_reads h data
    rw [flatten_cons, ← append_assoc] at hc ⊢
    obtain ⟨hp, hc⟩ := parse_append last hc
    obtain ⟨hl, he⟩ := ih hr hc
    rw [hp]
    refine ⟨?_, he⟩
    rw [addAll, hn, hl]

/-- Framed packets come out of a new reader however their bytes are cut. -/
theorem addAll_new {ps : List AdbPacket} (hps : ∀ p ∈ ps, p.Framed) {blocks : List Bytes}
    (hb : blocks.flatten = packetBytes ps) :
    (APacketReader.new.addAll blocks).1 = ps ∧ Idle (APacketReader.new.addAll blocks).2 := by
  have hc := not_overruns_packets hps
  rw [← hb] at hc
  obtain ⟨hrd, hr⟩ := addAll_reads blocks resting_new hc
  obtain ⟨hpks, hp⟩ := parse_packets hps (replicate size 0)
  rw [nil_append, hb] at hrd hr
  rw [hp] at hr
  exact ⟨hrd.trans hpks, hr.idle⟩

/-- The last byte of an overrunning stream is dropped or held, by how it was cut. -/
theorem addAll_overruns {stream : Bytes} (h : Overruns stream) (hne : stream ≠ []) :
    (APacketReader.new.addAll [stream]).2.header.pos = 0 ∧
      (APacketReader.new.addAll [stream.dropLast, [stream.getLast hne]]).2.header.pos = 1 := by
  obtain ⟨hw, hfr⟩ := h.drops (replicate AdbMessageHeader.size 0)
  have hf := (addBytes_reads resting_new stream).2
  have hs := (addBytes_reads resting_new stream.dropLast).2
  rw [nil_append, hw] at hf
  rw [nil_append, hfr] at hs
  have hla := (addBytes_reads hs [stream.getLast hne]).2
  rw [nil_append, parse_short _ (by simp [AdbMessageHeader.size])] at hla
  exact ⟨hf.header_pos (by decide), hla.header_pos (by simp [AdbMessageHeader.size])⟩

/-- Any two cuttings of a stream give the same packets and leave the reader in the same state,
exactly if no header in it that announces too much has bytes behind it. -/
theorem cuttings_agree_iff (stream : Bytes) :
    (∀ blocks blocks' : List Bytes, blocks.flatten = stream → blocks'.flatten = stream →
        APacketReader.new.addAll blocks = APacketReader.new.addAll blocks')
      ↔ ¬Overruns stream := by
  constructor
  · intro ha h
    have hne := length_pos_iff.mp (Nat.lt_of_le_of_lt (Nat.zero_le _) h.length_lt)
    obtain ⟨hw, hcut⟩ := addAll_overruns h hne
    have hs := ha [stream] [stream.dropLast, [stream.getLast hne]] (by simp)
      (by simp [dropLast_append_getLast])
    rw [hs, hcut] at hw
    cases hw
  · rintro hc blocks blocks' rfl hb'
    obtain ⟨hp, hr⟩ := addAll_reads blocks resting_new hc
    obtain ⟨hp', hr'⟩ := addAll_reads blocks' resting_new (hb' ▸ hc)
    rw [hb'] at hp' hr'
    exact Prod.ext (hp.trans hp'.symm) (hr.eq hr')

/-- A header that announces 2 ^ 32 - 1 bytes, and one byte: in one block the byte is dropped, in a
block of its own it is the first of a header. -/
theorem cuttings_disagree : let header := (AdbMessageHeader.mk aWrte 1 2 0xFFFFFFFF 0 0).encode
    (APacketReader.new.addAll [header ++ [0]]).2.header.pos = 0 ∧
      (APacketReader.new.addAll [header, [0]]).2.header.pos = 1 := by
  intro header
  have ho : Overruns (header ++ [0]) :=
    .here (AdbMessageHeader.encode_length _) (by decide) (by simp)
  have h := addAll_overruns ho (by simp)
  rwa [dropLast_concat] at h

end APacketReader

end AdbFastboot
