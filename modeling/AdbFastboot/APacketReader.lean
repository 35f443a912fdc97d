import AdbFastboot.AdbMessage

namespace AdbFastboot

open List

structure Block where
  buf : Bytes
  pos : Nat
  pos_le : pos ≤ buf.length

namespace Block

def new (size : Nat) : Block where
  buf := List.replicate size 0
  pos := 0
  pos_le := Nat.zero_le _

def fromVec (v : Bytes) : Block where
  buf := v
  pos := 0
  pos_le := Nat.zero_le _

def remaining (b : Block) : Nat := b.buf.length - b.pos

def isFull (b : Block) : Bool := b.buf.length ≤ b.pos

def rewind (b : Block) : Block where
  buf := b.buf
  pos := 0
  pos_le := Nat.zero_le _

def advance (b : Block) (n : Nat) : Block where
  buf := b.buf
  pos := min (b.pos + n) b.buf.length
  pos_le := Nat.min_le_right _ _

def rest (b : Block) : Bytes := b.buf.drop b.pos

variable (b : Block)

theorem rest_length : b.rest.length = b.remaining := length_drop

theorem remaining_le : b.pos + b.remaining = b.buf.length := by
  have := b.pos_le
  rw [remaining]
  omega

def filledWith (b : Block) (bytes : Bytes) : Bytes :=
  b.buf.take b.pos ++ bytes ++ b.buf.drop (b.pos + bytes.length)

theorem filledWith_length {b : Block} {bytes : Bytes} (h : bytes.length ≤ b.remaining) :
    (b.filledWith bytes).length = b.buf.length := by
  have := b.remaining_le
  simp only [filledWith, length_append, length_take_of_le b.pos_le, length_drop]
  omega

/-- `fill_from`: the destination and the source after as many bytes were copied as fit. -/
def fillFrom (b src : Block) : Block × Block :=
  let n := min b.remaining src.remaining
  let bytes := src.rest.take n
  have hbytes : bytes.length = n := List.length_take_of_le
    (Nat.le_trans (Nat.min_le_right _ _) (Nat.le_of_eq src.rest_length.symm))
  ({ buf := b.filledWith bytes
     pos := b.pos + n
     pos_le := by
       have hn : n ≤ b.remaining := Nat.min_le_left _ _
       have := b.remaining_le
       rw [filledWith_length (by omega)]
       omega },
   { buf := src.buf
     pos := src.pos + n
     pos_le := by
       have hn : n ≤ src.remaining := Nat.min_le_right _ _
       have := src.remaining_le
       omega })

variable (b src : Block)

theorem fillFrom_bytes : src.rest.take (min b.remaining src.remaining) = src.rest.take b.remaining := by
  rw [← take_take, ← src.rest_length, take_length]

/-- Filling a block takes from the source as many bytes as the block has room for. -/
theorem fillFrom_rest : (b.fillFrom src).2.rest = src.rest.drop b.remaining := by
  have hm : src.rest.drop (min b.remaining src.remaining) = src.rest.drop b.remaining := by
    rcases Nat.le_total b.remaining src.remaining with h | h
    · rw [Nat.min_eq_left h]
    · rw [Nat.min_eq_right h, drop_of_length_le (Nat.le_of_eq src.rest_length),
        drop_of_length_le (Nat.le_trans (Nat.le_of_eq src.rest_length) h)]
  simp only [fillFrom, rest]
  rw [← drop_drop]
  exact hm

theorem fillFrom_size : (b.fillFrom src).1.buf.length = b.buf.length := by
  simp only [fillFrom]
  rw [filledWith_length]
  rw [length_take]
  omega

end Block

structure APacketReader where
  header : Block
  packet : Option AdbMessageHeader
  payload : Option Block
  packets : List AdbPacket
  header_size : header.buf.length = AdbMessageHeader.size

/-- How a call of `process_block` goes on: it returns, or it calls itself on what is left of the
block. -/
inductive BlockTurn where
  | stop (r : APacketReader)
  | again (r : APacketReader) (block : Block)

namespace APacketReader

def new : APacketReader where
  header := Block.new AdbMessageHeader.size
  packet := none
  payload := none
  packets := []
  header_size := List.length_replicate

def prepareNext (r : APacketReader) : APacketReader :=
  { r with header := r.header.rewind, packet := none, payload := none }

def push (r : APacketReader) (p : AdbPacket) : APacketReader :=
  { r with packets := r.packets ++ [p] }

def fillHeader (r : APacketReader) (block : Block) : APacketReader :=
  { r with
    header := (r.header.fillFrom block).1
    header_size := (Block.fillFrom_size r.header block).trans r.header_size }

def fillPayload (r : APacketReader) (hdr : AdbMessageHeader) (payload : Option Block)
    (block : Block) : BlockTurn :=
  let started := if payload.isNone ∧ 0 < block.remaining then some (Block.new hdr.dataLength.toNat)
    else payload
  match started with
  | none => .stop { r with packet := some hdr, payload := none }
  | some pb =>
    let filled := pb.fillFrom block
    if filled.1.isFull then .again (r.push ⟨hdr, filled.1.buf⟩).prepareNext filled.2
    else .stop { r with packet := some hdr, payload := some filled.1 }

def processPayload (r : APacketReader) (header : AdbMessageHeader) (block : Block) : BlockTurn :=
  match r.packet with
  | none =>
    let plen := header.dataLength.toNat
    if block.remaining = 0 then .stop { r with packet := some header }
    else if block.remaining = plen then
      .again (r.push ⟨header, block.rest.take plen⟩).prepareNext (block.advance plen)
    else r.fillPayload header (some (Block.new plen)) block
  | some hdr => r.fillPayload hdr r.payload block

def processPacket (r : APacketReader) (block : Block) : BlockTurn :=
  let header := decodeFramingHeader r.header.buf
  if maxPayloadV2 < header.dataLength then .stop r.prepareNext
  else if header.dataLength = 0 then .again (r.push ⟨header, []⟩).prepareNext block
  else r.processPayload header block

/-- `process_block` up to where it calls itself. -/
def processTurn (r : APacketReader) (block : Block) : BlockTurn :=
  if block.remaining = 0 then .stop r
  else if (r.fillHeader block).header.isFull then
    (r.fillHeader block).processPacket (r.header.fillFrom block).2
  else .stop (r.fillHeader block)

theorem prepareNext_isFull (r : APacketReader) : r.prepareNext.header.isFull = false := by
  have hs := r.prepareNext.header_size
  rw [Block.isFull, hs]
  rfl

variable {r r' : APacketReader} {block block' : Block}

/-- When the payload asks for another turn, the block has not grown. -/
theorem fillPayload_again {hd : AdbMessageHeader} {payload : Option Block}
    (h : r.fillPayload hd payload block = .again r' block') :
    r'.header.isFull = false ∧ block'.remaining ≤ block.remaining := by
  unfold fillPayload at h
  simp only at h
  split at h
  next => cases h
  next pb _ =>
    split at h
    next =>
      cases h
      refine ⟨prepareNext_isFull _, ?_⟩
      rw [← Block.rest_length, Block.fillFrom_rest, length_drop, Block.rest_length]
      omega
    next => cases h

/-- `process_block` calls itself with an empty header buffer. -/
theorem processPacket_again (h : r.processPacket block = .again r' block') :
    r'.header.isFull = false ∧ block'.remaining ≤ block.remaining := by
  unfold processPacket at h
  simp only at h
  split at h
  next => cases h
  split at h
  next =>
    cases h
    exact ⟨prepareNext_isFull _, Nat.le_refl _⟩
  unfold processPayload at h
  split at h
  next =>
    simp only at h
    split at h
    next => cases h
    split at h
    next =>
      cases h
      refine ⟨prepareNext_isFull _, ?_⟩
      simp only [Block.advance, Block.remaining]
      omega
    next => exact fillPayload_again h
  next => exact fillPayload_again h

/-- A turn that goes on, and began within a header, has taken bytes of the block. -/
theorem processTurn_again (h : r.processTurn block = .again r' block') :
    r'.header.isFull = false ∧ block'.remaining ≤ block.remaining ∧
      (r.header.isFull = false → block'.remaining < block.remaining) := by
  unfold processTurn at h
  split at h
  next => cases h
  next hne =>
    split at h
    next =>
      obtain ⟨hf, hle⟩ := processPacket_again h
      rw [← Block.rest_length (r.header.fillFrom block).2, Block.fillFrom_rest, length_drop,
        Block.rest_length] at hle
      refine ⟨hf, by omega, fun hn => ?_⟩
      have hr : 0 < r.header.remaining := by
        rw [Block.isFull, decide_eq_false_iff_not] at hn
        rw [Block.remaining]
        omega
      omega
    next => cases h

def processBlock (r : APacketReader) (block : Block) : APacketReader :=
  match _h : r.processTurn block with
  | .stop r' => r'
  | .again r' block' => processBlock r' block'
termination_by 2 * block.remaining + if r.header.isFull then 1 else 0
decreasing_by
  obtain ⟨hfull, hle, hlt⟩ := processTurn_again _h
  rw [hfull]
  cases hr : r.header.isFull with
  | true => simp; omega
  | false =>
    have := hlt hr
    simp
    omega

def addBytes (r : APacketReader) (data : Bytes) : List AdbPacket × APacketReader :=
  if data.isEmpty then (r.packets, { r with packets := [] })
  else
    let r' := r.processBlock (Block.fromVec data)
    (r'.packets, { r' with packets := [] })

def addAll (r : APacketReader) : List Bytes → List AdbPacket × APacketReader
  | [] => ([], r)
  | data :: blocks =>
    let now := r.addBytes data
    let later := now.2.addAll blocks
    (now.1 ++ later.1, later.2)

structure Idle (r : APacketReader) : Prop where
  header_pos : r.header.pos = 0
  packet_none : r.packet = none
  payload_none : r.payload = none
  packets_nil : r.packets = []

end APacketReader

end AdbFastboot
