import AdbFastboot.IncrementalStream

namespace AdbFastboot

open ResponseHeader List

def i16OfBe (bytes : Bytes) : Int := asI16 (beNat bytes)

def i32OfBe (bytes : Bytes) : Int := asI32 (beNat bytes)

def BlockType.ofCode (code : UInt8) : Option BlockType :=
  if code = 0 then some .data else if code = 1 then some .hash else none

def CompressionType.ofCode (code : UInt8) : Option CompressionType :=
  if code = 0 then some .none else if code = 1 then some .lz4 else none

def Response.decode (bytes : Bytes) : Option (Response × Bytes) := do
  let blockType ← BlockType.ofCode (← bytes[2]?)
  let compressionType ← CompressionType.ofCode (← bytes[3]?)
  let size := i16OfBe (slice bytes 8 10)
  if size < 0 ∨ bytes.length < wireSize + size.toNat then none
  else
    let header : ResponseHeader :=
      ⟨i16OfBe (slice bytes 0 2), blockType, compressionType, i32OfBe (slice bytes 4 8), size⟩
    let stop := wireSize + size.toNat
    some (⟨header, slice bytes wireSize stop⟩, bytes.drop stop)

def decodeBlocks : Nat → Bytes → Option (List Response)
  | _, [] => some []
  | 0, _ :: _ => none
  | turns + 1, bytes => do
    let (r, rest) ← Response.decode bytes
    return r :: (← decodeBlocks turns rest)

def decodeChunks : Nat → Bytes → Option (List (List Response))
  | _, [] => some []
  | 0, _ :: _ => none
  | turns + 1, bytes =>
    let size := i32OfBe (slice bytes 0 4)
    if size < 0 ∨ bytes.length < 4 + size.toNat then none
    else do
      let blocks ← decodeBlocks size.toNat (slice bytes 4 (4 + size.toNat))
      return blocks :: (← decodeChunks turns (bytes.drop (4 + size.toNat)))

def decodeStream (bytes : Bytes) : Option (List Response) :=
  (decodeChunks bytes.length bytes).map List.flatten

structure Response.Fits (r : Response) : Prop where
  file : -2 ^ 15 ≤ r.header.fileId ∧ r.header.fileId < 2 ^ 15
  index : -2 ^ 31 ≤ r.header.blockIdx ∧ r.header.blockIdx < 2 ^ 31
  size : r.header.blockSize = r.payload.length
  payload : r.payload.length < 2 ^ 15

theorem i16OfBe_i16Be {x : Int} (h : -2 ^ 15 ≤ x) (hx : x < 2 ^ 15) : i16OfBe (i16Be x) = x := by
  have hn : beNat (i16Be x) = (x % 2 ^ 16).toNat := by
    rw [i16Be, beNat_beBytes]
    exact Nat.mod_eq_of_lt (by omega)
  have hm := Int.emod_bmod x (2 ^ 16)
  push_cast at hm
  rw [i16OfBe, hn, Int.toNat_of_nonneg (by omega), asI16]
  exact hm.trans (asI16_of_fits h hx)

theorem i32OfBe_i32Be {x : Int} (h : -2 ^ 31 ≤ x) (hx : x < 2 ^ 31) : i32OfBe (i32Be x) = x := by
  have hn : beNat (i32Be x) = (x % 2 ^ 32).toNat := by
    rw [i32Be, beNat_beBytes]
    exact Nat.mod_eq_of_lt (by omega)
  have hm := Int.emod_bmod x (2 ^ 32)
  push_cast at hm
  rw [i32OfBe, hn, Int.toNat_of_nonneg (by omega), asI32]
  exact hm.trans (asI32_of_fits h hx)

@[simp] theorem i16Be_length (x : Int) : (i16Be x).length = 2 := beBytes_length 2 _

@[simp] theorem i32Be_length (x : Int) : (i32Be x).length = 4 := beBytes_length 4 _

theorem BlockType.ofCode_code (t : BlockType) : BlockType.ofCode t.code = some t := by
  cases t <;> rfl

theorem CompressionType.ofCode_code (t : CompressionType) : CompressionType.ofCode t.code = some t := by
  cases t <;> rfl

theorem Response.encode_length (r : Response) : r.encode.length = wireSize + r.payload.length := by
  simp only [Response.encode, ResponseHeader.encode, length_append, i16Be_length, i32Be_length,
    length_cons, length_nil]
  rfl

/-- A response that fits its header is decoded from its bytes. -/
theorem Response.decode_encode {r : Response} (h : r.Fits) (rest : Bytes) :
    Response.decode (r.encode ++ rest) = some (r, rest) := by
  have h0 : (r.encode ++ rest).drop 0 = i16Be r.header.fileId
      ++ ([r.header.blockType.code, r.header.compressionType.code]
        ++ (i32Be r.header.blockIdx ++ (i16Be r.header.blockSize ++ (r.payload ++ rest)))) := by
    simp [Response.encode, ResponseHeader.encode]
  have h2 := drop_field (b := 2) h0 rfl
  have h4 := drop_field (b := 4) h2 rfl
  have h8 := drop_field (b := 8) h4 rfl
  have h10 := drop_field (b := 10) h8 rfl
  have hl := r.encode_length
  have ht : (r.encode ++ rest)[2]? = some r.header.blockType.code := by
    have hg : ((r.encode ++ rest).drop 2)[0]? = some r.header.blockType.code := by rw [h2]; rfl
    rwa [getElem?_drop] at hg
  have hc : (r.encode ++ rest)[3]? = some r.header.compressionType.code := by
    have hg : ((r.encode ++ rest).drop 2)[1]? = some r.header.compressionType.code := by
      rfl
    rwa [getElem?_drop] at hg
  have hs : i16OfBe (slice (r.encode ++ rest) 8 10) = r.payload.length := by
    have hp := h.payload
    rw [slice_of_drop (b := 10) h8 rfl, h.size, i16OfBe_i16Be (by omega) (by omega)]
  have hf : i16OfBe (slice (r.encode ++ rest) 0 2) = r.header.fileId := by
    rw [slice_of_drop (b := 2) h0 rfl, i16OfBe_i16Be h.file.1 h.file.2]
  have hi : i32OfBe (slice (r.encode ++ rest) 4 8) = r.header.blockIdx := by
    rw [slice_of_drop (b := 8) h4 rfl, i32OfBe_i32Be h.index.1 h.index.2]
  have hp : slice (r.encode ++ rest) wireSize
      (wireSize + r.payload.length) = r.payload := slice_of_drop h10 rfl
  have hrs : (r.encode ++ rest).drop (wireSize + r.payload.length) = rest :=
    drop_field h10 rfl
  have hr : ¬ ((r.payload.length : Int) < 0
      ∨ (r.encode ++ rest).length < wireSize + r.payload.length) := by
    rw [length_append, hl]
    omega
  unfold Response.decode
  simp only [ht, hc, Option.bind_eq_bind, Option.bind_some, BlockType.ofCode_code,
    CompressionType.ofCode_code, hs, if_neg hr, hf, hi, Int.toNat_natCast, hp,
    hrs]
  rw [← h.size]

variable {blocks : List Response}

/-- The blocks of a chunk are decoded one by one. -/
theorem decodeBlocks_encode (h : ∀ r ∈ blocks, r.Fits) {turns : Nat} (ht : blocks.length ≤ turns) :
    decodeBlocks turns (blocks.flatMap Response.encode) = some blocks := by
  induction blocks generalizing turns with
  | nil => cases turns <;> rfl
  | cons r blocks ih =>
    cases turns with
    | zero => cases ht
    | succ turns =>
      have hrs := ih (fun r' hr' => h r' (mem_cons_of_mem _ hr')) (Nat.le_of_succ_le_succ ht)
      have hd := Response.decode_encode (h r mem_cons_self) (blocks.flatMap Response.encode)
      rw [flatMap_cons]
      obtain ⟨x, xs, hx⟩ := exists_cons_of_ne_nil
        (append_ne_nil_of_left_ne_nil r.encode_ne_nil (blocks.flatMap Response.encode))
      rw [hx] at hd ⊢
      simp only [decodeBlocks, hd, Option.bind_eq_bind, Option.bind_some, hrs]
      rfl

theorem blocks_length_le (blocks : List Response) :
    blocks.length ≤ (blocks.flatMap Response.encode).length := by
  induction blocks with
  | nil => exact Nat.le_refl 0
  | cons r blocks ih =>
    rw [flatMap_cons, length_append, r.encode_length, length_cons, wireSize]
    omega

/-- The length of a chunk fits its `i32`. -/
theorem ChunkCut.small (hc : ChunkCut blocks)
    (h : ∀ r ∈ blocks, r.Fits) : (blocks.flatMap Response.encode).length < 2 ^ 31 := by
  obtain ⟨front, r, rfl, hfr⟩ := hc
  have hr := (h r (mem_append_right _ mem_cons_self)).payload
  have hf : chunkFlushSize = 126976 := rfl
  rw [flatMap_append, flatMap_singleton, length_append, r.encode_length, wireSize]
  omega

theorem encodeChunk_ne_nil (blocks : List Response) : encodeChunk blocks ≠ [] := by
  intro hn
  have hl := congrArg length hn
  rw [encodeChunk, length_append, i32Be_length] at hl
  simp only [length_nil] at hl
  omega

theorem decodeChunks_succ {bytes : Bytes} (hne : bytes ≠ []) (turns : Nat) :
    decodeChunks (turns + 1) bytes
      = if i32OfBe (slice bytes 0 4) < 0 ∨ bytes.length < 4 + (i32OfBe (slice bytes 0 4)).toNat then none
        else (decodeBlocks (i32OfBe (slice bytes 0 4)).toNat
            (slice bytes 4 (4 + (i32OfBe (slice bytes 0 4)).toNat))).bind fun blocks =>
          (decodeChunks turns (bytes.drop (4 + (i32OfBe (slice bytes 0 4)).toNat))).bind fun rest =>
            some (blocks :: rest) := by
  cases bytes with
  | nil => exact absurd rfl hne
  | cons x xs => rfl

variable {chunks : List (List Response)}

/-- The chunks of a stream are decoded one by one. -/
theorem decodeChunks_encode (hcut : ∀ c ∈ chunks, ChunkCut c) (h : ∀ c ∈ chunks, ∀ r ∈ c, r.Fits)
    {turns : Nat} (ht : chunks.length ≤ turns) :
    decodeChunks turns (chunks.flatMap encodeChunk) = some chunks := by
  induction chunks generalizing turns with
  | nil => cases turns <;> rfl
  | cons c chunks ih =>
    cases turns with
    | zero => cases ht
    | succ turns =>
      have hrs := ih (fun c' hc' => hcut c' (mem_cons_of_mem _ hc'))
        (fun c' hc' => h c' (mem_cons_of_mem _ hc')) (Nat.le_of_succ_le_succ ht)
      have hf := h c mem_cons_self
      have hsm := (hcut c mem_cons_self).small hf
      have h0 : (encodeChunk c ++ chunks.flatMap encodeChunk).drop 0
          = i32Be (asI32 (c.flatMap Response.encode).length)
            ++ (c.flatMap Response.encode ++ chunks.flatMap encodeChunk) := by
        simp [encodeChunk]
      have h4 := drop_field (b := 4) h0 (by rw [i32Be_length])
      have hs : i32OfBe (slice (encodeChunk c ++ chunks.flatMap encodeChunk) 0 4)
          = (c.flatMap Response.encode).length := by
        rw [slice_of_drop (b := 4) h0 (by rw [i32Be_length]), asI32_of_fits (by omega) (by omega),
          i32OfBe_i32Be (by omega) (by omega)]
      have hb := slice_of_drop h4 rfl
      have hn := drop_field h4 rfl
      have hr : ¬ (((c.flatMap Response.encode).length : Int) < 0
          ∨ (encodeChunk c ++ chunks.flatMap encodeChunk).length
              < 4 + (c.flatMap Response.encode).length) := by
        rw [length_append, encodeChunk, length_append, i32Be_length]
        omega
      have hbk := decodeBlocks_encode hf (blocks_length_le c)
      have hne := append_ne_nil_of_left_ne_nil (encodeChunk_ne_nil c) (chunks.flatMap encodeChunk)
      rw [flatMap_cons, decodeChunks_succ hne, hs, Int.toNat_natCast, if_neg hr, hb, hn, hbk, hrs]
      rfl

theorem chunks_length_le (chunks : List (List Response)) :
    chunks.length ≤ (chunks.flatMap encodeChunk).length := by
  induction chunks with
  | nil => exact Nat.le_refl 0
  | cons c chunks ih =>
    rw [flatMap_cons, length_append, encodeChunk, length_append, i32Be_length, length_cons]
    omega

/-- A stream of chunks decodes to all their blocks. -/
theorem decodeStream_encode (hc : ∀ c ∈ chunks, ChunkCut c) (h : ∀ c ∈ chunks, ∀ r ∈ c, r.Fits) :
    decodeStream (chunks.flatMap encodeChunk) = some chunks.flatten := by
  rw [decodeStream, decodeChunks_encode hc h (chunks_length_le chunks)]
  rfl

end AdbFastboot
