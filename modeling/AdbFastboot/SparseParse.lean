import AdbFastboot.SparseFile

namespace AdbFastboot

open SparseFile List SparseChunkHeader

def expectPayloadLen (expected got : Nat) : Outcome SparseError Unit :=
  if got ≠ expected then fail (.chunkPayloadTooShort expected got) else .ok ()

def checkPayloadLen (blkSz : UInt32) (hdr : SparseChunkHeader) (payloadLen : Nat) :
    Outcome SparseError Unit :=
  if hdr.chunkType = chunkTypeRaw then
    expectPayloadLen (hdr.chunkSz.toNat * blkSz.toNat) payloadLen
  else if hdr.chunkType = chunkTypeFill then expectPayloadLen 4 payloadLen
  else if hdr.chunkType = chunkTypeDontCare then expectPayloadLen 0 payloadLen
  else if hdr.chunkType = chunkTypeCrc32 then expectPayloadLen 4 payloadLen
  else fail (.unknownChunkType hdr.chunkType)

def readChunk (buf : Bytes) (header : SparseHeader) (offset : Nat) :
    Outcome SparseError (SparseChunk × Nat) :=
  if offset + header.chunkHdrSz.toNat > buf.length then fail (.headerTooShort buf.length) else do
  let rest ← sliceAt buf offset buf.length
  let chunkHdr ← SparseChunkHeader.decode rest
  let payloadOffset := offset + header.chunkHdrSz.toNat
  if chunkHdr.totalSz.toNat < header.chunkHdrSz.toNat then
    fail (.invalidChunkHeaderSize (UInt16.ofNat chunkHdr.totalSz.toNat)) else do
  let payloadLen := chunkHdr.totalSz.toNat - header.chunkHdrSz.toNat
  if payloadOffset + payloadLen > buf.length then
    fail (.chunkPayloadTooShort (payloadOffset + payloadLen) buf.length) else do
  checkPayloadLen header.blkSz chunkHdr payloadLen
  let payload ← sliceAt buf payloadOffset (payloadOffset + payloadLen)
  pure (⟨chunkHdr.chunkType, chunkHdr.chunkSz, payload⟩, offset + chunkHdr.totalSz.toNat)

def readChunks (buf : Bytes) (header : SparseHeader) :
    Nat → Nat → Outcome SparseError (List SparseChunk)
  | 0, _ => .ok []
  | n + 1, offset => do
    let (c, next) ← readChunk buf header offset
    let cs ← readChunks buf header n next
    pure (c :: cs)

def SparseFile.fromBytes (buf : Bytes) : Outcome SparseError SparseFile := do
  let header ← SparseHeader.decode buf
  let chunks ← readChunks buf header header.totalChunks.toNat header.fileHdrSz.toNat
  pure ⟨header, chunks⟩

def SparseChunk.Shaped (blkSz : UInt32) (c : SparseChunk) : Prop :=
  (c.chunkType = chunkTypeRaw ∧ c.payload.length = c.chunkBlocks.toNat * blkSz.toNat) ∨
  (c.chunkType = chunkTypeFill ∧ c.payload.length = 4) ∨
  (c.chunkType = chunkTypeDontCare ∧ c.payload.length = 0) ∨
  (c.chunkType = chunkTypeCrc32 ∧ c.payload.length = 4)

theorem expectPayloadLen_eq_ok {expected got : Nat}
    (h : expectPayloadLen expected got = .ok ()) : got = expected := by
  unfold expectPayloadLen at h
  split at h
  next => simp at h
  next he => exact Classical.not_not.mp he

variable {blkSz : UInt32} {n : Nat} {f : SparseFile} {hdr : SparseChunkHeader}

/-- A chunk whose length is accepted has the shape of its type. -/
theorem checkPayloadLen_eq_ok {payload : Bytes}
    (h : checkPayloadLen blkSz hdr payload.length = .ok ()) :
    SparseChunk.Shaped blkSz ⟨hdr.chunkType, hdr.chunkSz, payload⟩ := by
  unfold checkPayloadLen at h
  split at h
  next ht => exact Or.inl ⟨ht, expectPayloadLen_eq_ok h⟩
  split at h
  next ht => exact Or.inr (Or.inl ⟨ht, expectPayloadLen_eq_ok h⟩)
  split at h
  next ht => exact Or.inr (Or.inr (Or.inl ⟨ht, expectPayloadLen_eq_ok h⟩))
  split at h
  next ht => exact Or.inr (Or.inr (Or.inr ⟨ht, expectPayloadLen_eq_ok h⟩))
  next => simp at h

variable {c : SparseChunk} {buf : Bytes} {header : SparseHeader} {offset : Nat}
    {cs : List SparseChunk}

theorem checkPayloadLen_ok (hs : c.Shaped blkSz)
    (ht : hdr.chunkType = c.chunkType) (hb : hdr.chunkSz = c.chunkBlocks) :
    checkPayloadLen blkSz hdr c.payload.length = .ok () := by
  rcases hs with ⟨h, hl⟩ | ⟨h, hl⟩ | ⟨h, hl⟩ | ⟨h, hl⟩ <;>
    simp [checkPayloadLen, expectPayloadLen, ht, hb, h, hl, chunkTypeRaw, chunkTypeFill,
      chunkTypeDontCare, chunkTypeCrc32]

structure ChunkRead (buf : Bytes) (header : SparseHeader) (offset : Nat) (c : SparseChunk)
    (next : Nat) : Prop where
  hdrFits : offset + header.chunkHdrSz.toNat ≤ buf.length
  payloadFits : offset + header.chunkHdrSz.toNat + c.payload.length ≤ buf.length
  size : header.chunkHdrSz.toNat + c.payload.length < 2 ^ 32
  next_eq : next = offset + header.chunkHdrSz.toNat + c.payload.length
  shaped : c.Shaped header.blkSz

section

variable {next : Nat} (hv : SparseChunkHeader.size ≤ header.chunkHdrSz.toNat)
  (h : readChunk buf header offset = .ok (c, next))
include hv h

theorem readChunk_eq_ok : ChunkRead buf header offset c next := by
  unfold readChunk at h
  split at h
  next => simp at h
  next hf =>
    rw [sliceAt_ok (by omega) (Nat.le_refl _), ok_bind, decode_ok, ok_bind] at h
    · generalize chunkHeaderAt (slice buf offset buf.length) = hdr at h
      simp only at h
      split at h
      next => simp at h
      next hs =>
        split at h
        next => simp at h
        next hpay =>
          obtain ⟨⟨⟩, hc, h⟩ := bind_eq_ok.mp h
          rw [sliceAt_ok (by omega) (by omega), ok_bind] at h
          obtain ⟨rfl, rfl⟩ := Prod.mk.inj (Except.ok.inj h)
          have hp : (slice buf (offset + header.chunkHdrSz.toNat) (offset
              + header.chunkHdrSz.toNat + (hdr.totalSz.toNat - header.chunkHdrSz.toNat))).length
              = hdr.totalSz.toNat - header.chunkHdrSz.toNat := by
            rw [slice_length (by omega)]
            omega
          have ht := hdr.totalSz.toNat_lt
          rw [← hp] at hc
          exact ⟨by omega, by simp only [hp]; omega, by simp only [hp]; omega,
            by simp only [hp]; omega, checkPayloadLen_eq_ok hc⟩
    · rw [slice_length (Nat.le_refl _)]
      omega

theorem readChunk_chunkType : c.chunkType = (chunkHeaderAt (buf.drop offset)).chunkType := by
  have hf := (readChunk_eq_ok hv h).hdrFits
  have hs : slice buf offset buf.length = buf.drop offset :=
    take_of_length_le (by simp)
  have hr : SparseChunkHeader.size ≤ (buf.drop offset).length := by
    rw [length_drop]
    omega
  unfold readChunk at h
  rw [if_neg (by omega), sliceAt_ok (by omega) (Nat.le_refl _), ok_bind, hs,
    decode_ok hr, ok_bind] at h
  dsimp only at h
  split at h
  next => simp at h
  split at h
  next => simp at h
  obtain ⟨⟨⟩, -, h⟩ := bind_eq_ok.mp h
  obtain ⟨payload, -, h⟩ := bind_eq_ok.mp h
  obtain ⟨rfl, -⟩ := Prod.mk.inj (Except.ok.inj h)
  rfl

end

/-- An encoded chunk is read. -/
theorem readChunk_ok {rest : Bytes} (hd : buf.drop offset = c.encode ++ rest)
    (h12 : header.chunkHdrSz = 12) (hs : c.Shaped header.blkSz) (hsz : c.totalSize < 2 ^ 32) :
    readChunk buf header offset = .ok (c, offset + c.totalSize) := by
  have hl : (buf.drop offset).length = c.totalSize + rest.length := by simp [hd]
  rw [length_drop] at hl
  have hts : c.totalSize = 12 + c.payload.length := rfl
  have hc : header.chunkHdrSz.toNat = 12 := by simp [h12]
  have hsl : slice buf offset buf.length = c.encode ++ rest := by
    unfold slice
    rw [take_of_length_le (by simp), hd]
  have ho : buf.drop (offset + 12) = c.payload ++ rest := by
    rw [SparseChunk.encode, append_assoc] at hd
    exact drop_field hd (by simp)
  unfold readChunk
  rw [if_neg (by omega), sliceAt_ok (by omega) (Nat.le_refl _), ok_bind, hsl,
    decode_ok (by simp [hts, SparseChunkHeader.size]; omega), ok_bind,
    SparseChunk.encode, append_assoc, chunkHeaderAt_encode]
  have ht := UInt32.toNat_ofNat_of_lt' hsz
  simp only [SparseChunkHeader.new, ht, hc]
  rw [if_neg (by omega), if_neg (by omega)]
  have hp : c.totalSize - 12 = c.payload.length := by omega
  rw [hp, checkPayloadLen_ok hs rfl rfl, ok_bind, sliceAt_ok (by omega) (by omega), ok_bind,
    slice_of_drop ho rfl]
  rfl

theorem readChunks_cons_eq_ok (h : readChunks buf header (n + 1) offset = .ok cs) :
    ∃ c next tail, readChunk buf header offset = .ok (c, next) ∧
      readChunks buf header n next = .ok tail ∧ cs = c :: tail := by
  obtain ⟨⟨c, next⟩, hc, h⟩ := bind_eq_ok.mp h
  obtain ⟨tail, ht, h⟩ := bind_eq_ok.mp h
  exact ⟨c, next, tail, hc, ht, (Except.ok.inj h).symm⟩

theorem readChunks_length (h : readChunks buf header n offset = .ok cs) : cs.length = n := by
  induction n generalizing offset cs with
  | zero => cases h; rfl
  | succ n ih =>
    obtain ⟨c, next, tail, _, ht, rfl⟩ := readChunks_cons_eq_ok h
    simp [ih ht]

section

variable (hv : SparseChunkHeader.size ≤ header.chunkHdrSz.toNat)
  (h : readChunks buf header n offset = .ok cs)
include hv h

/-- All chunks that are read have the shape of their types. -/
theorem readChunks_shaped :
    ∀ c ∈ cs, c.Shaped header.blkSz ∧ header.chunkHdrSz.toNat + c.payload.length < 2 ^ 32 := by
  induction n generalizing offset cs with
  | zero => cases h; simp
  | succ n ih =>
    obtain ⟨c, next, tail, hc, ht, rfl⟩ := readChunks_cons_eq_ok h
    have hr := readChunk_eq_ok hv hc
    intro d hd
    rcases mem_cons.mp hd with rfl | hd
    · exact ⟨hr.shaped, hr.size⟩
    · exact ih ht d hd

theorem readChunks_consumed (hne : cs ≠ []) :
    offset + cs.length * header.chunkHdrSz.toNat + (cs.map fun c => c.payload.length).sum ≤ buf.length := by
  induction n generalizing offset cs with
  | zero => cases h; exact absurd rfl hne
  | succ n ih =>
    obtain ⟨c, next, tail, hc, ht, rfl⟩ := readChunks_cons_eq_ok h
    have hr := readChunk_eq_ok hv hc
    have hf := hr.payloadFits
    have hn := hr.next_eq
    by_cases htl : tail = []
    · subst htl
      simpa using hf
    · have hh := ih ht htl
      simp only [length_cons, map_cons, sum_cons, Nat.add_mul]
      omega

end

theorem totalSize_sum (cs : List SparseChunk) :
    (cs.map SparseChunk.totalSize).sum = cs.length * 12 + (cs.map fun c => c.payload.length).sum := by
  induction cs with
  | nil => rfl
  | cons c cs ih =>
    have hc : c.totalSize = 12 + c.payload.length := rfl
    simp only [map_cons, sum_cons, length_cons, ih, hc, Nat.add_mul]
    omega

/-- Encoded chunks are read one by one. -/
theorem readChunks_encode {rest : Bytes}
    (hdp : buf.drop offset = cs.flatMap SparseChunk.encode ++ rest)
    (h12 : header.chunkHdrSz = 12) (hs : ∀ c ∈ cs, c.Shaped header.blkSz ∧ c.totalSize < 2 ^ 32) :
    readChunks buf header cs.length offset = .ok cs := by
  induction cs generalizing offset with
  | nil => rfl
  | cons c cs ih =>
    rw [flatMap_cons, append_assoc] at hdp
    have hc := hs c (by simp)
    have hn := drop_field hdp (b := offset + c.totalSize) (by simp)
    have ht := ih hn (fun d hd => hs d (by simp [hd]))
    simp [readChunks, readChunk_ok hdp h12 hc.1 hc.2, ht]

/-- A parsed file has a valid header and as many chunks as it states. -/
theorem SparseFile.fromBytes_eq_ok (h : fromBytes buf = .ok f) :
    SparseHeader.size ≤ buf.length ∧ f.header = headerAt buf ∧ f.header.Valid ∧
      readChunks buf f.header f.header.totalChunks.toNat f.header.fileHdrSz.toNat = .ok f.chunks := by
  obtain ⟨header, hd, h⟩ := bind_eq_ok.mp h
  obtain ⟨chunks, hc, h⟩ := bind_eq_ok.mp h
  cases h
  obtain ⟨hl, heq, hv⟩ := SparseHeader.decode_eq_ok hd
  exact ⟨hl, heq, hv, hc⟩

theorem SparseFile.fromBytes_ok {chunks : List SparseChunk}
    (hl : SparseHeader.size ≤ buf.length) (hv : (headerAt buf).Valid)
    (hc : readChunks buf (headerAt buf) (headerAt buf).totalChunks.toNat
      (headerAt buf).fileHdrSz.toNat = .ok chunks) :
    fromBytes buf = .ok ⟨headerAt buf, chunks⟩ := by
  simp [fromBytes, SparseHeader.decode_ok hl hv, hc]

theorem SparseFile.fromBytes_shaped (h : fromBytes buf = .ok f) :
    ∀ c ∈ f.chunks, c.Shaped f.header.blkSz ∧ c.totalSize < 2 ^ 32 := by
  obtain ⟨_, _, hv, hc⟩ := fromBytes_eq_ok h
  intro c hm
  obtain ⟨hs, hlt⟩ := readChunks_shaped hv.chunkHdr hc c hm
  have h12 := hv.chunkHdr
  exact ⟨hs, by simp only [SparseChunk.totalSize]; omega⟩

/-- A parsed file, written out, is no longer than what was parsed. -/
theorem SparseFile.fromBytes_totalSize (h : fromBytes buf = .ok f) : f.totalSize ≤ buf.length := by
  obtain ⟨hl, _, hv, hc⟩ := fromBytes_eq_ok h
  have hf := hv.fileHdr
  have hck : 12 ≤ f.header.chunkHdrSz.toNat := hv.chunkHdr
  rw [totalSize, totalSize_sum]
  by_cases hne : f.chunks = []
  · simpa [hne] using hl
  · have hh := readChunks_consumed hv.chunkHdr hc hne
    have hm := Nat.mul_le_mul_left f.chunks.length hck
    omega

theorem chunkRaw_length_le (hc : c.Shaped blkSz) :
    (chunkRaw blkSz c).length ≤ c.chunkBlocks.toNat * blkSz.toNat := by
  rcases hc with ⟨h, hl⟩ | ⟨h, hl⟩ | ⟨h, hl⟩ | ⟨h, hl⟩
  · simp [chunkRaw, h, hl]
  · simp [chunkRaw, h, hl, chunkTypeRaw, chunkTypeFill, Nat.div_mul_le_self]
  · simp [chunkRaw, h, chunkTypeRaw, chunkTypeFill, chunkTypeDontCare]
  · simp [chunkRaw, h, chunkTypeRaw, chunkTypeFill, chunkTypeDontCare, chunkTypeCrc32]

theorem rawContent_length_le (hcs : ∀ c ∈ cs, c.Shaped blkSz) :
    (rawContent blkSz cs).length ≤ blockSum cs * blkSz.toNat := by
  induction cs with
  | nil => simp [rawContent]
  | cons c cs ih =>
    have hc := chunkRaw_length_le (hcs c mem_cons_self)
    have hr := ih fun d hd => hcs d (mem_cons_of_mem c hd)
    simp only [rawContent, flatMap_cons, length_append, blockSum_cons, Nat.add_mul] at hr ⊢
    omega

end AdbFastboot
