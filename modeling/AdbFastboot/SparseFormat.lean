import AdbFastboot.Outcome

namespace AdbFastboot

def sparseHeaderMagic : UInt32 := 0xED26FF3A

def chunkTypeRaw : UInt16 := 0xCAC1

def chunkTypeFill : UInt16 := 0xCAC2

def chunkTypeDontCare : UInt16 := 0xCAC3

def chunkTypeCrc32 : UInt16 := 0xCAC4

inductive SparseError where
  | headerTooShort (len : Nat)
  | invalidMagic (magic : UInt32)
  | unsupportedVersion (major minor : UInt16)
  | invalidFileHeaderSize (size : UInt16)
  | invalidChunkHeaderSize (size : UInt16)
  | maxDownloadSizeTooSmall (maxSize minRequired : Nat)
  | unalignedChunkData (len : Nat) (blkSz : UInt32)
  | invalidBlockSize (blkSz : UInt32)
  | invalidChunkSize (blocks : UInt32)
  | chunkPayloadTooShort (expected got : Nat)
  | unknownChunkType (chunkType : UInt16)
deriving DecidableEq, Repr

structure SparseHeader where
  magic : UInt32
  majorVersion : UInt16
  minorVersion : UInt16
  fileHdrSz : UInt16
  chunkHdrSz : UInt16
  blkSz : UInt32
  totalBlks : UInt32
  totalChunks : UInt32
  imageChecksum : UInt32
deriving DecidableEq, Repr

def SparseHeader.size : Nat := 28

def SparseChunkHeader.size : Nat := 12

def SparseHeader.new (blkSz totalBlks totalChunks : UInt32) : SparseHeader :=
  ⟨sparseHeaderMagic, 1, 0, 28, 12, blkSz, totalBlks, totalChunks, 0⟩

def SparseHeader.encode (h : SparseHeader) : Bytes :=
  u32Le h.magic ++ (u16Le h.majorVersion ++ (u16Le h.minorVersion ++ (u16Le h.fileHdrSz ++
    (u16Le h.chunkHdrSz ++ (u32Le h.blkSz ++ (u32Le h.totalBlks ++ (u32Le h.totalChunks ++
      u32Le h.imageChecksum)))))))

def SparseHeader.decode (buf : Bytes) : Outcome SparseError SparseHeader :=
  if buf.length < SparseHeader.size then fail (.headerTooShort buf.length) else do
  let magic ← readU32 buf 0
  if magic ≠ sparseHeaderMagic then fail (.invalidMagic magic) else do
  let majorVersion ← readU16 buf 4
  let minorVersion ← readU16 buf 6
  if majorVersion ≠ 1 then fail (.unsupportedVersion majorVersion minorVersion) else do
  let fileHdrSz ← readU16 buf 8
  if fileHdrSz.toNat < SparseHeader.size then fail (.invalidFileHeaderSize fileHdrSz) else do
  let chunkHdrSz ← readU16 buf 10
  if chunkHdrSz.toNat < SparseChunkHeader.size then
    fail (.invalidChunkHeaderSize chunkHdrSz) else do
  let blkSz ← readU32 buf 12
  let totalBlks ← readU32 buf 16
  let totalChunks ← readU32 buf 20
  let imageChecksum ← readU32 buf 24
  pure ⟨magic, majorVersion, minorVersion, fileHdrSz, chunkHdrSz, blkSz, totalBlks,
    totalChunks, imageChecksum⟩

structure SparseChunkHeader where
  chunkType : UInt16
  reserved1 : UInt16
  chunkSz : UInt32
  totalSz : UInt32
deriving DecidableEq, Repr

def SparseChunkHeader.new (chunkType : UInt16) (chunkSz totalSz : UInt32) : SparseChunkHeader :=
  ⟨chunkType, 0, chunkSz, totalSz⟩

def SparseChunkHeader.encode (h : SparseChunkHeader) : Bytes :=
  u16Le h.chunkType ++ (u16Le h.reserved1 ++ (u32Le h.chunkSz ++ u32Le h.totalSz))

def SparseChunkHeader.decode (buf : Bytes) : Outcome SparseError SparseChunkHeader :=
  if buf.length < SparseChunkHeader.size then fail (.headerTooShort buf.length) else do
  let chunkType ← readU16 buf 0
  let reserved1 ← readU16 buf 2
  let chunkSz ← readU32 buf 4
  let totalSz ← readU32 buf 8
  pure ⟨chunkType, reserved1, chunkSz, totalSz⟩

def headerAt (buf : Bytes) : SparseHeader :=
  ⟨u32At buf 0, u16At buf 4, u16At buf 6, u16At buf 8, u16At buf 10, u32At buf 12,
    u32At buf 16, u32At buf 20, u32At buf 24⟩

def chunkHeaderAt (buf : Bytes) : SparseChunkHeader :=
  ⟨u16At buf 0, u16At buf 2, u32At buf 4, u32At buf 8⟩

structure SparseHeader.Valid (h : SparseHeader) : Prop where
  magic : h.magic = sparseHeaderMagic
  major : h.majorVersion = 1
  fileHdr : SparseHeader.size ≤ h.fileHdrSz.toNat
  chunkHdr : SparseChunkHeader.size ≤ h.chunkHdrSz.toNat

variable {buf : Bytes}

theorem SparseHeader.decode_ok (hl : SparseHeader.size ≤ buf.length)
    (hv : (headerAt buf).Valid) : SparseHeader.decode buf = .ok (headerAt buf) := by
  obtain ⟨hm, hmaj, hf, hc⟩ := hv
  have h28 : SparseHeader.size = 28 := rfl
  simp only [headerAt] at hm hmaj hf hc
  unfold SparseHeader.decode
  rw [if_neg (by omega), readU32_ok (by omega)]
  simp only [ok_bind, hm, ne_eq, not_true_eq_false, if_false]
  rw [readU16_ok (by omega), readU16_ok (by omega)]
  simp only [ok_bind, hmaj, not_true_eq_false, if_false]
  simp (disch := omega) only [readU16_ok, ok_bind, if_neg, readU32_ok]
  simp [headerAt, hm, hmaj]

/-- A decoded header is valid, and that of the data. -/
theorem SparseHeader.decode_eq_ok {h : SparseHeader} (hd : SparseHeader.decode buf = .ok h) :
    SparseHeader.size ≤ buf.length ∧ h = headerAt buf ∧ h.Valid := by
  unfold SparseHeader.decode at hd
  split at hd
  next => simp at hd
  next hl =>
    simp only [SparseHeader.size] at hl
    simp only [readU32_ok (show 0 + 4 ≤ buf.length by omega), ok_bind] at hd
    split at hd
    next => simp at hd
    next hm =>
      simp only [readU16_ok (show 4 + 2 ≤ buf.length by omega),
        readU16_ok (show 6 + 2 ≤ buf.length by omega), ok_bind] at hd
      split at hd
      next => simp at hd
      next hmaj =>
        simp only [readU16_ok (show 8 + 2 ≤ buf.length by omega), ok_bind] at hd
        split at hd
        next => simp at hd
        next hf =>
          simp only [readU16_ok (show 10 + 2 ≤ buf.length by omega), ok_bind] at hd
          split at hd
          next => simp at hd
          next hc =>
            simp only [readU32_ok (show 12 + 4 ≤ buf.length by omega),
              readU32_ok (show 16 + 4 ≤ buf.length by omega),
              readU32_ok (show 20 + 4 ≤ buf.length by omega),
              readU32_ok (show 24 + 4 ≤ buf.length by omega), ok_bind, pure_eq_ok] at hd
            cases hd
            exact ⟨by simp only [SparseHeader.size]; omega, rfl, Classical.not_not.mp hm, Classical.not_not.mp hmaj,
              Nat.not_lt.mp hf, Nat.not_lt.mp hc⟩

theorem SparseChunkHeader.decode_ok (hl : SparseChunkHeader.size ≤ buf.length) :
    SparseChunkHeader.decode buf = .ok (chunkHeaderAt buf) := by
  have h12 : SparseChunkHeader.size = 12 := rfl
  unfold SparseChunkHeader.decode
  simp (disch := omega) only [if_neg, readU16_ok, readU32_ok]
  rfl

@[simp] theorem SparseHeader.encode_length (h : SparseHeader) : h.encode.length = 28 := by
  simp [SparseHeader.encode]

@[simp] theorem SparseChunkHeader.encode_length (h : SparseChunkHeader) : h.encode.length = 12 := by
  simp [SparseChunkHeader.encode]

theorem headerAt_encode (h : SparseHeader) (rest : Bytes) : headerAt (h.encode ++ rest) = h := by
  have h0 : (h.encode ++ rest).drop 0 = _ := List.drop_zero
  simp only [SparseHeader.encode, List.append_assoc] at h0 ⊢
  have h4 := drop_field h0 (b := 4) (by simp)
  have h6 := drop_field h4 (b := 6) (by simp)
  have h8 := drop_field h6 (b := 8) (by simp)
  have h10 := drop_field h8 (b := 10) (by simp)
  have h12 := drop_field h10 (b := 12) (by simp)
  have h16 := drop_field h12 (b := 16) (by simp)
  have h20 := drop_field h16 (b := 20) (by simp)
  have h24 := drop_field h20 (b := 24) (by simp)
  simp [headerAt, u32At_of_drop h0, u16At_of_drop h4, u16At_of_drop h6, u16At_of_drop h8,
    u16At_of_drop h10, u32At_of_drop h12, u32At_of_drop h16, u32At_of_drop h20, u32At_of_drop h24]

theorem chunkHeaderAt_encode (h : SparseChunkHeader) (rest : Bytes) :
    chunkHeaderAt (h.encode ++ rest) = h := by
  have h0 : (h.encode ++ rest).drop 0 = _ := List.drop_zero
  simp only [SparseChunkHeader.encode, List.append_assoc] at h0 ⊢
  have h2 := drop_field h0 (b := 2) (by simp)
  have h4 := drop_field h2 (b := 4) (by simp)
  have h8 := drop_field h4 (b := 8) (by simp)
  simp [chunkHeaderAt, u16At_of_drop h0, u16At_of_drop h2, u32At_of_drop h4, u32At_of_drop h8]

end AdbFastboot
