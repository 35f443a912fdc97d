import AdbFastboot.SparseFormat

namespace AdbFastboot

open List

structure SparseChunk where
  chunkType : UInt16
  chunkBlocks : UInt32
  payload : Bytes
deriving DecidableEq, Repr

def SparseChunk.totalSize (c : SparseChunk) : Nat := SparseChunkHeader.size + c.payload.length

def SparseChunk.raw (data : Bytes) (blkSz : UInt32) : Outcome SparseError SparseChunk :=
  if blkSz = 0 then fail (.invalidBlockSize 0)
  else if data = [] then fail (.invalidChunkSize 0)
  else if data.length % blkSz.toNat ≠ 0 then fail (.unalignedChunkData data.length blkSz)
  else .ok ⟨chunkTypeRaw, UInt32.ofNat (data.length / blkSz.toNat), data⟩

def SparseChunk.fill (fillVal blocks : UInt32) : Outcome SparseError SparseChunk :=
  if blocks = 0 then fail (.invalidChunkSize 0) else .ok ⟨chunkTypeFill, blocks, u32Le fillVal⟩

def SparseChunk.dontCare (blocks : UInt32) : Outcome SparseError SparseChunk :=
  if blocks = 0 then fail (.invalidChunkSize 0) else .ok ⟨chunkTypeDontCare, blocks, []⟩

def SparseChunk.crc32 (crc : UInt32) : Outcome SparseError SparseChunk :=
  .ok ⟨chunkTypeCrc32, 0, u32Le crc⟩

def SparseChunk.encode (c : SparseChunk) : Bytes :=
  (SparseChunkHeader.new c.chunkType c.chunkBlocks (UInt32.ofNat c.totalSize)).encode ++ c.payload

@[simp] theorem SparseChunk.encode_length (c : SparseChunk) : c.encode.length = c.totalSize := by
  simp [SparseChunk.encode, SparseChunk.totalSize, SparseChunkHeader.size]

structure SparseFile where
  header : SparseHeader
  chunks : List SparseChunk
deriving DecidableEq, Repr

def SparseFile.new (blkSz : UInt32) : SparseFile := ⟨SparseHeader.new blkSz 0 0, []⟩

def SparseFile.addChunk (profile : Profile) (f : SparseFile) (c : SparseChunk) :
    Outcome SparseError SparseFile := do
  let totalBlks ← addU32 profile f.header.totalBlks c.chunkBlocks
  let chunks := f.chunks ++ [c]
  pure ⟨{ f.header with totalBlks := totalBlks, totalChunks := UInt32.ofNat chunks.length }, chunks⟩

def SparseFile.addChunks (profile : Profile) (f : SparseFile) (cs : List SparseChunk) :
    Outcome SparseError SparseFile :=
  cs.foldlM (SparseFile.addChunk profile) f

def sumBlocks (profile : Profile) (acc : UInt32) (cs : List SparseChunk) :
    Outcome SparseError UInt32 :=
  cs.foldlM (fun acc c => addU32 profile acc c.chunkBlocks) acc

def SparseFile.totalBlocks (profile : Profile) (f : SparseFile) : Outcome SparseError UInt32 :=
  sumBlocks profile 0 f.chunks

def SparseFile.totalSize (f : SparseFile) : Nat :=
  SparseHeader.size + (f.chunks.map SparseChunk.totalSize).sum

def SparseFile.encode (profile : Profile) (f : SparseFile) : Outcome SparseError Bytes := do
  let totalBlks ← f.totalBlocks profile
  let header := { f.header with
    totalBlks := totalBlks, totalChunks := UInt32.ofNat f.chunks.length }
  pure (header.encode ++ f.chunks.flatMap SparseChunk.encode)

def SparseFile.fromRaw (profile : Profile) (rawData : Bytes) (blkSz : UInt32) :
    Outcome SparseError SparseFile :=
  let blkSz := if blkSz = 0 then 4096 else blkSz
  let file := SparseFile.new blkSz
  if rawData = [] then .ok file else
  let rem := rawData.length % blkSz.toNat
  let data := if rem = 0 then rawData else rawData ++ replicate (blkSz.toNat - rem) 0
  match SparseChunk.raw data blkSz with
  | .ok chunk => file.addChunk profile chunk
  | .error _ => .ok file

/-- A vector never holds more than `isize::MAX` bytes; asking for more panics. -/
def isizeMax : Nat := 2 ^ 63 - 1

def vecWithCapacity (n : Nat) : Outcome SparseError Unit :=
  if n ≤ isizeMax then .ok () else panicked

def vecExtend (v more : Bytes) : Outcome SparseError Bytes :=
  if v.length + more.length ≤ isizeMax then .ok (v ++ more) else panicked

def chunkRaw (blkSz : UInt32) (c : SparseChunk) : Bytes :=
  if c.chunkType = chunkTypeRaw then c.payload
  else if c.chunkType = chunkTypeFill then
    let fillBytes := c.chunkBlocks.toNat * blkSz.toNat
    if c.payload.length = 4 then
      (replicate (fillBytes / 4) (u32Le (u32OfLe c.payload))).flatten
    else replicate fillBytes 0
  else if c.chunkType = chunkTypeDontCare then
    replicate (c.chunkBlocks.toNat * blkSz.toNat) 0
  else []

def SparseFile.toRaw (f : SparseFile) : Outcome SparseError Bytes := do
  vecWithCapacity (f.header.totalBlks.toNat * f.header.blkSz.toNat)
  f.chunks.foldlM (fun raw c => vecExtend raw (chunkRaw f.header.blkSz c)) []

def blockSum (cs : List SparseChunk) : Nat := (cs.map fun c => c.chunkBlocks.toNat).sum

@[simp] theorem blockSum_nil : blockSum [] = 0 := rfl

@[simp] theorem blockSum_cons (c : SparseChunk) (cs : List SparseChunk) :
    blockSum (c :: cs) = c.chunkBlocks.toNat + blockSum cs := by
  simp [blockSum]

@[simp] theorem blockSum_append (cs ds : List SparseChunk) :
    blockSum (cs ++ ds) = blockSum cs + blockSum ds := by
  simp [blockSum]

variable {profile : Profile} {cs : List SparseChunk} {f : SparseFile}

/-- The blocks are summed where the sum fits. -/
theorem sumBlocks_ok {acc : UInt32} (h : acc.toNat + blockSum cs < 2 ^ 32) :
    sumBlocks profile acc cs = .ok (UInt32.ofNat (acc.toNat + blockSum cs)) := by
  induction cs generalizing acc with
  | nil => simp [sumBlocks]
  | cons c cs ih =>
    simp only [blockSum_cons] at h
    have ha : (acc + c.chunkBlocks).toNat = acc.toNat + c.chunkBlocks.toNat := by
      rw [UInt32.toNat_add, Nat.mod_eq_of_lt (by omega)]
    simp only [sumBlocks, foldlM_cons, addU32_ok (show acc.toNat + c.chunkBlocks.toNat
      < 2 ^ 32 by omega), ok_bind]
    have hh : sumBlocks profile (acc + c.chunkBlocks) cs
        = .ok (UInt32.ofNat ((acc + c.chunkBlocks).toNat + blockSum cs)) := ih (by omega)
    simpa [sumBlocks, ha, Nat.add_assoc] using hh

theorem sumBlocks_release (acc : UInt32) (cs : List SparseChunk) :
    ∃ total, sumBlocks .release acc cs = .ok total := by
  induction cs generalizing acc with
  | nil => exact ⟨acc, rfl⟩
  | cons c cs ih =>
    obtain ⟨total, ht⟩ := ih (acc + c.chunkBlocks)
    refine ⟨total, ?_⟩
    have ha : (addU32 .release acc c.chunkBlocks : Outcome SparseError _)
        = .ok (acc + c.chunkBlocks) := by
      unfold addU32
      split <;> rfl
    simpa [sumBlocks, ha] using ht

/-- In a debug build a sum that is returned has not overflowed. -/
theorem sumBlocks_debug_eq_ok {acc total : UInt32} (h : sumBlocks .debug acc cs = .ok total) :
    acc.toNat + blockSum cs < 2 ^ 32 ∧ total.toNat = acc.toNat + blockSum cs := by
  induction cs generalizing acc with
  | nil =>
    have he := Except.ok.inj h
    exact ⟨by simpa using acc.toNat_lt, by simp [he]⟩
  | cons c cs ih =>
    obtain ⟨next, hn, h⟩ := bind_eq_ok.mp h
    obtain ⟨hlt, heq⟩ := addU32_debug_eq_ok hn
    obtain ⟨hb, ht⟩ := ih h
    simp only [blockSum_cons]
    omega

theorem SparseFile.totalBlocks_returns (profile : Profile)
    (h : profile = .debug → blockSum f.chunks < 2 ^ 32) :
    ∃ total, f.totalBlocks profile = .ok total := by
  cases profile with
  | debug =>
    exact ⟨_, sumBlocks_ok (by simpa using h rfl)⟩
  | release => exact sumBlocks_release 0 f.chunks

theorem SparseFile.encode_returns (profile : Profile) (h : profile = .debug → blockSum f.chunks < 2 ^ 32) :
    ∃ bytes, f.encode profile = .ok bytes := by
  obtain ⟨total, ht⟩ := SparseFile.totalBlocks_returns profile h
  exact ⟨_, by rw [SparseFile.encode, ht, ok_bind, pure_eq_ok]⟩

section

variable {bytes : Bytes} (h : f.encode profile = .ok bytes)
include h

/-- An encoded file is its header with the counts, and its chunks. -/
theorem SparseFile.encode_eq_ok : ∃ total, f.totalBlocks profile = .ok total ∧
      bytes = ({ f.header with totalBlks := total, totalChunks := UInt32.ofNat f.chunks.length }
        : SparseHeader).encode ++ f.chunks.flatMap SparseChunk.encode := by
  obtain ⟨total, ht, h⟩ := bind_eq_ok.mp h
  exact ⟨total, ht, (Except.ok.inj h).symm⟩

theorem SparseFile.encode_length : bytes.length = f.totalSize := by
  obtain ⟨total, _, rfl⟩ := SparseFile.encode_eq_ok h
  simp [SparseFile.totalSize, SparseHeader.size]

end

section

variable {g : SparseFile} {c : SparseChunk} (h : f.addChunk profile c = .ok g)
include h

theorem SparseFile.addChunk_eq_ok : g.chunks = f.chunks ++ [c] ∧ g.header.blkSz = f.header.blkSz := by
  obtain ⟨total, _, h⟩ := bind_eq_ok.mp h
  cases h
  exact ⟨rfl, rfl⟩

theorem SparseFile.addChunk_totalBlks :
    g.header.totalBlks.toNat = (f.header.totalBlks.toNat + c.chunkBlocks.toNat) % 2 ^ 32 := by
  obtain ⟨total, ht, h⟩ := bind_eq_ok.mp h
  cases h
  simp [addU32_eq_ok ht]

end

def rawContent (blkSz : UInt32) (cs : List SparseChunk) : Bytes := cs.flatMap (chunkRaw blkSz)

theorem extendAll_eq_ok {blkSz : UInt32} {acc raw : Bytes}
    (h : cs.foldlM (fun raw c => vecExtend raw (chunkRaw blkSz c)) acc = .ok raw) :
    raw = acc ++ rawContent blkSz cs := by
  induction cs generalizing acc with
  | nil =>
    have he := Except.ok.inj h
    simp [rawContent, he]
  | cons c cs ih =>
    rw [foldlM_cons] at h
    obtain ⟨next, hn, h⟩ := bind_eq_ok.mp h
    unfold vecExtend at hn
    split at hn
    next =>
      have he := ih h
      simp [he, ← Except.ok.inj hn, rawContent]
    next => simp at hn

theorem extendAll_ok {blkSz : UInt32} {acc : Bytes}
    (h : acc.length + (rawContent blkSz cs).length ≤ isizeMax) :
    cs.foldlM (fun raw c => vecExtend raw (chunkRaw blkSz c)) acc = .ok (acc ++ rawContent blkSz cs) := by
  induction cs generalizing acc with
  | nil => simp [rawContent]
  | cons c cs ih =>
    have hc : rawContent blkSz (c :: cs) = chunkRaw blkSz c ++ rawContent blkSz cs := by
      simp [rawContent]
    rw [hc, length_append] at h
    have hs : vecExtend acc (chunkRaw blkSz c) = .ok (acc ++ chunkRaw blkSz c) := by
      rw [vecExtend, if_pos (by omega)]
    rw [foldlM_cons, hs, ok_bind, ih (by simp only [length_append]; omega), hc, append_assoc]

/-- A raw image that is returned is the content of the chunks. -/
theorem SparseFile.toRaw_eq_ok {raw : Bytes} (h : f.toRaw = .ok raw) :
    f.header.totalBlks.toNat * f.header.blkSz.toNat ≤ isizeMax ∧
      raw = rawContent f.header.blkSz f.chunks := by
  obtain ⟨_, hc, h⟩ := bind_eq_ok.mp h
  unfold vecWithCapacity at hc
  split at hc
  next hle => exact ⟨hle, by simpa using extendAll_eq_ok h⟩
  next => simp at hc

theorem SparseFile.toRaw_ok (hc : f.header.totalBlks.toNat * f.header.blkSz.toNat ≤ isizeMax)
    (hl : (rawContent f.header.blkSz f.chunks).length ≤ isizeMax) :
    f.toRaw = .ok (rawContent f.header.blkSz f.chunks) := by
  have he : f.chunks.foldlM (fun raw c => vecExtend raw (chunkRaw f.header.blkSz c)) []
      = .ok ([] ++ rawContent f.header.blkSz f.chunks) := extendAll_ok (by simpa using hl)
  simp [SparseFile.toRaw, vecWithCapacity, hc, he]

end AdbFastboot
