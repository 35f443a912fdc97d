import AdbFastboot.BootHeaderCodec
import AdbFastboot.PageLayout

namespace AdbFastboot

/-- `(n + align - 1) & !(align - 1)`. -/
def alignUp (n align : Nat) : Outcome BootImageError Nat := do
  let sum ← addUsize n align
  if sum = 0 ∨ align = 0 then panicked else pure ((sum - 1) &&& (2 ^ 64 - align))

structure BootImage where
  header : BootImageHeader
  kernel : Bytes
  ramdisk : Bytes
  second : Bytes
  recoveryDtbo : Bytes
  dtb : Bytes
deriving DecidableEq, Repr

def defaultPageSize : UInt32 := 2048

def buildPageSize (pageSize headerVersion : UInt32) : UInt32 :=
  if headerVersion ≤ 2 then
    if !isPowerOfTwo pageSize.toNat ∨ pageSize = 0 then defaultPageSize else pageSize
  else 4096

def buildHeader (kernel ramdisk second dtb : Bytes) (ps headerVersion : UInt32) : BootImageHeader :=
  let hdr := { (if headerVersion ≤ 2 then BootImageHeader.newV0 else BootImageHeader.newV3) with
    headerVersion := headerVersion
    kernelSize := UInt32.ofNat kernel.length
    ramdiskSize := UInt32.ofNat ramdisk.length
    secondSize := UInt32.ofNat second.length
    pageSize := ps }
  let hdr := if 1 ≤ headerVersion then
      { hdr with
        bootHeaderSize := UInt32.ofNat (nativeHeaderSize headerVersion)
        recoveryDtboSize := 0
        recoveryDtboOffset := 0 }
    else hdr
  if 2 ≤ headerVersion then { hdr with dtbSize := UInt32.ofNat dtb.length, dtbAddr := 0 } else hdr

def paddedSection (ps : Nat) (bs : Bytes) : Outcome BootImageError Bytes :=
  if bs = [] then .ok [] else do
  let n ← alignUp bs.length ps
  pure (resizeZero bs n)

def buildBootImage (kernel ramdisk second dtb : Bytes) (pageSize headerVersion : UInt32) :
    Outcome BootImageError Bytes := do
  let ps := (buildPageSize pageSize headerVersion).toNat
  let rawHdr := (buildHeader kernel ramdisk second dtb (buildPageSize pageSize headerVersion)
    headerVersion).encode
  let hdrPage ← alignUp rawHdr.length ps
  let kernel ← paddedSection ps kernel
  let ramdisk ← paddedSection ps ramdisk
  let second ← paddedSection ps (if headerVersion ≤ 2 then second else [])
  let dtb ← paddedSection ps (if 2 ≤ headerVersion then dtb else [])
  pure (resizeZero rawHdr hdrPage ++ (kernel ++ (ramdisk ++ (second ++ dtb))))

def readSection (name : String) (data : Bytes) (ps offset size : Nat) :
    Outcome BootImageError (Bytes × Nat) :=
  if 0 < size then do
    let padded ← alignUp size ps
    let next ← addUsize offset padded
    if data.length < next then fail (.sectionBounds name offset padded data.length) else
    let stop ← addUsize offset size
    let bytes ← sliceAt data offset stop
    pure (bytes, next)
  else pure ([], offset)

/-- The recovery DTBO of version 1, which lies at an absolute offset. -/
def readRecoveryDtbo (header : BootImageHeader) (data : Bytes) (ps offset : Nat) :
    Outcome BootImageError Bytes :=
  if header.headerVersion = 1 ∧ 0 < header.recoveryDtboSize then do
    let padded ← alignUp header.recoveryDtboSize.toNat ps
    if header.recoveryDtboOffset.toNat < offset then
      fail (.invalidSectionOffset "recovery_dtbo" header.recoveryDtboOffset.toNat offset)
    else if 2 ^ 64 ≤ header.recoveryDtboOffset.toNat + padded ∨
        data.length < header.recoveryDtboOffset.toNat + padded then
      fail (.sectionBounds "recovery_dtbo" header.recoveryDtboOffset.toNat padded data.length)
    else
    let stop ← addUsize header.recoveryDtboOffset.toNat header.recoveryDtboSize.toNat
    sliceAt data header.recoveryDtboOffset.toNat stop
  else pure []

def parsePageSize (header : BootImageHeader) : Nat :=
  if header.headerVersion ≤ 2 then header.pageSize.toNat else 4096

def parseHeaderBytes (version : UInt32) (ps : Nat) : Outcome BootImageError Nat :=
  if version ≤ 2 then do
    let size ← unwrapHeaderSize version
    alignUp size ps
  else .ok bootImageHeaderV3Size

def parseSections (header : BootImageHeader) (data : Bytes) (ps hdrBytes : Nat) :
    Outcome BootImageError BootImage := do
  let (kernel, offset) ← readSection "kernel" data ps hdrBytes header.kernelSize.toNat
  let (ramdisk, offset) ← readSection "ramdisk" data ps offset header.ramdiskSize.toNat
  let (second, offset) ← readSection "second" data ps offset
    (if header.headerVersion ≤ 2 then header.secondSize.toNat else 0)
  let recoveryDtbo ← readRecoveryDtbo header data ps offset
  let (dtb, _) ← readSection "dtb" data ps offset
    (if 2 ≤ header.headerVersion then header.dtbSize.toNat else 0)
  pure { header, kernel, ramdisk, second, recoveryDtbo, dtb }

def parseBootImage (data : Bytes) : Outcome BootImageError BootImage := do
  if data.length < bootMagic.length then fail (.bufferTooShort bootMagic.length data.length) else
  let header ← BootImageHeader.decode data
  let ps := parsePageSize header
  if ps = 0 ∨ !isPowerOfTwo ps then fail (.invalidPageSize header.pageSize) else
  let hdrBytes ← parseHeaderBytes header.headerVersion ps
  if data.length < hdrBytes then fail (.bufferTooShort hdrBytes data.length) else
  parseSections header data ps hdrBytes

def PageSize (ps : Nat) : Prop := ∃ k, k ≤ 31 ∧ ps = 2 ^ k

theorem PageSize.bounds {ps : Nat} (h : PageSize ps) : 0 < ps ∧ ps ≤ 2 ^ 31 := by
  obtain ⟨k, hk, rfl⟩ := h
  exact ⟨Nat.two_pow_pos k, Nat.pow_le_pow_right (by decide) hk⟩

theorem pageSize_4096 : PageSize 4096 := ⟨12, by decide, by decide⟩

theorem pageSize_of_isPowerOfTwo {x : UInt32} (h : isPowerOfTwo x.toNat = true) : PageSize x.toNat := by
  obtain ⟨k, hk⟩ := isPowerOfTwo_iff.mp h
  refine ⟨k, ?_, hk⟩
  have hlt := x.toNat_lt
  rw [hk] at hlt
  have := (Nat.pow_lt_pow_iff_right (by decide : 1 < 2)).mp hlt
  omega

theorem PageSize.isPowerOfTwo {ps : Nat} (h : PageSize ps) : isPowerOfTwo ps = true := by
  obtain ⟨k, -, hk⟩ := h
  exact isPowerOfTwo_iff.mpr ⟨k, hk⟩

variable {ps : Nat}

variable (h : PageSize ps)
include h

/-- Rounding up to pages does not overflow below 2 ^ 63. -/
theorem alignUp_ok {n : Nat} (hn : n < 2 ^ 63) : alignUp n ps = .ok (roundUp n ps) := by
  have hp := h.bounds
  obtain ⟨k, hk, rfl⟩ := h
  unfold alignUp
  rw [addUsize_ok (by omega), ok_bind, if_neg (by omega), and_mask (by omega) (by omega)]
  rfl

theorem paddedSection_ok {bs : Bytes} (hb : bs.length < 2 ^ 63) :
    paddedSection ps bs = .ok (padTo ps bs) := by
  unfold paddedSection
  split
  next hn => rw [hn, padTo_nil]
  rw [alignUp_ok h hb, ok_bind, resizeZero_roundUp h.bounds.1]
  rfl

/-- A section is read exactly if its pages lie within the data. -/
theorem readSection_eq (name : String) {data : Bytes} {offset size : Nat}
    (ho : offset < 2 ^ 40) (hle : offset ≤ data.length) (hs : size < 2 ^ 32) :
    readSection name data ps offset size = if data.length < offset + roundUp size ps then
          fail (.sectionBounds name offset (roundUp size ps) data.length)
        else .ok (slice data offset (offset + size), offset + roundUp size ps) := by
  have hp := h.bounds
  have hr := roundUp_bounds hp.1 size
  unfold readSection
  split
  next hpos =>
    rw [alignUp_ok h (by omega), ok_bind, addUsize_ok (by omega), ok_bind]
    split
    next => rfl
    next hf =>
      rw [addUsize_ok (by omega), ok_bind, sliceAt_ok (by omega) (by omega)]
      rfl
  next hzr =>
    have hz : size = 0 := by omega
    rw [hz, roundUp_zero, Nat.add_zero, if_neg (by omega), slice, Nat.sub_self]
    rfl

/-- With a header that is decoded, the parser goes on to the sections. -/
theorem parseBootImage_eq {data : Bytes} {header : BootImageHeader} {hd : Nat}
    (hdc : BootImageHeader.decode data = .ok header) (hps : parsePageSize header = ps)
    (hb : parseHeaderBytes header.headerVersion ps = .ok hd) :
    parseBootImage data = if data.length < hd then fail (.bufferTooShort hd data.length)
        else parseSections header data ps hd := by
  have hl : bootMagic.length ≤ data.length := by
    by_contra hs
    rw [BootImageHeader.decode, if_pos (by omega)] at hdc
    simp at hdc
  have hpos := h.bounds.1
  have hp : ¬(ps = 0 ∨ (!isPowerOfTwo ps) = true) := by
    simp [h.isPowerOfTwo]
    omega
  unfold parseBootImage
  rw [if_neg (by omega), hdc, ok_bind]
  simp only [hps]
  rw [if_neg hp, hb, ok_bind]

end AdbFastboot
