import AdbFastboot.FixedText
import AdbFastboot.Outcome

namespace AdbFastboot

def bootMagic : Bytes := [0x41, 0x4E, 0x44, 0x52, 0x4F, 0x49, 0x44, 0x21]

def bootNameSize : Nat := 16
def bootArgsSize : Nat := 512
def bootExtraArgsSize : Nat := 1024
def bootIdSize : Nat := 32

def bootImageHeaderV0Size : Nat := 1632
def bootImageHeaderV1Size : Nat := 1648
def bootImageHeaderV2Size : Nat := 1664
def bootImageHeaderV3Size : Nat := 4096
def bootImageHeaderV4Size : Nat := 4096

inductive BootImageError where
  | bufferTooShort (expected got : Nat)
  | invalidMagic (got : String)
  | unsupportedVersion (version : UInt32)
  | invalidPageSize (pageSize : UInt32)
  | sectionBounds (name : String) (offset size len : Nat)
  | invalidSectionOffset (name : String) (offset minimum : Nat)
deriving DecidableEq, Repr

inductive BootImageVersion where
  | v0
  | v1
  | v2
  | v3
  | v4

def BootImageVersion.fromU32 (v : UInt32) : Except BootImageError BootImageVersion :=
  if v = 0 then .ok .v0
  else if v = 1 then .ok .v1
  else if v = 2 then .ok .v2
  else if v = 3 then .ok .v3
  else if v = 4 then .ok .v4
  else .error (.unsupportedVersion v)

def BootImageVersion.headerSize : BootImageVersion → Nat
  | .v0 => bootImageHeaderV0Size
  | .v1 => bootImageHeaderV1Size
  | .v2 => bootImageHeaderV2Size
  | .v3 => bootImageHeaderV4Size
  | .v4 => bootImageHeaderV4Size

def nativeHeaderSize (version : UInt32) : Nat :=
  match BootImageVersion.fromU32 version with
  | .ok v => v.headerSize
  | .error _ => 0

structure BootImageHeader where
  headerVersion : UInt32
  kernelSize : UInt32
  kernelAddr : UInt32
  ramdiskSize : UInt32
  ramdiskAddr : UInt32
  osVersion : UInt32
  secondSize : UInt32
  secondAddr : UInt32
  tagsAddr : UInt32
  pageSize : UInt32
  name : String
  cmdline : String
  id : Vector UInt8 bootIdSize
  extraCmdline : String
  recoveryDtboSize : UInt32
  recoveryDtboOffset : UInt64
  bootHeaderSize : UInt32
  dtbSize : UInt32
  dtbAddr : UInt64
deriving DecidableEq, Repr

def BootImageHeader.newV0 : BootImageHeader where
  headerVersion := 0
  kernelSize := 0
  kernelAddr := 0x00008000
  ramdiskSize := 0
  ramdiskAddr := 0x01000000
  osVersion := 0
  secondSize := 0
  secondAddr := 0x00F00000
  tagsAddr := 0x00000100
  pageSize := 2048
  name := ""
  cmdline := ""
  id := Vector.replicate bootIdSize 0
  extraCmdline := ""
  recoveryDtboSize := 0
  recoveryDtboOffset := 0
  bootHeaderSize := 0
  dtbSize := 0
  dtbAddr := 0

def BootImageHeader.newV3 : BootImageHeader where
  headerVersion := 3
  kernelSize := 0
  kernelAddr := 0
  ramdiskSize := 0
  ramdiskAddr := 0
  osVersion := 0
  secondSize := 0
  secondAddr := 0
  tagsAddr := 0
  pageSize := 4096
  name := ""
  cmdline := ""
  id := Vector.replicate bootIdSize 0
  extraCmdline := ""
  recoveryDtboSize := 0
  recoveryDtboOffset := 0
  bootHeaderSize := 4096
  dtbSize := 0
  dtbAddr := 0

def padZeros (buf : Bytes) (n : Nat) : Bytes :=
  buf ++ List.replicate (n - buf.length) 0

def BootImageHeader.fieldsV0 (h : BootImageHeader) : Bytes :=
  u32Le h.kernelSize ++ (u32Le h.kernelAddr ++ (u32Le h.ramdiskSize ++ (u32Le h.ramdiskAddr ++
    (u32Le h.secondSize ++ (u32Le h.secondAddr ++ (u32Le h.tagsAddr ++ (u32Le h.pageSize ++
      (u32Le h.headerVersion ++ (u32Le h.osVersion ++ (fixedBytes h.name bootNameSize ++
        (fixedBytes h.cmdline bootArgsSize ++ (h.id.toList ++
          fixedBytes h.extraCmdline bootExtraArgsSize))))))))))))

def BootImageHeader.fieldsV1 (h : BootImageHeader) : Bytes :=
  u32Le h.recoveryDtboSize ++ (u64Le h.recoveryDtboOffset ++ u32Le h.bootHeaderSize)

def BootImageHeader.fieldsV2 (h : BootImageHeader) : Bytes :=
  u32Le h.dtbSize ++ u64Le h.dtbAddr

def BootImageHeader.encodeV0V1V2 (h : BootImageHeader) (buf : Bytes) : Bytes :=
  padZeros (buf ++ (h.fieldsV0 ++ ((if 1 ≤ h.headerVersion then h.fieldsV1 else []) ++
    (if 2 ≤ h.headerVersion then h.fieldsV2 else [])))) (nativeHeaderSize h.headerVersion)

def BootImageHeader.encodeV3V4 (h : BootImageHeader) (buf : Bytes) : Bytes :=
  padZeros (buf ++ (u32Le h.headerVersion ++ (u32Le h.kernelSize ++ (u32Le h.ramdiskSize ++
    (u32Le h.osVersion ++ (u32Le 4096 ++ (u32Le 0 ++ (u32Le 0 ++ (u32Le 0 ++ u32Le 0)))))))))
    bootImageHeaderV3Size

def BootImageHeader.encode (h : BootImageHeader) : Bytes :=
  if h.headerVersion ≤ 2 then h.encodeV0V1V2 bootMagic
  else if h.headerVersion = 3 ∨ h.headerVersion = 4 then h.encodeV3V4 bootMagic
  else bootMagic

def readFixedString (data : Bytes) (off len : Nat) : Outcome BootImageError String := do
  let bs ← sliceAt data off (off + len)
  pure (fixedString bs)

def idOfBytes (bs : Bytes) : Vector UInt8 bootIdSize := Vector.ofFn fun i => bs.getD i 0

def unwrapHeaderSize (version : UInt32) : Outcome BootImageError Nat :=
  match BootImageVersion.fromU32 version with
  | .ok v => .ok v.headerSize
  | .error _ => panicked

def readFieldsV1 (data : Bytes) (version : UInt32) :
    Outcome BootImageError (UInt32 × UInt64 × UInt32) :=
  if 1 ≤ version then do
    let recoveryDtboSize ← readU32 data bootImageHeaderV0Size
    let recoveryDtboOffset ← readU64 data (bootImageHeaderV0Size + 4)
    let bootHeaderSize ← readU32 data (bootImageHeaderV0Size + 12)
    pure (recoveryDtboSize, recoveryDtboOffset, bootHeaderSize)
  else pure (0, 0, 0)

def readFieldsV2 (data : Bytes) (version : UInt32) : Outcome BootImageError (UInt32 × UInt64) :=
  if 2 ≤ version then do
    let dtbSize ← readU32 data bootImageHeaderV1Size
    let dtbAddr ← readU64 data (bootImageHeaderV1Size + 4)
    pure (dtbSize, dtbAddr)
  else pure (0, 0)

def BootImageHeader.decodeV0V1V2 (data : Bytes) (version : UInt32) :
    Outcome BootImageError BootImageHeader := do
  let hdrSz ← unwrapHeaderSize version
  if data.length < hdrSz then fail (.bufferTooShort hdrSz data.length) else
  let kernelSize ← readU32 data 8
  let kernelAddr ← readU32 data 12
  let ramdiskSize ← readU32 data 16
  let ramdiskAddr ← readU32 data 20
  let secondSize ← readU32 data 24
  let secondAddr ← readU32 data 28
  let tagsAddr ← readU32 data 32
  let pageSize ← readU32 data 36
  let headerVersion ← readU32 data 40
  let osVersion ← readU32 data 44
  let name ← readFixedString data 48 bootNameSize
  let cmdline ← readFixedString data 64 bootArgsSize
  let id ← sliceAt data 576 (576 + bootIdSize)
  let extraCmdline ← readFixedString data 608 bootExtraArgsSize
  let (recoveryDtboSize, recoveryDtboOffset, bootHeaderSize) ← readFieldsV1 data version
  let (dtbSize, dtbAddr) ← readFieldsV2 data version
  pure { headerVersion, kernelSize, kernelAddr, ramdiskSize, ramdiskAddr, osVersion, secondSize,
         secondAddr, tagsAddr, pageSize, name, cmdline, id := idOfBytes id, extraCmdline,
         recoveryDtboSize, recoveryDtboOffset, bootHeaderSize, dtbSize, dtbAddr }

def BootImageHeader.decodeV3V4 (data : Bytes) (version : UInt32) :
    Outcome BootImageError BootImageHeader := do
  if data.length < bootImageHeaderV3Size then
    fail (.bufferTooShort bootImageHeaderV3Size data.length)
  else
  let kernelSize ← readU32 data 12
  let ramdiskSize ← readU32 data 16
  let osVersion ← readU32 data 20
  pure { BootImageHeader.newV3 with headerVersion := version, kernelSize, ramdiskSize, osVersion }

def BootImageHeader.decode (data : Bytes) : Outcome BootImageError BootImageHeader := do
  if data.length < bootMagic.length then
    fail (.bufferTooShort bootMagic.length data.length)
  else
  let magic ← sliceAt data 0 8
  if magic ≠ bootMagic then
    fail (.invalidMagic (String.ofList (magic.map fun b => Char.ofNat b.toNat)))
  else if data.length < 12 then fail (.bufferTooShort 12 data.length)
  else
  let verAt8 ← readU32 data 8
  if verAt8 = 3 ∨ verAt8 = 4 then BootImageHeader.decodeV3V4 data verAt8
  else
  let verAt40 ← readU32 data 40
  if verAt40 ≤ 2 then BootImageHeader.decodeV0V1V2 data verAt40
  else fail (.unsupportedVersion verAt40)

def oldHeaderAt (data : Bytes) (version : UInt32) : BootImageHeader where
  headerVersion := u32At data 40
  kernelSize := u32At data 8
  kernelAddr := u32At data 12
  ramdiskSize := u32At data 16
  ramdiskAddr := u32At data 20
  osVersion := u32At data 44
  secondSize := u32At data 24
  secondAddr := u32At data 28
  tagsAddr := u32At data 32
  pageSize := u32At data 36
  name := fixedString (slice data 48 64)
  cmdline := fixedString (slice data 64 576)
  id := idOfBytes (slice data 576 608)
  extraCmdline := fixedString (slice data 608 1632)
  recoveryDtboSize := if 1 ≤ version then u32At data 1632 else 0
  recoveryDtboOffset := if 1 ≤ version then u64At data 1636 else 0
  bootHeaderSize := if 1 ≤ version then u32At data 1644 else 0
  dtbSize := if 2 ≤ version then u32At data 1648 else 0
  dtbAddr := if 2 ≤ version then u64At data 1652 else 0

def newHeaderAt (data : Bytes) (version : UInt32) : BootImageHeader :=
  { BootImageHeader.newV3 with
    headerVersion := version
    kernelSize := u32At data 12
    ramdiskSize := u32At data 16
    osVersion := u32At data 20 }

end AdbFastboot
