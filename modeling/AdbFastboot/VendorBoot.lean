import AdbFastboot.FieldWrites
import AdbFastboot.FixedText
import AdbFastboot.PageLayout

namespace AdbFastboot

def vendorBootMagic : Bytes := [0x56, 0x4E, 0x44, 0x52, 0x42, 0x4F, 0x4F, 0x54]

def vendorBootPageSize : Nat := 4096
def vendorBootNameSize : Nat := 16
def vendorBootCmdlineSize : Nat := 2048
def vendorRamdiskNameSize : Nat := 32
def vendorRamdiskBoardIdSize : Nat := 16
def vendorRamdiskTableEntrySize : Nat :=
  4 + 4 + 4 + vendorRamdiskNameSize + 4 * vendorRamdiskBoardIdSize
def vendorBootHeaderV3Size : Nat := 2112
def vendorBootHeaderV4Size : Nat := 2128

inductive VendorBootVersion where
  | v3
  | v4
deriving DecidableEq, Repr

def VendorBootVersion.number : VendorBootVersion → UInt32
  | .v3 => 3
  | .v4 => 4

def VendorBootVersion.headerLen : VendorBootVersion → Nat
  | .v3 => vendorBootHeaderV3Size
  | .v4 => vendorBootHeaderV4Size

inductive VendorBootError where
  | bufferTooShort (expected got : Nat)
  | invalidMagic
  | unsupportedVersion (version : UInt32)
  | invalidPageSize (pageSize : UInt32)
  | invalidHeaderSize (actual expected : UInt32)
  | unsupportedTableEntrySize (size : UInt32)
  | invalidTableSize (size : UInt32) (entries : Nat)
  | sectionBounds (name : String) (offset size image : Nat)
  | ramdiskEntryOutOfBounds (index : Nat) (offset size ramdisk : UInt32)
  | duplicateRamdiskName (name : String)
  | invalidRamdiskName (index : Nat)
  | arithmeticOverflow
deriving DecidableEq, Repr

structure VendorBootHeader where
  version : VendorBootVersion
  pageSize : UInt32
  kernelAddr : UInt32
  ramdiskAddr : UInt32
  vendorRamdiskSize : UInt32
  cmdline : String
  tagsAddr : UInt32
  name : String
  headerSize : UInt32
  dtbSize : UInt32
  dtbAddr : UInt64
  vendorRamdiskTableSize : UInt32
  vendorRamdiskTableEntryNum : UInt32
  vendorRamdiskTableEntrySize : UInt32
  bootconfigSize : UInt32
deriving DecidableEq, Repr

structure VendorRamdiskTableEntry where
  ramdiskSize : UInt32
  ramdiskOffset : UInt32
  ramdiskType : UInt32
  ramdiskName : String
  boardId : Vector UInt32 vendorRamdiskBoardIdSize
deriving DecidableEq, Repr

structure VendorBootSectionOffsets where
  header : Nat
  ramdisk : Nat
  dtb : Nat
  table : Nat
  bootconfig : Nat
  stop : Nat
deriving DecidableEq, Repr

structure VendorBootImage where
  header : VendorBootHeader
  data : Bytes
  entries : List VendorRamdiskTableEntry
  offsets : VendorBootSectionOffsets
deriving DecidableEq, Repr

def checkedAdd (a b : Nat) : Outcome VendorBootError Nat :=
  if a + b < 2 ^ 64 then .ok (a + b) else fail .arithmeticOverflow

def alignChecked (page n : Nat) : Outcome VendorBootError Nat := do
  let last ← subUsize page 1
  let v ← checkedAdd n last
  if page = 0 then panicked else pure (v / page * page)

def sectionOffsetsFor (h : VendorBootHeader) :
    Outcome VendorBootError VendorBootSectionOffsets := do
  let page := h.pageSize.toNat
  let header ← alignChecked page h.headerSize.toNat
  let ramdisk := header
  let size ← alignChecked page h.vendorRamdiskSize.toNat
  let dtb ← checkedAdd ramdisk size
  let size ← alignChecked page h.dtbSize.toNat
  let table ← checkedAdd dtb size
  let size ← alignChecked page h.vendorRamdiskTableSize.toNat
  let bootconfig ← checkedAdd table size
  let size ← alignChecked page h.bootconfigSize.toNat
  let stop ← checkedAdd bootconfig size
  pure { header, ramdisk, dtb, table, bootconfig, stop }

def ensureSection (data : Bytes) (name : String) (offset size : Nat) :
    Outcome VendorBootError Unit := do
  let stop ← checkedAdd offset size
  if data.length < stop then fail (.sectionBounds name offset size data.length) else pure ()

/-- `ensure_section` for a section that ends where the next one starts. -/
def ensureBetween (data : Bytes) (name : String) (offset next : Nat) :
    Outcome VendorBootError Unit := do
  let size ← subUsize next offset
  ensureSection data name offset size

def readBoardId (data : Bytes) : List Nat → Outcome VendorBootError (List UInt32)
  | [] => pure []
  | i :: is => do
    let word ← readU32 data (44 + i * 4)
    let words ← readBoardId data is
    pure (word :: words)

def boardIdOfWords (words : List UInt32) : Vector UInt32 vendorRamdiskBoardIdSize :=
  Vector.ofFn fun i => words.getD i 0

def parseEntry (data : Bytes) (index : Nat) : Outcome VendorBootError VendorRamdiskTableEntry := do
  let nameBytes ← sliceAt data 12 44
  match fromUtf8 (untilNul nameBytes) with
  | none => fail (.invalidRamdiskName index)
  | some ramdiskName => do
    let words ← readBoardId data (List.range vendorRamdiskBoardIdSize)
    let ramdiskSize ← readU32 data 0
    let ramdiskOffset ← readU32 data 4
    let ramdiskType ← readU32 data 8
    pure { ramdiskSize, ramdiskOffset, ramdiskType, ramdiskName, boardId := boardIdOfWords words }

def checkEntry (header : VendorBootHeader) (index : Nat) (entries : List VendorRamdiskTableEntry)
    (entry : VendorRamdiskTableEntry) : Outcome VendorBootError Unit :=
  if 2 ^ 32 ≤ entry.ramdiskOffset.toNat + entry.ramdiskSize.toNat then fail .arithmeticOverflow
  else if header.vendorRamdiskSize.toNat
      < entry.ramdiskOffset.toNat + entry.ramdiskSize.toNat then
    fail (.ramdiskEntryOutOfBounds index entry.ramdiskOffset entry.ramdiskSize
      header.vendorRamdiskSize)
  else if entries.any fun old => old.ramdiskName == entry.ramdiskName then
    fail (.duplicateRamdiskName entry.ramdiskName)
  else pure ()

def parseEntries (data : Bytes) (header : VendorBootHeader) (table : Nat) :
    Nat → Nat → List VendorRamdiskTableEntry →
      Outcome VendorBootError (List VendorRamdiskTableEntry)
  | 0, _, entries => pure entries
  | left + 1, index, entries => do
    let skip ← mulUsize index vendorRamdiskTableEntrySize
    let start ← addUsize table skip
    let stop ← addUsize start vendorRamdiskTableEntrySize
    let raw ← sliceAt data start stop
    let entry ← parseEntry raw index
    checkEntry header index entries entry
    parseEntries data header table left (index + 1) (entries ++ [entry])

def readV4 (data : Bytes) (version : VendorBootVersion) (off : Nat) :
    Outcome VendorBootError UInt32 :=
  if version = .v4 then readU32 data off else pure 0

def parseVendorHeader (data : Bytes) (version : VendorBootVersion)
    (pageSize headerSize : UInt32) : Outcome VendorBootError VendorBootHeader := do
  let kernelAddr ← readU32 data 16
  let ramdiskAddr ← readU32 data 20
  let vendorRamdiskSize ← readU32 data 24
  let cmdline ← sliceAt data 28 2076
  let tagsAddr ← readU32 data 2076
  let name ← sliceAt data 2080 2096
  let dtbSize ← readU32 data 2100
  let dtbAddr ← readU64 data 2104
  let vendorRamdiskTableSize ← readV4 data version 2112
  let vendorRamdiskTableEntryNum ← readV4 data version 2116
  let vendorRamdiskTableEntrySize ← readV4 data version 2120
  let bootconfigSize ← readV4 data version 2124
  pure { version, pageSize, kernelAddr, ramdiskAddr, vendorRamdiskSize,
         cmdline := fixedString cmdline, tagsAddr, name := fixedString name, headerSize, dtbSize,
         dtbAddr, vendorRamdiskTableSize, vendorRamdiskTableEntryNum, vendorRamdiskTableEntrySize,
         bootconfigSize }

def checkTable (data : Bytes) (header : VendorBootHeader)
    (offsets : VendorBootSectionOffsets) : Outcome VendorBootError Unit :=
  if header.version = .v4 then do
    ensureBetween data "vendor ramdisk table" offsets.table offsets.bootconfig
    ensureBetween data "bootconfig" offsets.bootconfig offsets.stop
    if header.vendorRamdiskTableEntrySize ≠ UInt32.ofNat vendorRamdiskTableEntrySize then
      fail (.unsupportedTableEntrySize header.vendorRamdiskTableEntrySize)
    else
    let expected := header.vendorRamdiskTableEntryNum.toNat
      * header.vendorRamdiskTableEntrySize.toNat
    if 2 ^ 64 ≤ expected then fail .arithmeticOverflow
    else if expected ≠ header.vendorRamdiskTableSize.toNat then
      fail (.invalidTableSize header.vendorRamdiskTableSize expected)
    else pure ()
  else pure ()

def parseVendorSections (data : Bytes) (header : VendorBootHeader) :
    Outcome VendorBootError VendorBootImage := do
  let offsets ← sectionOffsetsFor header
  ensureSection data "header" 0 offsets.ramdisk
  ensureBetween data "vendor ramdisk" offsets.ramdisk offsets.dtb
  ensureBetween data "dtb" offsets.dtb offsets.table
  checkTable data header offsets
  let entries ← parseEntries data header offsets.table
    (if header.version = .v4 then header.vendorRamdiskTableEntryNum.toNat else 0) 0 []
  pure { header, data, entries, offsets }

def versionOf (raw : UInt32) : Outcome VendorBootError VendorBootVersion :=
  if raw = 3 then pure .v3 else if raw = 4 then pure .v4 else fail (.unsupportedVersion raw)

def VendorBootImage.parse (data : Bytes) : Outcome VendorBootError VendorBootImage := do
  if data.length < vendorBootHeaderV3Size then
    fail (.bufferTooShort vendorBootHeaderV3Size data.length)
  else
  let magic ← sliceAt data 0 8
  if magic ≠ vendorBootMagic then fail .invalidMagic else
  let rawVersion ← readU32 data 8
  let version ← versionOf rawVersion
  if data.length < version.headerLen then fail (.bufferTooShort version.headerLen data.length) else
  let pageSize ← readU32 data 12
  if pageSize = 0 then fail (.invalidPageSize pageSize) else
  let headerSize ← readU32 data 2096
  if headerSize ≠ UInt32.ofNat version.headerLen then
    fail (.invalidHeaderSize headerSize (UInt32.ofNat version.headerLen))
  else
  let header ← parseVendorHeader data version pageSize headerSize
  parseVendorSections data header

def VendorBootImage.sectionAt (image : VendorBootImage) (offset : Nat) (size : UInt32) :
    Outcome VendorBootError Bytes := do
  let stop ← addUsize offset size.toNat
  sliceAt image.data offset stop

def VendorBootImage.ramdisk (image : VendorBootImage) : Outcome VendorBootError Bytes :=
  image.sectionAt image.offsets.ramdisk image.header.vendorRamdiskSize

def VendorBootImage.dtb (image : VendorBootImage) : Outcome VendorBootError Bytes :=
  image.sectionAt image.offsets.dtb image.header.dtbSize

def VendorBootImage.bootconfig (image : VendorBootImage) : Outcome VendorBootError Bytes :=
  image.sectionAt image.offsets.bootconfig image.header.bootconfigSize

structure VendorBootBuilder where
  version : VendorBootVersion
  pageSize : UInt32
  kernelAddr : UInt32
  ramdiskAddr : UInt32
  cmdline : String
  tagsAddr : UInt32
  name : String
  dtbAddr : UInt64
  ramdisk : Bytes
  dtb : Bytes
  bootconfig : Bytes
  tableEntries : List VendorRamdiskTableEntry

def VendorBootBuilder.new (version : VendorBootVersion) : VendorBootBuilder where
  version
  pageSize := UInt32.ofNat vendorBootPageSize
  kernelAddr := 0
  ramdiskAddr := 0
  cmdline := ""
  tagsAddr := 0
  name := ""
  dtbAddr := 0
  ramdisk := []
  dtb := []
  bootconfig := []
  tableEntries := []

def alignPage (page n : Nat) : Outcome VendorBootError Nat := do
  let sum ← addUsize n page
  let last ← subUsize sum 1
  if page = 0 then panicked else pure (last / page * page)

def VendorRamdiskTableEntry.writes (entry : VendorRamdiskTableEntry) : List (Nat × Bytes) :=
  [(0, u32Le entry.ramdiskSize), (4, u32Le entry.ramdiskOffset), (8, u32Le entry.ramdiskType),
    (12, (utf8Bytes entry.ramdiskName).take vendorRamdiskNameSize)] ++
  entry.boardId.toList.zipIdx.map fun (word, i) => (44 + i * 4, u32Le word)

def tableBytes : List VendorRamdiskTableEntry → Outcome VendorBootError Bytes
  | [] => pure []
  | entry :: entries => do
    let raw ← writeAll (List.replicate vendorRamdiskTableEntrySize 0) entry.writes
    let rest ← tableBytes entries
    pure (raw ++ rest)

def VendorBootBuilder.writes (b : VendorBootBuilder) (tableSize : Nat) : List (Nat × Bytes) :=
  [(0, vendorBootMagic), (8, u32Le b.version.number), (12, u32Le b.pageSize),
    (16, u32Le b.kernelAddr), (20, u32Le b.ramdiskAddr),
    (24, u32Le (UInt32.ofNat b.ramdisk.length)),
    (28, (utf8Bytes b.cmdline).take vendorBootCmdlineSize), (2076, u32Le b.tagsAddr),
    (2080, (utf8Bytes b.name).take vendorBootNameSize),
    (2096, u32Le (UInt32.ofNat b.version.headerLen)), (2100, u32Le (UInt32.ofNat b.dtb.length)),
    (2104, u64Le b.dtbAddr)] ++
  if b.version = .v4 then
    [(2112, u32Le (UInt32.ofNat tableSize)), (2116, u32Le (UInt32.ofNat b.tableEntries.length)),
      (2120, u32Le (UInt32.ofNat vendorRamdiskTableEntrySize)),
      (2124, u32Le (UInt32.ofNat b.bootconfig.length))]
  else []

def appendSection (page : Nat) (image bs : Bytes) : Outcome VendorBootError Bytes := do
  let n ← alignPage page (image ++ bs).length
  pure (resizeZero (image ++ bs) n)

def VendorBootBuilder.tableSize (b : VendorBootBuilder) : Outcome VendorBootError Nat :=
  if b.version = .v4 then mulUsize b.tableEntries.length vendorRamdiskTableEntrySize else pure 0

def VendorBootBuilder.appendTable (b : VendorBootBuilder) (image : Bytes) :
    Outcome VendorBootError Bytes :=
  if b.version = .v4 then do
    let table ← tableBytes b.tableEntries
    let image ← appendSection b.pageSize.toNat image table
    appendSection b.pageSize.toNat image b.bootconfig
  else pure image

def VendorBootBuilder.build (b : VendorBootBuilder) : Outcome VendorBootError Bytes := do
  if b.pageSize = 0 then fail (.invalidPageSize 0) else
  let tableSize ← b.tableSize
  let header ← writeAll (List.replicate b.version.headerLen 0) (b.writes tableSize)
  let n ← alignPage b.pageSize.toNat b.version.headerLen
  let image ← appendSection b.pageSize.toNat (resizeZero header n) b.ramdisk
  let image ← appendSection b.pageSize.toNat image b.dtb
  b.appendTable image

end AdbFastboot
