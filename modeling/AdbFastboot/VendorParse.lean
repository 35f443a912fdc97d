import AdbFastboot.VendorBoot

namespace AdbFastboot

theorem checkedAdd_ok {a b : Nat} (h : a + b < 2 ^ 64) : checkedAdd a b = .ok (a + b) := by
  rw [checkedAdd, if_pos h]

theorem alignChecked_ok {page n : Nat} (hp : 0 < page) (h : n + page < 2 ^ 64) :
    alignChecked page n = .ok (roundUp n page) := by
  have hs : n + (page - 1) = n + page - 1 := by omega
  rw [alignChecked, subUsize_ok hp, ok_bind, checkedAdd_ok (by omega), ok_bind, if_neg (by omega), hs]
  rfl

def VendorBootHeader.layout (h : VendorBootHeader) : VendorBootSectionOffsets :=
  let page := h.pageSize.toNat
  let ramdisk := roundUp h.headerSize.toNat page
  let dtb := ramdisk + roundUp h.vendorRamdiskSize.toNat page
  let table := dtb + roundUp h.dtbSize.toNat page
  let bootconfig := table + roundUp h.vendorRamdiskTableSize.toNat page
  let stop := bootconfig + roundUp h.bootconfigSize.toNat page
  { header := ramdisk, ramdisk, dtb, table, bootconfig, stop }

section

variable {header : VendorBootHeader}

/-- The sections lie one behind the other on page boundaries, below `2 ^ 36`. -/
structure VendorBootSectionOffsets.Paged (o : VendorBootSectionOffsets) (h : VendorBootHeader) :
    Prop where
  ramdisk_dvd : h.pageSize.toNat ∣ o.ramdisk
  dtb_dvd : h.pageSize.toNat ∣ o.dtb
  bootconfig_dvd : h.pageSize.toNat ∣ o.bootconfig
  ramdisk_le : o.ramdisk + h.vendorRamdiskSize.toNat ≤ o.dtb
  dtb_le : o.dtb + h.dtbSize.toNat ≤ o.table
  table_le : o.table + h.vendorRamdiskTableSize.toNat ≤ o.bootconfig
  bootconfig_le : o.bootconfig + h.bootconfigSize.toNat ≤ o.stop
  stop_lt : o.stop < 2 ^ 36

/-- The sections follow each other, within 2 ^ 36 bytes. -/
theorem VendorBootSectionOffsets.Paged.chain {o : VendorBootSectionOffsets}
    (h : o.Paged header) : o.ramdisk ≤ o.dtb ∧ o.dtb ≤ o.table ∧ o.table ≤ o.bootconfig ∧
      o.bootconfig ≤ o.stop ∧ o.stop < 2 ^ 36 :=
  ⟨Nat.le_of_add_right_le h.ramdisk_le, Nat.le_of_add_right_le h.dtb_le,
    Nat.le_of_add_right_le h.table_le, Nat.le_of_add_right_le h.bootconfig_le, h.stop_lt⟩

theorem VendorBootHeader.layout_paged (hp : header.pageSize ≠ 0) : header.layout.Paged header := by
  have hpos := u32_toNat_pos hp
  have hpg := header.pageSize.toNat_lt
  have hh := roundUp_bounds hpos header.headerSize.toNat
  have hr := roundUp_bounds hpos header.vendorRamdiskSize.toNat
  have hd := roundUp_bounds hpos header.dtbSize.toNat
  have ht := roundUp_bounds hpos header.vendorRamdiskTableSize.toNat
  have hb := roundUp_bounds hpos header.bootconfigSize.toNat
  have := header.headerSize.toNat_lt
  have := header.vendorRamdiskSize.toNat_lt
  have := header.dtbSize.toNat_lt
  have := header.vendorRamdiskTableSize.toNat_lt
  have := header.bootconfigSize.toNat_lt
  have hdvd (n : Nat) := dvd_roundUp n header.pageSize.toNat
  have hdtb := Nat.dvd_add (hdvd header.headerSize.toNat) (hdvd header.vendorRamdiskSize.toNat)
  have htb := Nat.dvd_add hdtb (hdvd header.dtbSize.toNat)
  refine ⟨hdvd _, hdtb, Nat.dvd_add htb (hdvd _), ?_, ?_, ?_, ?_, ?_⟩ <;>
    simp only [VendorBootHeader.layout] <;> omega

/-- The offsets of the sections are computed without overflow. -/
theorem sectionOffsetsFor_eq (hp : header.pageSize ≠ 0) : sectionOffsetsFor header = .ok header.layout := by
  have hpos := u32_toNat_pos hp
  have hpa := header.pageSize.toNat_lt
  have hpg := VendorBootHeader.layout_paged hp
  have hlt := hpg.stop_lt
  simp only [VendorBootHeader.layout] at hlt
  have ha (x : UInt32) : alignChecked header.pageSize.toNat x.toNat
      = .ok (roundUp x.toNat header.pageSize.toNat) := by
    have := x.toNat_lt
    exact alignChecked_ok hpos (by omega)
  rw [sectionOffsetsFor]
  simp only [ha, ok_bind]
  simp (disch := omega) only [checkedAdd_ok, ok_bind]
  rfl

end

variable {data : Bytes} {offset : Nat}

theorem ensureSection_eq (name : String) {size : Nat} (h : offset + size < 2 ^ 64) :
    ensureSection data name offset size
      = if data.length < offset + size then fail (.sectionBounds name offset size data.length)
        else .ok () := by
  rw [ensureSection, checkedAdd_ok h, ok_bind]
  rfl

theorem ensureBetween_eq (name : String) {next : Nat} (hle : offset ≤ next) (hlt : next < 2 ^ 64) :
    ensureBetween data name offset next
      = if data.length < next then fail (.sectionBounds name offset (next - offset) data.length)
        else .ok () := by
  have hs : offset + (next - offset) = next := by omega
  rw [ensureBetween, subUsize_ok hle, ok_bind, ensureSection_eq name (by omega), hs]

def vendorHeaderAt (data : Bytes) (version : VendorBootVersion) : VendorBootHeader where
  version
  pageSize := u32At data 12
  kernelAddr := u32At data 16
  ramdiskAddr := u32At data 20
  vendorRamdiskSize := u32At data 24
  cmdline := fixedString (slice data 28 2076)
  tagsAddr := u32At data 2076
  name := fixedString (slice data 2080 2096)
  headerSize := u32At data 2096
  dtbSize := u32At data 2100
  dtbAddr := u64At data 2104
  vendorRamdiskTableSize := if version = .v4 then u32At data 2112 else 0
  vendorRamdiskTableEntryNum := if version = .v4 then u32At data 2116 else 0
  vendorRamdiskTableEntrySize := if version = .v4 then u32At data 2120 else 0
  bootconfigSize := if version = .v4 then u32At data 2124 else 0

structure VendorStart (data : Bytes) (version : VendorBootVersion) : Prop where
  length : version.headerLen ≤ data.length
  magic : slice data 0 8 = vendorBootMagic
  number : u32At data 8 = version.number
  pageSize : u32At data 12 ≠ 0
  headerSize : u32At data 2096 = UInt32.ofNat version.headerLen

section

variable {data : Bytes} {version : VendorBootVersion}

theorem headerLen_ge (version : VendorBootVersion) : vendorBootHeaderV3Size ≤ version.headerLen := by
  cases version <;> decide

theorem readV4_eq {off : Nat} (hl : version.headerLen ≤ data.length) (ho : off + 4 ≤ 2128) :
    readV4 data version off = .ok (if version = .v4 then u32At data off else 0) := by
  cases version with
  | v3 => rfl
  | v4 => exact readU32_ok (Nat.le_trans ho hl)

/-- A header that is there is parsed. -/
theorem parseVendorHeader_eq (hl : version.headerLen ≤ data.length) :
    parseVendorHeader data version (u32At data 12) (u32At data 2096)
      = .ok (vendorHeaderAt data version) := by
  have h3 : 2112 ≤ data.length := Nat.le_trans (headerLen_ge version) hl
  rw [parseVendorHeader]
  simp (disch := omega) only [readU32_ok, sliceAt_ok, readU64_ok, readV4_eq hl, ok_bind]
  rfl

theorem versionOf_cases (raw : UInt32) : versionOf raw = fail (.unsupportedVersion raw) ∨
      ∃ version : VendorBootVersion, versionOf raw = .ok version ∧ raw = version.number := by
  unfold versionOf
  split
  next h => exact .inr ⟨.v3, rfl, h⟩
  split
  next h => exact .inr ⟨.v4, rfl, h⟩
  next => exact .inl rfl

theorem versionOf_number (version : VendorBootVersion) : versionOf version.number = .ok version := by
  cases version <;> rfl

theorem VendorBootImage.parse_of_start (h : VendorStart data version) :
    VendorBootImage.parse data = parseVendorSections data (vendorHeaderAt data version) := by
  have hl := h.length
  have h3 := Nat.le_trans (headerLen_ge version) hl
  have h2112 : 2112 ≤ data.length := h3
  rw [VendorBootImage.parse, if_neg (by omega), sliceAt_ok (by omega) (by omega), ok_bind,
    if_neg (not_not.mpr h.magic), readU32_ok (by omega), ok_bind, h.number, versionOf_number,
    ok_bind, if_neg (by omega), readU32_ok (by omega), ok_bind, if_neg h.pageSize,
    readU32_ok (by omega), ok_bind, if_neg (not_not.mpr h.headerSize), parseVendorHeader_eq hl,
    ok_bind]

/-- Data is refused, or starts with a header of a known version. -/
theorem VendorBootImage.parse_cases (data : Bytes) :
    (∃ e, VendorBootImage.parse data = fail e) ∨ ∃ version, VendorStart data version := by
  by_cases h3 : data.length < vendorBootHeaderV3Size
  · exact .inl ⟨_, by rw [VendorBootImage.parse, if_pos h3]⟩
  have h2112 : 2112 ≤ data.length := Nat.not_lt.mp h3
  by_cases hm : slice data 0 8 = vendorBootMagic
  case neg =>
    refine .inl ⟨.invalidMagic, ?_⟩
    rw [VendorBootImage.parse, if_neg h3, sliceAt_ok (by omega) (by omega), ok_bind, if_pos hm]
  rw [VendorBootImage.parse, if_neg h3, sliceAt_ok (by omega) (by omega), ok_bind,
    if_neg (not_not.mpr hm), readU32_ok (by omega), ok_bind]
  rcases versionOf_cases (u32At data 8) with hv | ⟨version, hv, hn⟩
  · exact .inl ⟨_, by rw [hv, fail_bind]⟩
  rw [hv, ok_bind]
  by_cases hl : data.length < version.headerLen
  · exact .inl ⟨_, if_pos hl⟩
  rw [if_neg hl, readU32_ok (by omega), ok_bind]
  by_cases hp : u32At data 12 = 0
  · exact .inl ⟨_, if_pos hp⟩
  rw [if_neg hp, readU32_ok (by omega), ok_bind]
  by_cases hs : u32At data 2096 = UInt32.ofNat version.headerLen
  · exact .inr ⟨version, Nat.not_lt.mp hl, hm, hn, hp, hs⟩
  · exact .inl ⟨_, if_pos hs⟩

end

theorem readBoardId_ok {is : List Nat} (h : ∀ i ∈ is, 44 + i * 4 + 4 ≤ data.length) :
    readBoardId data is = .ok (is.map fun i => u32At data (44 + i * 4)) := by
  induction is with
  | nil => rfl
  | cons i is ih =>
    rw [readBoardId, readU32_ok (h i List.mem_cons_self), ok_bind,
      ih fun j hj => h j (List.mem_cons_of_mem i hj), ok_bind]
    rfl

def entryAt (raw : Bytes) (ramdiskName : String) : VendorRamdiskTableEntry where
  ramdiskSize := u32At raw 0
  ramdiskOffset := u32At raw 4
  ramdiskType := u32At raw 8
  ramdiskName
  boardId := boardIdOfWords
    ((List.range vendorRamdiskBoardIdSize).map fun i => u32At raw (44 + i * 4))

/-- An entry is refused only for its name. -/
theorem parseEntry_eq {raw : Bytes} (hl : raw.length = vendorRamdiskTableEntrySize) (index : Nat) :
    parseEntry raw index = match fromUtf8 (untilNul (slice raw 12 44)) with
      | none => fail (.invalidRamdiskName index)
      | some name => .ok (entryAt raw name) := by
  have h108 : raw.length = 108 := hl
  have hb : ∀ i ∈ List.range vendorRamdiskBoardIdSize, 44 + i * 4 + 4 ≤ raw.length := by
    intro i hi
    have hi16 : i < 16 := List.mem_range.mp hi
    omega
  rw [parseEntry, sliceAt_ok (by omega) (by omega), ok_bind]
  cases fromUtf8 (untilNul (slice raw 12 44)) with
  | none => rfl
  | some name =>
    simp (disch := omega) only [readBoardId_ok hb, readU32_ok, ok_bind]
    rfl

section

variable {data : Bytes} {header : VendorBootHeader}

theorem parseEntries_succ {table left index : Nat} {entries : List VendorRamdiskTableEntry}
    (hr : table + (index + 1) * vendorRamdiskTableEntrySize ≤ data.length)
    (hlt : table + (index + 1) * vendorRamdiskTableEntrySize < 2 ^ 64) :
    parseEntries data header table (left + 1) index entries = (do
      let entry ← parseEntry (slice data (table + index * vendorRamdiskTableEntrySize)
        (table + (index + 1) * vendorRamdiskTableEntrySize)) index
      checkEntry header index entries entry
      parseEntries data header table left (index + 1) (entries ++ [entry])) := by
  have hs : table + index * vendorRamdiskTableEntrySize + vendorRamdiskTableEntrySize
      = table + (index + 1) * vendorRamdiskTableEntrySize := by
    rw [Nat.succ_mul, Nat.add_assoc]
  rw [parseEntries]
  simp (disch := omega) only [mulUsize_ok, addUsize_ok, sliceAt_ok, ok_bind, hs]

def checkSections (data : Bytes) (header : VendorBootHeader) : Outcome VendorBootError Unit := do
  ensureSection data "header" 0 header.layout.ramdisk
  ensureBetween data "vendor ramdisk" header.layout.ramdisk header.layout.dtb
  ensureBetween data "dtb" header.layout.dtb header.layout.table
  checkTable data header header.layout

/-- Sections that pass their checks make an image. -/
theorem parseVendorSections_eq (hp : header.pageSize ≠ 0) : parseVendorSections data header = (do
      checkSections data header
      let entries ← parseEntries data header header.layout.table
        (if header.version = .v4 then header.vendorRamdiskTableEntryNum.toNat else 0) 0 []
      pure { header, data, entries, offsets := header.layout }) := by
  rw [parseVendorSections, sectionOffsetsFor_eq hp, ok_bind, checkSections]
  simp [bind_assoc]

end

theorem VendorBootImage.sectionAt_ok {image : VendorBootImage} {size : UInt32}
    (hle : offset + size.toNat ≤ image.data.length) (hlt : offset + size.toNat < 2 ^ 64) :
    image.sectionAt offset size = .ok (slice image.data offset (offset + size.toNat)) := by
  rw [VendorBootImage.sectionAt, addUsize_ok hlt, ok_bind, sliceAt_ok (Nat.le_add_right _ _) hle]

end AdbFastboot
