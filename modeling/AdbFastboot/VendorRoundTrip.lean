import AdbFastboot.VendorBuild
import AdbFastboot.VendorParse

namespace AdbFastboot

open List VendorBootBuilder VendorBootHeader VendorRamdiskTableEntry

section

variable {entry : VendorRamdiskTableEntry}

theorem VendorRamdiskTableEntry.board_mem {i : Nat} (hi : i < vendorRamdiskBoardIdSize) :
    (44 + i * 4, u32Le entry.boardId[i]) ∈ entry.writes := by
  refine mem_append_right _ (mem_map.mpr ⟨(entry.boardId[i], i), ?_, rfl⟩)
  rw [mem_zipIdx_iff_getElem?]
  simp [hi]

theorem VendorRamdiskTableEntry.entryAt_raw : entryAt entry.raw entry.ramdiskName = entry := by
  have hs : u32At entry.raw 0 = entry.ramdiskSize :=
    entry.raw_field (by simp [writes])
  have ho : u32At entry.raw 4 = entry.ramdiskOffset :=
    entry.raw_field (by simp [writes])
  have ht : u32At entry.raw 8 = entry.ramdiskType :=
    entry.raw_field (by simp [writes])
  have hb : boardIdOfWords ((range vendorRamdiskBoardIdSize).map fun i =>
      u32At entry.raw (44 + i * 4)) = entry.boardId := by
    apply Vector.ext
    intro i hi
    have hw := entry.raw_field (board_mem hi)
    simp [boardIdOfWords, hw]
  rw [entryAt, hs, ho, ht, hb]

/-- An entry is parsed from its bytes. -/
theorem VendorRamdiskTableEntry.parseEntry_raw (index : Nat)
    (h : FitsField entry.ramdiskName vendorRamdiskNameSize) :
    parseEntry entry.raw index = .ok entry := by
  rw [parseEntry_eq entry.raw_length, entry.raw_name, untilNul_fixedBytes h]
  simp [entryAt_raw]

end

/-- Entries that a table can hold and a parser accepts: inside the ramdisk, with distinct names. -/
structure ValidEntries (ramdisk : Nat) (entries : List VendorRamdiskTableEntry) : Prop where
  inside : ∀ entry ∈ entries, entry.ramdiskOffset.toNat + entry.ramdiskSize.toNat ≤ ramdisk
  names : ∀ entry ∈ entries, FitsField entry.ramdiskName vendorRamdiskNameSize
  distinct : (entries.map VendorRamdiskTableEntry.ramdiskName).Nodup

variable {entries : List VendorRamdiskTableEntry}

theorem checkEntry_ok {header : VendorBootHeader} {entry : VendorRamdiskTableEntry} (index : Nat)
    (hle : entry.ramdiskOffset.toNat + entry.ramdiskSize.toNat ≤ header.vendorRamdiskSize.toNat)
    (hn : ∀ old ∈ entries, old.ramdiskName ≠ entry.ramdiskName) :
    checkEntry header index entries entry = .ok () := by
  have hlt := header.vendorRamdiskSize.toNat_lt
  rw [checkEntry, if_neg (by omega), if_neg (by omega), if_neg]
  · rfl
  · simpa using hn

/-- The entries of a table are parsed one by one. -/
theorem parseEntries_raw {data rest : Bytes} {header : VendorBootHeader} {table index : Nat}
    {done : List VendorRamdiskTableEntry}
    (hdp : data.drop (table + index * vendorRamdiskTableEntrySize) = entries.flatMap raw ++ rest)
    (hr : table + (index + entries.length) * vendorRamdiskTableEntrySize ≤ data.length)
    (hlt : table + (index + entries.length) * vendorRamdiskTableEntrySize < 2 ^ 64)
    (hv : ValidEntries header.vendorRamdiskSize.toNat (done ++ entries)) :
    parseEntries data header table entries.length index done = .ok (done ++ entries) := by
  induction entries generalizing index done with
  | nil =>
    rw [append_nil]
    rfl
  | cons entry entries ih =>
    have hi : index + (entry :: entries).length = index + 1 + entries.length := by
      rw [length_cons]
      omega
    rw [hi] at hr hlt
    have hmul : (index + 1) * vendorRamdiskTableEntrySize
        ≤ (index + 1 + entries.length) * vendorRamdiskTableEntrySize :=
      Nat.mul_le_mul_right _ (Nat.le_add_right _ _)
    have hst : table + (index + 1) * vendorRamdiskTableEntrySize
        = table + index * vendorRamdiskTableEntrySize + entry.raw.length := by
      rw [entry.raw_length, Nat.succ_mul, Nat.add_assoc]
    rw [flatMap_cons, append_assoc] at hdp
    have hm : entry ∈ done ++ entry :: entries :=
      mem_append_right _ mem_cons_self
    have hs : done ++ entry :: entries = done ++ [entry] ++ entries := by simp
    have hn : ∀ old ∈ done, old.ramdiskName ≠ entry.ramdiskName := by
      have hd := hv.distinct
      rw [map_append, nodup_append] at hd
      intro old ho
      exact hd.2.2 _ (mem_map_of_mem ho) _ mem_cons_self
    rw [length_cons, parseEntries_succ (by omega) (by omega), slice_of_drop hdp hst,
      entry.parseEntry_raw index (hv.names entry hm), ok_bind,
      checkEntry_ok index (hv.inside entry hm) hn, hs]
    exact ih (drop_field hdp hst) hr hlt (hs ▸ hv)

section

variable {b : VendorBootBuilder}

def VendorBootBuilder.header (b : VendorBootBuilder) : VendorBootHeader where
  version := b.version
  pageSize := b.pageSize
  kernelAddr := b.kernelAddr
  ramdiskAddr := b.ramdiskAddr
  vendorRamdiskSize := UInt32.ofNat b.ramdisk.length
  cmdline := b.cmdline
  tagsAddr := b.tagsAddr
  name := b.name
  headerSize := UInt32.ofNat b.version.headerLen
  dtbSize := UInt32.ofNat b.dtb.length
  dtbAddr := b.dtbAddr
  vendorRamdiskTableSize := UInt32.ofNat b.table.length
  vendorRamdiskTableEntryNum := if b.version = .v4 then UInt32.ofNat b.tableEntries.length else 0
  vendorRamdiskTableEntrySize :=
    if b.version = .v4 then UInt32.ofNat vendorRamdiskTableEntrySize else 0
  bootconfigSize := UInt32.ofNat b.storedBootconfig.length

variable (more : Bytes)

theorem VendorBootBuilder.u32_field {off : Nat} {x : UInt32}
    (h : (off, u32Le x) ∈ b.writes b.table.length) : u32At (b.headerBytes ++ more) off = x := by
  obtain ⟨rest, hd⟩ := laidOut_field b.writes_ascending h more
  exact u32At_of_drop hd

theorem VendorBootBuilder.cmdline_slice :
    slice (b.headerBytes ++ more) 28 2076 = fixedBytes b.cmdline vendorBootCmdlineSize := by
  have hl := headerLen_ge b.version
  have h2112 : vendorBootHeaderV3Size = 2112 := rfl
  have ha := b.writes_ascending
  rw [slice_append_left (by rw [b.headerBytes_length]; omega)]
  exact laidOut_text [_, _, _, _, _, _] ha ⟨Nat.le_refl _, ha.2.2.2.2.2.2.2.2⟩

theorem VendorBootBuilder.name_slice :
    slice (b.headerBytes ++ more) 2080 2096 = fixedBytes b.name vendorBootNameSize := by
  have hl := headerLen_ge b.version
  have h2112 : vendorBootHeaderV3Size = 2112 := rfl
  have ha := b.writes_ascending
  rw [slice_append_left (by rw [b.headerBytes_length]; omega)]
  exact laidOut_text [_, _, _, _, _, _, _, _] ha ⟨Nat.le_refl _, ha.2.2.2.2.2.2.2.2.2.2⟩

theorem VendorBootBuilder.start (hp : b.pageSize ≠ 0) (more : Bytes) :
    VendorStart (b.headerBytes ++ more) b.version := by
  have hpg : u32At (b.headerBytes ++ more) 12 = b.pageSize :=
    u32_field more (by simp [writes])
  obtain ⟨rest, hm⟩ := laidOut_field b.writes_ascending
    (by simp [writes] : (0, vendorBootMagic) ∈ b.writes b.table.length) more
  refine ⟨?_, slice_of_drop hm rfl, ?_, ?_, ?_⟩
  · rw [length_append, b.headerBytes_length]
    exact Nat.le_add_right _ _
  · exact u32_field more (by simp [writes])
  · rw [hpg]
    exact hp
  · exact u32_field more (by simp [writes])

/-- The header is read back from its bytes. -/
theorem VendorBootBuilder.headerAt_headerBytes (hc : FitsField b.cmdline vendorBootCmdlineSize)
    (hn : FitsField b.name vendorBootNameSize) (more : Bytes) :
    vendorHeaderAt (b.headerBytes ++ more) b.version = b.header := by
  obtain ⟨rest, hd⟩ := laidOut_field b.writes_ascending
    (by simp [writes] : (2104, u64Le b.dtbAddr) ∈ b.writes b.table.length) more
  have hv4 {off : Nat} {x : UInt32}
      (hw : b.version = .v4 → (off, u32Le x) ∈ b.writes b.table.length)
      (h0 : b.version = .v3 → x = 0) :
      (if b.version = .v4 then u32At (b.headerBytes ++ more) off else 0) = x := by
    cases hv : b.version with
    | v3 => exact (h0 hv).symm
    | v4 => exact u32_field more (hw hv)
  have hcm : fixedString (slice (b.headerBytes ++ more) 28 2076) = b.cmdline := by
    rw [b.cmdline_slice, fixedString_fixedBytes hc]
  have hnm : fixedString (slice (b.headerBytes ++ more) 2080 2096) = b.name := by
    rw [b.name_slice, fixedString_fixedBytes hn]
  simp only [vendorHeaderAt, header, VendorBootHeader.mk.injEq]
  refine ⟨trivial, ?_, ?_, ?_, ?_, hcm, ?_, hnm, ?_, ?_, u64At_of_drop hd, hv4 ?_ ?_,
    hv4 ?_ ?_, hv4 ?_ ?_, hv4 ?_ ?_⟩
  iterate 7 exact u32_field more (by simp [writes])
  all_goals
    intro hv
    simp [writes, table, storedBootconfig, hv]

/-- Each section of the image stands at its offset. -/
theorem VendorBootBuilder.image_sections (h : b.Sized) :
    b.image.drop b.header.layout.ramdisk = padTo b.pageSize.toNat b.ramdisk ++
        (padTo b.pageSize.toNat b.dtb ++ (padTo b.pageSize.toNat b.table ++
          padTo b.pageSize.toNat b.storedBootconfig)) ∧
      b.image.drop b.header.layout.dtb = padTo b.pageSize.toNat b.dtb ++
        (padTo b.pageSize.toNat b.table ++ padTo b.pageSize.toNat b.storedBootconfig) ∧
      b.image.drop b.header.layout.table = padTo b.pageSize.toNat b.table ++
        padTo b.pageSize.toNat b.storedBootconfig ∧
      b.image.drop b.header.layout.bootconfig = padTo b.pageSize.toNat b.storedBootconfig ∧
      b.image.length = b.header.layout.stop := by
  have hp := padTo_length (u32_toNat_pos h.pageSize)
  have hh : (UInt32.ofNat b.version.headerLen).toNat = b.headerBytes.length := by
    rw [b.headerBytes_length]
    cases b.version <;> rfl
  have hr := UInt32.toNat_ofNat_of_lt' h.ramdisk
  have hd := UInt32.toNat_ofNat_of_lt' h.dtb
  have ht := UInt32.toNat_ofNat_of_lt' h.table
  have hb := UInt32.toNat_ofNat_of_lt' h.bootconfig
  have h1 : b.image.drop b.header.layout.ramdisk = _ := drop_field (a := 0) drop_zero
    (by simp [layout, header, hh, hp])
  have h2 := drop_field h1 (b := b.header.layout.dtb) (by simp [layout, header, hr, hp])
  have h3 := drop_field h2 (b := b.header.layout.table) (by simp [layout, header, hd, hp])
  have h4 := drop_field h3 (b := b.header.layout.bootconfig) (by simp [layout, header, ht, hp])
  refine ⟨h1, h2, h3, h4, ?_⟩
  simp only [image, length_append, hp, layout, header, hh, hr, hd, ht, hb, Nat.add_assoc]

end

theorem checkSections_ok {data : Bytes} {header : VendorBootHeader}
    (hp : header.pageSize ≠ 0) (hs : header.layout.stop ≤ data.length) (hv4 : header.version = .v4 →
      header.vendorRamdiskTableEntrySize = UInt32.ofNat vendorRamdiskTableEntrySize ∧
        header.vendorRamdiskTableEntryNum.toNat * vendorRamdiskTableEntrySize
          = header.vendorRamdiskTableSize.toNat) :
    checkSections data header = .ok () := by
  obtain ⟨h1, h2, h3, h4, h5⟩ := (layout_paged hp).chain
  have hsz := header.vendorRamdiskTableSize.toNat_lt
  have ht : checkTable data header header.layout = .ok () := by
    unfold checkTable
    split
    next hv =>
      obtain ⟨he, hn⟩ := hv4 hv
      have hexpected : header.vendorRamdiskTableEntryNum.toNat
          * header.vendorRamdiskTableEntrySize.toNat = header.vendorRamdiskTableSize.toNat := by
        rw [he]
        exact hn
      rw [ensureBetween_eq _ (by omega) (by omega), if_neg (by omega), ok_bind,
        ensureBetween_eq _ (by omega) (by omega), if_neg (by omega),
        if_neg (not_not.mpr he), hexpected]
      rw [if_neg (by omega), if_neg (not_not.mpr rfl)]
      rfl
    next => rfl
  rw [checkSections]
  simp (disch := omega) only [ensureSection_eq, ensureBetween_eq, if_neg, ok_bind, ht]

structure VendorBootBuilder.Valid (b : VendorBootBuilder) : Prop where
  pageSize : b.pageSize ≠ 0
  ramdisk : b.ramdisk.length < 2 ^ 32
  dtb : b.dtb.length < 2 ^ 32
  cmdline : FitsField b.cmdline vendorBootCmdlineSize
  name : FitsField b.name vendorBootNameSize
  table : b.version = .v4 → b.tableEntries.length * vendorRamdiskTableEntrySize < 2 ^ 32
  bootconfig : b.version = .v4 → b.bootconfig.length < 2 ^ 32
  entries : b.version = .v4 → ValidEntries b.ramdisk.length b.tableEntries

/-- An image that yields what the builder was given; table and bootconfig in version 4 only. -/
structure VendorBootImage.Yields (image : VendorBootImage) (b : VendorBootBuilder) : Prop where
  ramdisk : image.ramdisk = .ok b.ramdisk
  dtb : image.dtb = .ok b.dtb
  version : image.header.version = b.version
  cmdline : image.header.cmdline = b.cmdline
  name : image.header.name = b.name
  pageSize : image.header.pageSize = b.pageSize
  kernelAddr : image.header.kernelAddr = b.kernelAddr
  ramdiskAddr : image.header.ramdiskAddr = b.ramdiskAddr
  tagsAddr : image.header.tagsAddr = b.tagsAddr
  dtbAddr : image.header.dtbAddr = b.dtbAddr
  entries : b.version = .v4 → image.entries = b.tableEntries
  bootconfig : b.version = .v4 → image.bootconfig = .ok b.bootconfig

section

variable {b : VendorBootBuilder}

theorem VendorBootBuilder.Valid.sized (h : b.Valid) : b.Sized := by
  refine ⟨h.pageSize, h.ramdisk, h.dtb, ?_, ?_⟩
  · unfold VendorBootBuilder.table
    split
    next hv =>
      rw [table_length]
      exact h.table hv
    next => decide
  · unfold VendorBootBuilder.storedBootconfig
    split
    next hv => exact h.bootconfig hv
    next => decide

theorem VendorBootBuilder.Valid.entryNum (h : b.Valid) (hv : b.version = .v4) :
    b.header.vendorRamdiskTableEntryNum.toNat = b.tableEntries.length ∧
      b.header.vendorRamdiskTableSize.toNat = b.tableEntries.length * vendorRamdiskTableEntrySize := by
  have hs := h.table hv
  have hc := Nat.lt_of_le_of_lt (Nat.le_mul_of_pos_right _ (by decide)) hs
  have ht : b.table.length = b.tableEntries.length * vendorRamdiskTableEntrySize := by
    rw [VendorBootBuilder.table, if_pos hv, table_length]
  constructor
  · rw [VendorBootBuilder.header, if_pos hv]
    exact UInt32.toNat_ofNat_of_lt' hc
  · rw [VendorBootBuilder.header, ht]
    exact UInt32.toNat_ofNat_of_lt' hs

def VendorBootBuilder.parsed (b : VendorBootBuilder) : VendorBootImage where
  header := b.header
  data := b.image
  entries := if b.version = .v4 then b.tableEntries else []
  offsets := b.header.layout

theorem VendorBootBuilder.Valid.parseEntries_image (h : b.Valid) :
    parseEntries b.image b.header b.header.layout.table
        (if b.header.version = .v4 then b.header.vendorRamdiskTableEntryNum.toNat else 0) 0 []
      = .ok b.parsed.entries := by
  have hvr : b.header.version = b.version := rfl
  rw [VendorBootBuilder.parsed, hvr]
  by_cases hv : b.version = .v4
  · obtain ⟨hn, hs⟩ := h.entryNum hv
    obtain ⟨-, -, ht, -, hl⟩ := b.image_sections h.sized
    have hp : b.header.pageSize ≠ 0 := h.pageSize
    have hpg := layout_paged hp
    have h1 := hpg.table_le
    have h2 := hpg.bootconfig_le
    have h3 := hpg.stop_lt
    have hr : b.header.vendorRamdiskSize.toNat = b.ramdisk.length :=
      UInt32.toNat_ofNat_of_lt' h.ramdisk
    rw [VendorBootBuilder.table, if_pos hv, padTo, append_assoc] at ht
    rw [if_pos hv, if_pos hv, hn]
    apply parseEntries_raw
    · rw [Nat.zero_mul]
      exact ht
    · rw [Nat.zero_add]
      omega
    · rw [Nat.zero_add]
      omega
    · rw [nil_append, hr]
      exact h.entries hv
  · rw [if_neg hv, if_neg hv]
    rfl

/-- A valid builder's image is parsed. -/
theorem VendorBootBuilder.Valid.parse_image (h : b.Valid) :
    VendorBootImage.parse b.image = .ok b.parsed := by
  have hsp : ∃ more, b.image = b.headerBytes ++ more := by
    rw [image, padTo, append_assoc]
    exact ⟨_, rfl⟩
  obtain ⟨more, hi⟩ := hsp
  obtain ⟨-, -, -, -, hl⟩ := b.image_sections h.sized
  have hh := b.headerAt_headerBytes h.cmdline h.name more
  have hs := b.start h.pageSize more
  rw [← hi] at hh hs
  have hp := h.pageSize
  have hc : checkSections b.image b.header = .ok () := by
    apply checkSections_ok hp (Nat.le_of_eq hl.symm)
    intro hv
    obtain ⟨hn, hsz⟩ := h.entryNum hv
    refine ⟨if_pos hv, ?_⟩
    rw [hn, hsz]
  rw [VendorBootImage.parse_of_start hs, hh, parseVendorSections_eq hp, hc, h.parseEntries_image]
  rfl

/-- The parsed image yields what was built. -/
theorem VendorBootBuilder.Valid.parsed_yields (h : b.Valid) : b.parsed.Yields b := by
  obtain ⟨hrm, hdtb, -, hb, hl⟩ := b.image_sections h.sized
  have hp : b.header.pageSize ≠ 0 := h.pageSize
  have hpg := layout_paged hp
  have h1 := hpg.ramdisk_le
  have h2 := hpg.dtb_le
  have h3 := hpg.table_le
  have h4 := hpg.bootconfig_le
  have h5 := hpg.stop_lt
  have hs {offset : Nat} {size : UInt32} {bs rest : Bytes}
      (hdp : b.image.drop offset = padTo b.pageSize.toNat bs ++ rest)
      (hsz : size = UInt32.ofNat bs.length) (hbs : bs.length < 2 ^ 32)
      (hle : offset + size.toNat ≤ b.header.layout.stop) :
      b.parsed.sectionAt offset size = .ok bs := by
    have hd : b.parsed.data = b.image := rfl
    rw [VendorBootImage.sectionAt_ok (by rw [hd]; omega) (by omega), hd, hsz,
      UInt32.toNat_ofNat_of_lt' hbs, slice_padTo hdp]
  have hr : b.header.layout.ramdisk + b.header.vendorRamdiskSize.toNat ≤ b.header.layout.stop := by omega
  have hdle : b.header.layout.dtb + b.header.dtbSize.toNat ≤ b.header.layout.stop := by omega
  refine ⟨hs hrm rfl h.ramdisk hr, hs hdtb rfl h.dtb hdle, rfl, rfl, rfl, rfl,
    rfl, rfl, rfl, rfl, fun hv => if_pos hv, ?_⟩
  intro hv
  have hst : b.storedBootconfig = b.bootconfig := if_pos hv
  rw [← append_nil (padTo _ _)] at hb
  rw [← hst]
  exact hs hb rfl h.sized.bootconfig h4

/-- What is built from valid values is parsed, and the image yields them back. -/
theorem VendorBootBuilder.parse_build (h : b.Valid) :
    ∃ bytes image, b.build = .ok bytes ∧ VendorBootImage.parse bytes = .ok image ∧ image.Yields b :=
  ⟨b.image, b.parsed, b.build_eq h.sized, h.parse_image, h.parsed_yields⟩

end

def twoRamdisks : VendorBootBuilder :=
  { VendorBootBuilder.new .v4 with
    pageSize := 3000
    cmdline := "quiet"
    name := "board"
    ramdisk := [1, 2, 3, 4, 5]
    dtb := [6, 7]
    bootconfig := [8]
    tableEntries :=
      [{ ramdiskSize := 3, ramdiskOffset := 0, ramdiskType := 1, ramdiskName := "platform",
         boardId := Vector.replicate _ 0 },
       { ramdiskSize := 2, ramdiskOffset := 3, ramdiskType := 2, ramdiskName := "recovery",
         boardId := Vector.replicate _ 7 }] }

theorem twoRamdisks_yields : ∃ bytes image, twoRamdisks.build = .ok bytes ∧
    VendorBootImage.parse bytes = .ok image ∧ image.Yields twoRamdisks := by
  apply VendorBootBuilder.parse_build
  have he : ValidEntries 5 twoRamdisks.tableEntries := by
    refine ⟨by decide, ?_, by decide⟩
    simp only [twoRamdisks, forall_mem_cons]
    exact ⟨⟨by decide, by decide⟩, ⟨by decide, by decide⟩, forall_mem_nil _⟩
  exact ⟨by decide, by decide, by decide, ⟨by decide, by decide⟩, ⟨by decide, by decide⟩,
    fun _ => by decide, fun _ => by decide, fun _ => he⟩

end AdbFastboot
