import AdbFastboot.VendorBoot

namespace AdbFastboot

open List VendorBootBuilder VendorRamdiskTableEntry

theorem alignPage_ok {page n : Nat} (hp : 0 < page) (h : n + page < 2 ^ 64) :
    alignPage page n = .ok (roundUp n page) := by
  rw [alignPage, addUsize_ok h, ok_bind, subUsize_ok (by omega), ok_bind, if_neg (by omega)]
  rfl

/-- A section is appended with its padding. -/
theorem appendSection_ok {page : Nat} {image bs : Bytes} (hp : 0 < page)
    (hi : page ∣ image.length) (h : image.length + bs.length + page < 2 ^ 64) :
    appendSection page image bs = .ok (image ++ padTo page bs) := by
  rw [appendSection, alignPage_ok hp (by rw [length_append]; exact h), ok_bind, resizeZero_append hp hi]
  rfl

theorem laidOut_text {total off len : Nat} {text : String} (front : List (Nat × Bytes))
    {rest : List (Nat × Bytes)}
    (h : Ascending total 0 (front ++ (off, (utf8Bytes text).take len) :: rest))
    (hn : Ascending total (off + len) rest) :
    slice (laidOut total 0 (front ++ (off, (utf8Bytes text).take len) :: rest)) off (off + len)
      = fixedBytes text len := by
  have hl : ((utf8Bytes text).take len).length = min len (utf8Bytes text).length :=
    length_take
  rw [laidOut_slice h hn (by omega), fixedBytes, hl]
  congr 2
  omega

section

variable (entry : VendorRamdiskTableEntry)

theorem VendorRamdiskTableEntry.boardWrites_ascending : Ascending vendorRamdiskTableEntrySize 44
      (entry.boardId.toList.zipIdx.map fun (word, i) => (44 + i * 4, u32Le word)) := by
  have hl : entry.boardId.toList.length = 16 := by
    rw [Vector.length_toList]
    rfl
  exact ascending_words (k := 0) (by rw [hl]; decide)

/-- The fields of an entry are written in ascending order. -/
theorem VendorRamdiskTableEntry.writes_ascending :
    Ascending vendorRamdiskTableEntrySize 0 entry.writes := by
  have hn : ((utf8Bytes entry.ramdiskName).take vendorRamdiskNameSize).length ≤ 32 :=
    length_take_le _ _
  refine ⟨Nat.le_refl _, ?_, ?_, ?_, ?_⟩
  · simp
  · simp
  · simp
  · exact entry.boardWrites_ascending.mono (by omega)

def VendorRamdiskTableEntry.raw : Bytes :=
  laidOut vendorRamdiskTableEntrySize 0 entry.writes

theorem VendorRamdiskTableEntry.raw_length : entry.raw.length = vendorRamdiskTableEntrySize :=
  laidOut_length entry.writes_ascending

theorem VendorRamdiskTableEntry.raw_field {off : Nat} {x : UInt32}
    (h : (off, u32Le x) ∈ entry.writes) : u32At entry.raw off = x := by
  obtain ⟨rest, hd⟩ := laidOut_field entry.writes_ascending h []
  rw [append_nil] at hd
  exact u32At_of_drop hd

theorem VendorRamdiskTableEntry.raw_name :
    slice entry.raw 12 44 = fixedBytes entry.ramdiskName vendorRamdiskNameSize :=
  laidOut_text [(0, u32Le entry.ramdiskSize), (4, u32Le entry.ramdiskOffset),
    (8, u32Le entry.ramdiskType)] entry.writes_ascending entry.boardWrites_ascending

end

variable (entries : List VendorRamdiskTableEntry)

theorem tableBytes_eq : tableBytes entries = .ok (entries.flatMap raw) := by
  induction entries with
  | nil => rfl
  | cons entry entries ih =>
    have hr : (writeAll (replicate vendorRamdiskTableEntrySize 0) entry.writes
        : Outcome VendorBootError _) = .ok entry.raw :=
      writeAll_zeros entry.writes_ascending
    rw [tableBytes, hr, ok_bind, ih, ok_bind]
    rfl

theorem table_length : (entries.flatMap raw).length
      = entries.length * vendorRamdiskTableEntrySize := by
  induction entries with
  | nil => rfl
  | cons entry entries ih =>
    rw [flatMap_cons, length_append, ih, entry.raw_length, length_cons, Nat.succ_mul, Nat.add_comm]

section

variable (b : VendorBootBuilder)

def VendorBootBuilder.table : Bytes :=
  if b.version = .v4 then b.tableEntries.flatMap VendorRamdiskTableEntry.raw else []

def VendorBootBuilder.storedBootconfig : Bytes :=
  if b.version = .v4 then b.bootconfig else []

/-- The fields of the header are written in ascending order. -/
theorem VendorBootBuilder.writes_ascending : Ascending b.version.headerLen 0 (b.writes b.table.length) := by
  have hc : ((utf8Bytes b.cmdline).take vendorBootCmdlineSize).length ≤ 2048 :=
    length_take_le _ _
  have hn : ((utf8Bytes b.name).take vendorBootNameSize).length ≤ 16 := length_take_le _ _
  have hm : vendorBootMagic.length = 8 := rfl
  unfold writes
  cases b.version with
  | v3 =>
    simp only [Ascending, VendorBootVersion.headerLen, vendorBootHeaderV3Size, cons_append,
      nil_append, u32Le_length, u64Le_length, hm, reduceCtorEq, if_false]
    omega
  | v4 =>
    simp only [Ascending, VendorBootVersion.headerLen, vendorBootHeaderV4Size, cons_append,
      nil_append, u32Le_length, u64Le_length, hm, if_true]
    omega

def VendorBootBuilder.headerBytes : Bytes :=
  laidOut b.version.headerLen 0 (b.writes b.table.length)

theorem VendorBootBuilder.headerBytes_length : b.headerBytes.length = b.version.headerLen :=
  laidOut_length b.writes_ascending

def VendorBootBuilder.image : Bytes :=
  padTo b.pageSize.toNat b.headerBytes ++ (padTo b.pageSize.toNat b.ramdisk ++
    (padTo b.pageSize.toNat b.dtb ++ (padTo b.pageSize.toNat b.table ++
      padTo b.pageSize.toNat b.storedBootconfig)))

end

structure VendorBootBuilder.Sized (b : VendorBootBuilder) : Prop where
  pageSize : b.pageSize ≠ 0
  ramdisk : b.ramdisk.length < 2 ^ 32
  dtb : b.dtb.length < 2 ^ 32
  table : b.table.length < 2 ^ 32
  bootconfig : b.storedBootconfig.length < 2 ^ 32

variable {b : VendorBootBuilder}

theorem VendorBootBuilder.Sized.tableSize (h : b.Sized) : b.tableSize = .ok b.table.length := by
  have hlt := h.table
  unfold VendorBootBuilder.table at hlt ⊢
  unfold VendorBootBuilder.tableSize
  split at hlt
  next hv =>
    rw [table_length] at hlt
    rw [if_pos hv, if_pos hv, table_length, mulUsize_ok (by omega)]
  next hv =>
    rw [if_neg hv, if_neg hv]
    rfl

theorem VendorBootBuilder.appendTable_ok {image : Bytes} (h : b.Sized)
    (hi : b.pageSize.toNat ∣ image.length) (hlt : image.length < 2 ^ 40) :
    b.appendTable image = .ok (image ++ (padTo b.pageSize.toNat b.table
      ++ padTo b.pageSize.toNat b.storedBootconfig)) := by
  have hp := u32_toNat_pos h.pageSize
  have hpg := b.pageSize.toNat_lt
  have ht := h.table
  have hb := h.bootconfig
  unfold appendTable
  unfold table at ht ⊢
  unfold storedBootconfig at hb ⊢
  split
  next hv =>
    rw [if_pos hv] at ht hb
    have hpad := padTo_length hp (b.tableEntries.flatMap raw)
    have hr := roundUp_bounds hp (b.tableEntries.flatMap raw).length
    have hn : b.pageSize.toNat ∣ (image ++ padTo b.pageSize.toNat
        (b.tableEntries.flatMap raw)).length := by
      rw [length_append, hpad]
      exact Nat.dvd_add hi (dvd_roundUp _ _)
    rw [tableBytes_eq, ok_bind, appendSection_ok hp hi (by omega), ok_bind,
      appendSection_ok hp hn (by rw [length_append, hpad]; omega), append_assoc]
  next => simp

/-- A builder whose sizes fit builds its image. -/
theorem VendorBootBuilder.build_eq (h : b.Sized) : b.build = .ok b.image := by
  have hp := u32_toNat_pos h.pageSize
  have hpg := b.pageSize.toNat_lt
  have hl : b.version.headerLen ≤ 2128 := by cases b.version <;> decide
  have hh := b.headerBytes_length
  have hw : (writeAll (replicate b.version.headerLen 0) (b.writes b.table.length)
      : Outcome VendorBootError _) = .ok b.headerBytes :=
    writeAll_zeros b.writes_ascending
  have hph := padTo_length hp b.headerBytes
  have hpr := padTo_length hp b.ramdisk
  have hpd := padTo_length hp b.dtb
  have hrd := roundUp_bounds hp b.headerBytes.length
  have hro := roundUp_bounds hp b.ramdisk.length
  have hrn := roundUp_bounds hp b.dtb.length
  have hrm := h.ramdisk
  have hd := h.dtb
  have hr : resizeZero b.headerBytes (roundUp b.version.headerLen b.pageSize.toNat)
      = padTo b.pageSize.toNat b.headerBytes := by
    rw [← hh, resizeZero_roundUp hp]
  have h1 : b.pageSize.toNat ∣ (padTo b.pageSize.toNat b.headerBytes).length := by
    rw [hph]
    exact dvd_roundUp _ _
  have h2 : b.pageSize.toNat ∣ (padTo b.pageSize.toNat b.headerBytes
      ++ padTo b.pageSize.toNat b.ramdisk).length := by
    rw [length_append, hpr]
    exact Nat.dvd_add h1 (dvd_roundUp _ _)
  have h3 : b.pageSize.toNat ∣ (padTo b.pageSize.toNat b.headerBytes
      ++ padTo b.pageSize.toNat b.ramdisk ++ padTo b.pageSize.toNat b.dtb).length := by
    rw [length_append, hpd]
    exact Nat.dvd_add h2 (dvd_roundUp _ _)
  rw [build, if_neg h.pageSize, h.tableSize, ok_bind, hw, ok_bind,
    alignPage_ok hp (by omega), ok_bind, hr, appendSection_ok hp h1 (by omega), ok_bind,
    appendSection_ok hp h2 (by rw [length_append]; omega), ok_bind,
    appendTable_ok h h3 (by rw [length_append, length_append]; omega)]
  simp [image]

end AdbFastboot
