import AdbFastboot.VendorParse

namespace AdbFastboot

open List VendorBootImage

structure SoundTable (header : VendorBootHeader) (entries : List VendorRamdiskTableEntry) :
    Prop where
  inside : ∀ entry ∈ entries,
    entry.ramdiskOffset.toNat + entry.ramdiskSize.toNat ≤ header.vendorRamdiskSize.toNat
  distinct : (entries.map VendorRamdiskTableEntry.ramdiskName).Nodup

section

variable {data : Bytes} {header : VendorBootHeader}
  {entries : List VendorRamdiskTableEntry} {entry : VendorRamdiskTableEntry} {index : Nat}

theorem checkEntry_noPanic : NoPanic (checkEntry header index entries entry) := by
  unfold checkEntry
  apply noPanic_guard
  intro _
  apply noPanic_guard
  intro _
  apply noPanic_guard
  intro _
  exact noPanic_ok _

theorem checkEntry_eq_ok (h : checkEntry header index entries entry = .ok ()) :
    entry.ramdiskOffset.toNat + entry.ramdiskSize.toNat ≤ header.vendorRamdiskSize.toNat ∧
      ∀ old ∈ entries, old.ramdiskName ≠ entry.ramdiskName := by
  obtain ⟨-, h⟩ := guard_eq_ok h
  obtain ⟨hle, h⟩ := guard_eq_ok h
  obtain ⟨ha, -⟩ := guard_eq_ok h
  exact ⟨Nat.not_lt.mp hle, by simpa using ha⟩

/-- An entry that passes its checks keeps the table sound. -/
theorem SoundTable.push (hs : SoundTable header entries)
    (h : checkEntry header index entries entry = .ok ()) :
    SoundTable header (entries ++ [entry]) := by
  obtain ⟨hle, hn⟩ := checkEntry_eq_ok h
  constructor
  · intro e he
    rcases mem_append.mp he with he | he
    · exact hs.inside e he
    · cases mem_singleton.mp he
      exact hle
  · rw [map_append, map_singleton, nodup_append]
    refine ⟨hs.distinct, pairwise_singleton _ _, ?_⟩
    intro a ha b hb
    obtain ⟨old, ho, rfl⟩ := mem_map.mp ha
    cases mem_singleton.mp hb
    exact hn old ho

theorem parseEntry_noPanic {raw : Bytes} (hl : raw.length = vendorRamdiskTableEntrySize)
    (index : Nat) : NoPanic (parseEntry raw index) := by
  rw [parseEntry_eq hl]
  cases fromUtf8 (untilNul (slice raw 12 44)) with
  | none => exact noPanic_fail _
  | some name => exact noPanic_ok _

/-- A table within the data is parsed or refused, and is sound. -/
theorem parseEntries_safe {table left : Nat}
    (hr : table + (index + left) * vendorRamdiskTableEntrySize ≤ data.length)
    (hlt : table + (index + left) * vendorRamdiskTableEntrySize < 2 ^ 64)
    (hs : SoundTable header entries) :
    NoPanic (parseEntries data header table left index entries) ∧
      ∀ all, parseEntries data header table left index entries = .ok all →
        SoundTable header all := by
  induction left generalizing index entries with
  | zero =>
    refine ⟨noPanic_ok _, ?_⟩
    intro all h
    cases h
    exact hs
  | succ left ih =>
    have hi : index + (left + 1) = index + 1 + left := by omega
    rw [hi] at hr hlt
    have hm : (index + 1) * vendorRamdiskTableEntrySize
        ≤ (index + 1 + left) * vendorRamdiskTableEntrySize :=
      Nat.mul_le_mul_right _ (Nat.le_add_right _ _)
    have hl : (slice data (table + index * vendorRamdiskTableEntrySize)
        (table + (index + 1) * vendorRamdiskTableEntrySize)).length = vendorRamdiskTableEntrySize := by
      rw [slice_length (by omega), Nat.succ_mul]
      omega
    rw [parseEntries_succ (by omega) (by omega)]
    constructor
    · apply noPanic_bind (parseEntry_noPanic hl index)
      intro entry _
      apply noPanic_bind checkEntry_noPanic
      intro _ hch
      exact (ih hr hlt (hs.push hch)).1
    · intro all h
      obtain ⟨entry, -, h⟩ := bind_eq_ok.mp h
      obtain ⟨_, hch, h⟩ := bind_eq_ok.mp h
      exact (ih hr hlt (hs.push hch)).2 all h

/-- What the checks of the sections leave for the accessors and the loop over the table. -/
structure Covered (data : Bytes) (header : VendorBootHeader) : Prop where
  table : header.layout.table ≤ data.length
  sections : header.version = .v4 → header.layout.stop ≤ data.length
  entries : header.version = .v4 → header.vendorRamdiskTableEntryNum.toNat
    * vendorRamdiskTableEntrySize = header.vendorRamdiskTableSize.toNat

variable (hpaged : header.layout.Paged header)
include hpaged

theorem checkTable_noPanic : NoPanic (checkTable data header header.layout) := by
  obtain ⟨-, -, h1, h2, h3⟩ := hpaged.chain
  unfold checkTable
  split
  next =>
    rw [ensureBetween_eq _ (by omega) (by omega), ensureBetween_eq _ (by omega) (by omega)]
    apply noPanic_bind (noPanic_guard fun _ => noPanic_ok _)
    intro _ _
    apply noPanic_bind (noPanic_guard fun _ => noPanic_ok _)
    intro _ _
    apply noPanic_guard
    intro _
    apply noPanic_guard
    intro _
    apply noPanic_guard
    intro _
    exact noPanic_ok _
  next => exact noPanic_ok _

theorem checkTable_eq_ok (hv : header.version = .v4) (h : checkTable data header header.layout = .ok ()) :
    header.layout.stop ≤ data.length ∧ header.vendorRamdiskTableEntryNum.toNat
      * vendorRamdiskTableEntrySize = header.vendorRamdiskTableSize.toNat := by
  obtain ⟨-, -, h1, h2, h3⟩ := hpaged.chain
  rw [checkTable, if_pos hv, ensureBetween_eq _ (by omega) (by omega),
    ensureBetween_eq _ (by omega) (by omega)] at h
  obtain ⟨_, -, h⟩ := bind_eq_ok.mp h
  obtain ⟨_, hs, h⟩ := bind_eq_ok.mp h
  obtain ⟨hs, -⟩ := guard_eq_ok hs
  obtain ⟨hsz, h⟩ := guard_eq_ok h
  obtain ⟨-, h⟩ := guard_eq_ok h
  obtain ⟨hn, -⟩ := guard_eq_ok h
  rw [not_not.mp hsz] at hn
  exact ⟨Nat.not_lt.mp hs, not_not.mp hn⟩

theorem checkSections_noPanic : NoPanic (checkSections data header) := by
  obtain ⟨h1, h2, h3, h4, h5⟩ := hpaged.chain
  rw [checkSections, ensureSection_eq _ (by omega), ensureBetween_eq _ (by omega) (by omega),
    ensureBetween_eq _ (by omega) (by omega)]
  apply noPanic_bind (noPanic_guard fun _ => noPanic_ok _)
  intro _ _
  apply noPanic_bind (noPanic_guard fun _ => noPanic_ok _)
  intro _ _
  apply noPanic_bind (noPanic_guard fun _ => noPanic_ok _)
  intro _ _
  exact checkTable_noPanic hpaged

/-- Sections that pass their checks lie within the data. -/
theorem checkSections_eq_ok (h : checkSections data header = .ok ()) : Covered data header := by
  obtain ⟨-, h2, h3, h4, h5⟩ := hpaged.chain
  rw [checkSections, ensureBetween_eq _ (by omega : header.layout.dtb ≤ _) (by omega)] at h
  obtain ⟨_, -, h⟩ := bind_eq_ok.mp h
  obtain ⟨_, -, h⟩ := bind_eq_ok.mp h
  obtain ⟨_, ht, h⟩ := bind_eq_ok.mp h
  obtain ⟨ht, -⟩ := guard_eq_ok ht
  exact ⟨Nat.not_lt.mp ht, fun hv => (checkTable_eq_ok hpaged hv h).1,
    fun hv => (checkTable_eq_ok hpaged hv h).2⟩

theorem parseEntries_covered (hc : Covered data header) :
    NoPanic (parseEntries data header header.layout.table
        (if header.version = .v4 then header.vendorRamdiskTableEntryNum.toNat else 0) 0 []) ∧
      ∀ all, parseEntries data header header.layout.table
          (if header.version = .v4 then header.vendorRamdiskTableEntryNum.toNat else 0) 0 []
            = .ok all → SoundTable header all := by
  have hn : SoundTable header [] := ⟨forall_mem_nil _, nodup_nil⟩
  have h3 := hpaged.table_le
  have h4 := hpaged.bootconfig_le
  have h5 := hpaged.stop_lt
  have ht := hc.table
  by_cases hv : header.version = .v4
  · have hs := hc.sections hv
    have hnum := hc.entries hv
    rw [if_pos hv]
    apply parseEntries_safe _ _ hn <;> rw [Nat.zero_add, hnum] <;> omega
  · rw [if_neg hv]
    apply parseEntries_safe _ _ hn <;> rw [Nat.zero_add, Nat.zero_mul] <;> omega

end

/-- The ranges behind the accessors: where each starts and its declared size. -/
def VendorBootImage.ranges (image : VendorBootImage) : List (Nat × Nat) :=
  [(image.offsets.ramdisk, image.header.vendorRamdiskSize.toNat),
    (image.offsets.dtb, image.header.dtbSize.toNat),
    (image.offsets.bootconfig, image.header.bootconfigSize.toNat)]

/-- An image whose accessors return what its header declares. -/
structure VendorBootImage.Sound (image : VendorBootImage) : Prop where
  accessors : [image.ramdisk, image.dtb, image.bootconfig]
    = image.ranges.map fun range => .ok (slice image.data range.1 (range.1 + range.2))
  inBounds : ∀ range ∈ image.ranges, range.1 + range.2 ≤ image.data.length
  lengths : ∀ range ∈ image.ranges,
    (slice image.data range.1 (range.1 + range.2)).length = range.2
  aligned : ∀ range ∈ image.ranges, image.header.pageSize.toNat ∣ range.1
  disjoint : image.ranges.Pairwise fun range next => range.1 + range.2 ≤ next.1
  table : SoundTable image.header image.entries

variable {data : Bytes} {header : VendorBootHeader}

section

variable (hpaged : header.layout.Paged header) (hc : Covered data header)
  (hv3 : header.version = .v3 → header.vendorRamdiskTableSize = 0 ∧ header.bootconfigSize = 0)
include hpaged hc hv3

theorem Covered.bootconfig : header.layout.bootconfig + header.bootconfigSize.toNat ≤ data.length := by
  have hle := hpaged.bootconfig_le
  cases hv : header.version with
  | v3 =>
    obtain ⟨ht, hb⟩ := hv3 hv
    have htb := hc.table
    have hs : header.layout.bootconfig = header.layout.table := by
      simp [VendorBootHeader.layout, ht, roundUp_zero]
    rw [hb, hs]
    exact htb
  | v4 =>
    have hst := hc.sections hv
    omega

/-- An image whose sections lie within the data is sound. -/
theorem VendorBootImage.sound_of_covered {entries : List VendorRamdiskTableEntry}
    (hs : SoundTable header entries) :
    VendorBootImage.Sound { header, data, entries, offsets := header.layout } := by
  have h1 := hpaged.ramdisk_le
  have h2 := hpaged.dtb_le
  have h3 := hpaged.table_le
  have h4 := hpaged.bootconfig_le
  have h5 := hpaged.stop_lt
  have hb := hc.bootconfig hpaged hv3
  have hi : ∀ range ∈ ranges { header, data, entries, offsets := header.layout },
      range.1 + range.2 ≤ data.length := by
    simp only [ranges, forall_mem_cons]
    exact ⟨by omega, by omega, hb, forall_mem_nil _⟩
  refine ⟨?_, hi, ?_, ?_, ?_, hs⟩
  · rw [ramdisk, dtb, bootconfig, sectionAt_ok (by simp only; omega) (by simp only; omega),
      sectionAt_ok (by simp only; omega) (by simp only; omega),
      sectionAt_ok hb (by simp only; omega)]
    rfl
  · intro range hr
    rw [slice_length (hi range hr), Nat.add_sub_cancel_left]
  · simp only [ranges, forall_mem_cons]
    exact ⟨hpaged.ramdisk_dvd, hpaged.dtb_dvd, hpaged.bootconfig_dvd, forall_mem_nil _⟩
  · simp only [ranges, pairwise_cons, forall_mem_cons]
    refine ⟨⟨by omega, by omega, forall_mem_nil _⟩, ⟨by omega, forall_mem_nil _⟩,
      forall_mem_nil _, List.Pairwise.nil⟩

end

/-- Parsing never panics, and an image it returns carries the header of the data and answers
every accessor from inside it. -/
theorem VendorBootImage.parse_sound (data : List UInt8) : NoPanic (VendorBootImage.parse data) ∧
      ∀ image, VendorBootImage.parse data = .ok image →
        image.data = data ∧ image.header = vendorHeaderAt data image.header.version ∧
          image.Sound := by
  rcases VendorBootImage.parse_cases data with ⟨e, he⟩ | ⟨version, hst⟩
  · rw [he]
    exact ⟨noPanic_fail e, fun image h => absurd h (fail_ne_ok e image)⟩
  have hp : (vendorHeaderAt data version).pageSize ≠ 0 := hst.pageSize
  have hpaged := VendorBootHeader.layout_paged hp
  have hv3 : (vendorHeaderAt data version).version = .v3 →
      (vendorHeaderAt data version).vendorRamdiskTableSize = 0 ∧
        (vendorHeaderAt data version).bootconfigSize = 0 := by
    intro hv
    cases hv
    exact ⟨rfl, rfl⟩
  rw [VendorBootImage.parse_of_start hst, parseVendorSections_eq hp]
  constructor
  · apply noPanic_bind (checkSections_noPanic hpaged)
    intro _ hch
    apply noPanic_bind (parseEntries_covered hpaged (checkSections_eq_ok hpaged hch)).1
    intro _ _
    exact noPanic_ok _
  · intro image h
    obtain ⟨_, hch, h⟩ := bind_eq_ok.mp h
    obtain ⟨entries, hen, h⟩ := bind_eq_ok.mp h
    cases h
    have hc := checkSections_eq_ok hpaged hch
    have hs := (parseEntries_covered hpaged hc).2 entries hen
    exact ⟨rfl, rfl, VendorBootImage.sound_of_covered hpaged hc hv3 hs⟩

end AdbFastboot
