import AdbFastboot.BootRoundTrip

namespace AdbFastboot

def Stated (bs data : Bytes) (size : UInt32) : Prop := bs <:+: data ∧ bs.length = size.toNat

structure BootImage.SectionsStated (image : BootImage) (data : Bytes) : Prop where
  kernel : Stated image.kernel data image.header.kernelSize
  ramdisk : Stated image.ramdisk data image.header.ramdiskSize
  second : Stated image.second data image.header.secondSize
  recoveryDtbo : Stated image.recoveryDtbo data image.header.recoveryDtboSize
  dtb : Stated image.dtb data image.header.dtbSize

variable {data : Bytes} {header : BootImageHeader}

/-- A section that was read is a part of the data, of the stated size. -/
theorem readSection_stated {name : String} {bs : Bytes} {ps offset size next : Nat}
    (h : readSection name data ps offset size = .ok (bs, next)) :
    bs <:+: data ∧ bs.length = size := by
  unfold readSection at h
  split at h
  next =>
    obtain ⟨padded, -, h⟩ := bind_eq_ok.mp h
    obtain ⟨next', -, h⟩ := bind_eq_ok.mp h
    obtain ⟨-, h⟩ := guard_eq_ok h
    obtain ⟨stop, hs, h⟩ := bind_eq_ok.mp h
    obtain ⟨bytes, hb, h⟩ := bind_eq_ok.mp h
    obtain ⟨hle, hl, rfl⟩ := sliceAt_eq_ok hb
    cases h
    have hsum := addUsize_eq_ok hs
    exact ⟨slice_within _ _ _, by rw [slice_length hl]; omega⟩
  next hz =>
    cases h
    exact ⟨List.nil_infix, by rw [List.length_nil]; omega⟩

theorem readRecoveryDtbo_stated {bs : Bytes} {ps offset : Nat}
    (h : readRecoveryDtbo header data ps offset = .ok bs) :
    bs <:+: data ∧
      bs.length = if header.headerVersion = 1 then header.recoveryDtboSize.toNat else 0 := by
  unfold readRecoveryDtbo at h
  split at h
  next hv =>
    obtain ⟨padded, -, h⟩ := bind_eq_ok.mp h
    obtain ⟨-, h⟩ := guard_eq_ok h
    obtain ⟨-, h⟩ := guard_eq_ok h
    obtain ⟨stop, hs, h⟩ := bind_eq_ok.mp h
    obtain ⟨hle, hl, rfl⟩ := sliceAt_eq_ok h
    have hsum := addUsize_eq_ok hs
    exact ⟨slice_within _ _ _, by rw [slice_length hl, if_pos hv.1]; omega⟩
  next hv =>
    cases h
    refine ⟨List.nil_infix, ?_⟩
    split
    next ho =>
      have hz : ¬0 < header.recoveryDtboSize := fun hp => hv ⟨ho, hp⟩
      have hle := UInt32.le_iff_toNat_le.mp (UInt32.not_lt.mp hz)
      have h0 : (0 : UInt32).toNat = 0 := rfl
      rw [List.length_nil]
      omega
    next => rfl

variable {image : BootImage}

/-- All sections of a parsed image lie in the data, with the sizes of its header. -/
theorem parseSections_stated {ps hd : Nat} (h : parseSections header data ps hd = .ok image) :
    image.header = header ∧
      (image.kernel <:+: data ∧ image.kernel.length = header.kernelSize.toNat) ∧
      (image.ramdisk <:+: data ∧ image.ramdisk.length = header.ramdiskSize.toNat) ∧
      (image.second <:+: data ∧
        image.second.length = if header.headerVersion ≤ 2 then header.secondSize.toNat else 0) ∧
      (image.recoveryDtbo <:+: data ∧ image.recoveryDtbo.length
        = if header.headerVersion = 1 then header.recoveryDtboSize.toNat else 0) ∧
      (image.dtb <:+: data ∧
        image.dtb.length = if 2 ≤ header.headerVersion then header.dtbSize.toNat else 0) := by
  obtain ⟨⟨kernel, offset⟩, hk, h⟩ := bind_eq_ok.mp h
  obtain ⟨⟨ramdisk, offset⟩, hrm, h⟩ := bind_eq_ok.mp h
  obtain ⟨⟨second, offset⟩, hs, h⟩ := bind_eq_ok.mp h
  obtain ⟨recoveryDtbo, hr, h⟩ := bind_eq_ok.mp h
  obtain ⟨⟨dtb, offset⟩, hdtb, h⟩ := bind_eq_ok.mp h
  cases h
  exact ⟨rfl, readSection_stated hk, readSection_stated hrm, readSection_stated hs,
    readRecoveryDtbo_stated hr, readSection_stated hdtb⟩

/-- A decoded header is that of the version found in the data. -/
theorem BootImageHeader.decode_ok_cases (h : BootImageHeader.decode data = .ok header) : BootStart data ∧
      ((NewVersion data ∧ header = newHeaderAt data (u32At data 8)) ∨
        (¬NewVersion data ∧ u32At data 40 ≤ 2 ∧ nativeHeaderSize (u32At data 40) ≤ data.length ∧
          header = oldHeaderAt data (u32At data 40))) := by
  by_cases hs : BootStart data
  · refine ⟨hs, ?_⟩
    rw [decode_eq hs] at h
    split at h
    next hn =>
      rw [decodeV3V4_eq] at h
      obtain ⟨-, h⟩ := guard_eq_ok h
      exact .inl ⟨hn, (Except.ok.inj h).symm⟩
    next ho =>
      split at h
      next => simp at h
      split at h
      next hv =>
        rw [decodeV0V1V2_eq hv] at h
        obtain ⟨hl, h⟩ := guard_eq_ok h
        exact .inr ⟨ho, hv, Nat.not_lt.mp hl, (Except.ok.inj h).symm⟩
      next => simp at h
  · obtain ⟨e, he⟩ := decode_refuses hs
    rw [he] at h
    simp at h

theorem BootImageHeader.decode_ok_absent (h : BootImageHeader.decode data = .ok header) :
    (header.headerVersion = 3 ∨ header.headerVersion = 4 ∨ header.headerVersion ≤ 2) ∧
      (¬header.headerVersion ≤ 2 → header.secondSize = 0) ∧
      (header.headerVersion ≠ 1 → header.headerVersion ≠ 2 → header.recoveryDtboSize = 0) ∧
      (¬2 ≤ header.headerVersion → header.dtbSize = 0) := by
  obtain ⟨-, ⟨hn, rfl⟩ | ⟨-, hv, -, rfl⟩⟩ := decode_ok_cases h
  · have hvr : (newHeaderAt data (u32At data 8)).headerVersion = u32At data 8 := rfl
    refine ⟨?_, fun _ => rfl, fun _ _ => rfl, fun _ => rfl⟩
    rcases hn with hn | hn
    · exact .inl hn
    · exact .inr (.inl hn)
  · refine ⟨.inr (.inr hv), fun h => absurd hv h, fun h1 h2 => ?_, fun h2 => if_neg h2⟩
    have h1' := h1
    have h2' := h2
    rcases oldVersion_cases hv with hv | hv | hv
    · exact if_neg (by rw [hv]; decide)
    · exact absurd hv h1'
    · exact absurd hv h2'

theorem parseBootImage_layout (hdc : BootImageHeader.decode data = .ok header) :
    (∃ e, parseBootImage data = fail e) ∨ ∃ hd, PageSize (parsePageSize header) ∧
        parseHeaderBytes header.headerVersion (parsePageSize header) = .ok hd ∧
        hd < 2 ^ 32 ∧ hd ≤ data.length ∧
        parseBootImage data = parseSections header data (parsePageSize header) hd := by
  by_cases hpow : isPowerOfTwo (parsePageSize header) = true
  · have hp : PageSize (parsePageSize header) := by
      unfold parsePageSize at hpow ⊢
      split at hpow
      next hv =>
        rw [if_pos hv]
        exact pageSize_of_isPowerOfTwo hpow
      next hv =>
        rw [if_neg hv]
        exact pageSize_4096
    obtain ⟨hd, hb, hlt⟩ : ∃ hd,
        parseHeaderBytes header.headerVersion (parsePageSize header) = .ok hd ∧
        hd < 2 ^ 32 := by
      unfold parseHeaderBytes
      split
      next hv =>
        have hr := roundUp_bounds hp.bounds.1 (nativeHeaderSize header.headerVersion)
        have hn := nativeHeaderSize_le header.headerVersion
        have hbn := hp.bounds
        rw [unwrapHeaderSize_ok hv, ok_bind, alignUp_ok hp (by omega)]
        exact ⟨_, rfl, by omega⟩
      next => exact ⟨_, rfl, by decide⟩
    rw [parseBootImage_eq hp hdc rfl hb]
    split
    next => exact .inl ⟨_, rfl⟩
    next hl => exact .inr ⟨hd, hp, hb, hlt, by omega, rfl⟩
  · left
    unfold parseBootImage
    split
    next => exact ⟨_, rfl⟩
    rw [hdc, ok_bind]
    rw [if_pos (.inr (by simpa using hpow))]
    exact ⟨_, rfl⟩

/-- A parsed image has a decoded header, a page size, and parsed sections. -/
theorem parseBootImage_ok (h : parseBootImage data = .ok image) :
    ∃ hd, BootImageHeader.decode data = .ok image.header ∧ PageSize (parsePageSize image.header) ∧
      parseHeaderBytes image.header.headerVersion (parsePageSize image.header) = .ok hd ∧
      hd < 2 ^ 32 ∧ hd ≤ data.length ∧
      parseSections image.header data (parsePageSize image.header) hd = .ok image := by
  have hdc : ∃ header, BootImageHeader.decode data = .ok header := by
    unfold parseBootImage at h
    split at h
    next => simp at h
    obtain ⟨header, hdc, -⟩ := bind_eq_ok.mp h
    exact ⟨header, hdc⟩
  obtain ⟨header, hdc⟩ := hdc
  rcases parseBootImage_layout hdc with ⟨e, he⟩ | ⟨hd, hp, hb, hlt, hle, hs⟩
  · rw [he] at h
    simp at h
  · rw [hs] at h
    obtain ⟨rfl, -⟩ := parseSections_stated h
    exact ⟨hd, hdc, hp, hb, hlt, hle, h⟩

/-- All sections are as stated but for the recovery DTBO of version 2, which is not read. -/
theorem sectionsStated_iff (h : parseBootImage data = .ok image) : image.SectionsStated data ↔
      ¬(image.header.headerVersion = 2 ∧ image.header.recoveryDtboSize ≠ 0) := by
  obtain ⟨hdb, hdc, -, -, -, -, hsec⟩ := parseBootImage_ok h
  obtain ⟨-, ha, har, had⟩ := BootImageHeader.decode_ok_absent hdc
  obtain ⟨-, hk, hrm, ⟨hs, hs2⟩, ⟨hr1, hr⟩, ⟨hd, hd2⟩⟩ := parseSections_stated hsec
  constructor
  · intro hst hv
    have hl := hst.recoveryDtbo.2
    rw [hr, if_neg (by rw [hv.1]; decide)] at hl
    exact hv.2 (UInt32.toNat_inj.mp hl.symm)
  · intro hv
    refine ⟨hk, hrm, ⟨hs, ?_⟩, ⟨hr1, ?_⟩, ⟨hd, ?_⟩⟩
    · rw [hs2]
      split
      next => rfl
      next hn => rw [ha hn]; rfl
    · rw [hr]
      split
      next => rfl
      next h1 =>
        by_cases h2 : image.header.headerVersion = 2
        · rw [not_not.mp fun hne => hv ⟨h2, hne⟩]
          rfl
        · rw [har h1 h2]
          rfl
    · rw [hd2]
      split
      next => rfl
      next h2 => rw [had h2]; rfl

end AdbFastboot
