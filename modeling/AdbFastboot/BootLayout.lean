import AdbFastboot.BootRoundTrip

namespace AdbFastboot

def BootImageHeader.StoredNew (h : BootImageHeader) : Prop :=
  h = { BootImageHeader.newV3 with
    headerVersion := h.headerVersion
    kernelSize := h.kernelSize
    ramdiskSize := h.ramdiskSize
    osVersion := h.osVersion }

/-- A header whose fields are all stored, or filled in by the decoder, is read back. -/
theorem header_read_back (h : BootImageHeader) (hv : h.headerVersion ≤ 4)
    (hold : h.headerVersion ≤ 2 → h.Stored ∧ h.Told)
    (hnew : ¬ h.headerVersion ≤ 2 → h.StoredNew) (rest : List UInt8) :
    BootImageHeader.decode (h.encode ++ rest) = .ok h := by
  by_cases hvr : h.headerVersion ≤ 2
  · obtain ⟨hs, ht⟩ := hold hvr
    exact BootImageHeader.decode_encode_old hs ht rest
  · rw [BootImageHeader.decode_encode_new (newVersion_cases hv hvr)]
    exact congrArg _ (hnew hvr).symm

theorem header_read_back_v2 :
    BootImageHeader.decode ((buildHeader [1] [] [] [7] 2048 2).encode ++ [5])
      = .ok (buildHeader [1] [] [] [7] 2048 2) :=
  header_read_back _ (by decide)
    (fun _ => ⟨buildHeader_stored _ _ _ _ _ (by decide), by decide, by decide⟩)
    (fun h => absurd (by decide) h) [5]

namespace BootImage

variable (image : BootImage)

def pageBytes : Nat := image.header.pageSize.toNat

def thirdStart : Nat :=
  roundUp (nativeHeaderSize image.header.headerVersion) image.pageBytes
    + roundUp image.kernel.length image.pageBytes + roundUp image.ramdisk.length image.pageBytes
    + roundUp image.second.length image.pageBytes

def layout : Bytes :=
  let pad := padTo image.pageBytes
  pad image.header.encode ++ (pad image.kernel ++ (pad image.ramdisk ++ (pad image.second
    ++ (pad image.recoveryDtbo ++ pad image.dtb))))

structure WellFormed : Prop where
  version : image.header.headerVersion = 1 ∨ image.header.headerVersion = 2
  stored : image.header.Stored
  told : image.header.Told
  pages : isPowerOfTwo image.header.pageSize.toNat = true
  kernel : image.header.kernelSize.toNat = image.kernel.length
  ramdisk : image.header.ramdiskSize.toNat = image.ramdisk.length
  second : image.header.secondSize.toNat = image.second.length
  recoveryDtbo : image.header.recoveryDtboSize.toNat = image.recoveryDtbo.length
  recoveryOffset : image.recoveryDtbo ≠ [] →
    image.header.recoveryDtboOffset.toNat = image.thirdStart
  dtb : image.header.dtbSize.toNat = image.dtb.length

variable {image}

theorem WellFormed.old (h : image.WellFormed) : image.header.headerVersion ≤ 2 := h.stored.version

variable {header : BootImageHeader} {data : Bytes} {offset : Nat}

/-- Version 1 reads the recovery section that stands where the header says. -/
theorem readRecoveryDtbo_layout {ps : Nat} (hps : PageSize ps) {recovery rest : Bytes}
    (hv : header.headerVersion = 1) (hs : header.recoveryDtboSize.toNat = recovery.length)
    (ho : recovery ≠ [] → header.recoveryDtboOffset.toNat = offset)
    (hsm : offset < 2 ^ 36) (hi : offset ≤ data.length)
    (hd : data.drop offset = padTo ps recovery ++ rest) :
    readRecoveryDtbo header data ps offset = .ok recovery := by
  have hlt := header.recoveryDtboSize.toNat_lt
  have hpad := padTo_length hps.bounds.1 recovery
  have hr := roundUp_bounds hps.bounds.1 recovery.length
  have hp3 := hps.bounds.2
  have hl := congrArg List.length hd
  rw [List.length_drop, List.length_append] at hl
  unfold readRecoveryDtbo
  by_cases hn : recovery = []
  · have hz : ¬ (header.headerVersion = 1 ∧ 0 < header.recoveryDtboSize) := by
      rintro ⟨-, hp⟩
      have hp := UInt32.lt_iff_toNat_lt.mp hp
      rw [hs, hn] at hp
      cases hp
    rw [if_neg hz, hn]
    rfl
  · have hp := List.length_pos_of_ne_nil hn
    have hpr : 0 < header.recoveryDtboSize := by
      apply UInt32.lt_iff_toNat_lt.mpr
      rw [hs]
      exact hp
    have hi' : ¬ (2 ^ 64 ≤ offset + roundUp recovery.length ps
        ∨ data.length < offset + roundUp recovery.length ps) := by omega
    rw [if_pos ⟨hv, hpr⟩, hs, alignUp_ok hps (by omega), ok_bind, ho hn,
      if_neg (Nat.lt_irrefl offset), if_neg hi', addUsize_ok (by omega), ok_bind,
      sliceAt_ok (by omega) (by omega), slice_padTo hd]

/-- The first three sections of a layout are read, and the rest is behind them. -/
theorem parse_layout_front (h : image.WellFormed) (rest : Bytes) :
    ∃ offset, offset = image.thirdStart ∧ offset < 2 ^ 36 ∧ offset ≤ (image.layout ++ rest).length
      ∧ (image.layout ++ rest).drop offset
        = padTo image.pageBytes image.recoveryDtbo ++ (padTo image.pageBytes image.dtb ++ rest)
      ∧ parseBootImage (image.layout ++ rest) = parseTail image.header (image.layout ++ rest)
        image.pageBytes offset image.kernel image.ramdisk image.second := by
  have hps : PageSize image.pageBytes := pageSize_of_isPowerOfTwo h.pages
  have hb := hps.bounds
  have hn := nativeHeaderSize_le image.header.headerVersion
  have hr := roundUp_bounds hb.1 (nativeHeaderSize image.header.headerVersion)
  obtain ⟨-, -, he⟩ := BootImageHeader.encode_old h.old
  have hp := padTo_length hb.1 image.header.encode
  rw [he] at hp
  have hd : image.layout ++ rest = padTo image.pageBytes image.header.encode
      ++ (padTo image.pageBytes image.kernel ++ (padTo image.pageBytes image.ramdisk
        ++ (padTo image.pageBytes image.second ++ (padTo image.pageBytes image.recoveryDtbo
          ++ (padTo image.pageBytes image.dtb ++ rest))))) := by
    simp [layout]
  have hdc : BootImageHeader.decode (image.layout ++ rest) = .ok image.header := by
    rw [hd, padTo, List.append_assoc]
    exact BootImageHeader.decode_encode_old h.stored h.told _
  refine parseBootImage_front hps hdc ?_ ?_ ?_ ?_ ?_ h.kernel h.ramdisk ?_
  · exact if_pos h.old
  · rw [parseHeaderBytes, if_pos h.old, unwrapHeaderSize_ok h.old, ok_bind, alignUp_ok hps (by omega)]
  · omega
  · rw [hd, List.length_append, hp]
    exact Nat.le_add_right _ _
  · rw [hd, ← hp, List.drop_left]
  · rw [if_pos h.old, h.second]

theorem readRecoveryDtbo_v2 {ps : Nat} (hv : header.headerVersion = 2) :
    readRecoveryDtbo header data ps offset = .ok [] := by
  refine if_neg ?_
  rintro ⟨ho, -⟩
  rw [hv] at ho
  cases ho

theorem parseTail_v2 {ps : Nat} {kernel ramdisk second : Bytes} (hv : header.headerVersion = 2)
    (ho : parseTail header data ps offset kernel ramdisk second = .ok image) :
    image.recoveryDtbo = [] := by
  rw [parseTail, readRecoveryDtbo_v2 hv, ok_bind] at ho
  obtain ⟨⟨dtb, next⟩, -, hp⟩ := bind_eq_ok.mp ho
  cases hp
  rfl

/-- The sections are found if and only if there is no recovery DTBO in an image of version 2. -/
theorem layout_parsed_iff (image : BootImage) (h : image.WellFormed) (rest : List UInt8) :
    parseBootImage (image.layout ++ rest) = .ok image
      ↔ image.header.headerVersion = 1 ∨ image.recoveryDtbo = [] := by
  have hps : PageSize image.pageBytes := pageSize_of_isPowerOfTwo h.pages
  have hdtb := h.dtb ▸ image.header.dtbSize.toNat_lt
  obtain ⟨offset, hth, hs, hi, hd, hp⟩ := parse_layout_front h rest
  obtain ho | ht := h.version
  · have hr := readRecoveryDtbo_layout hps ho h.recoveryDtbo
      (by rw [hth]; exact h.recoveryOffset) hs hi hd
    have hno : ¬ (2 : UInt32) ≤ image.header.headerVersion := by
      rw [ho]
      decide
    have hn : image.dtb = [] := by
      apply List.eq_nil_of_length_eq_zero
      rw [← h.dtb, (h.stored.v2 hno).1]
      rfl
    rw [hp, parseTail, hr, if_neg hno]
    refine iff_of_true ?_ (.inl ho)
    show Except.ok _ = _
    rw [← hn]
  · constructor
    · intro hok
      rw [hp] at hok
      exact .inr (parseTail_v2 ht hok)
    · rintro (ho | hn)
      · rw [ht] at ho
        cases ho
      · have hy : (2 : UInt32) ≤ image.header.headerVersion := by
          rw [ht]
          decide
        rw [hn, padTo_nil] at hd
        obtain ⟨hrd, -, -⟩ := readSection_padTo hps "dtb" hd (by omega) hi hdtb
        rw [hp, parseTail, readRecoveryDtbo_v2 ht, if_pos hy, h.dtb, hrd, ← hn]
        rfl

def dtboImage (v : UInt32) (dtb : Bytes) : BootImage where
  header :=
    { buildHeader [1] [2] [3] dtb 2048 v with
      recoveryDtboSize := 1
      recoveryDtboOffset := 8192 }
  kernel := [1]
  ramdisk := [2]
  second := [3]
  recoveryDtbo := [9]
  dtb := dtb

theorem layout_parsed_v1 : (dtboImage 1 []).WellFormed
    ∧ parseBootImage ((dtboImage 1 []).layout ++ []) = .ok (dtboImage 1 []) := by
  have h : (dtboImage 1 []).WellFormed :=
    { version := .inl rfl
      stored := ⟨by decide, fitsField_empty _, fitsField_empty _, fitsField_empty _,
        fun hn => absurd (by decide) hn, fun _ => ⟨rfl, rfl⟩⟩
      told := ⟨by decide, by decide⟩
      pages := by decide
      kernel := rfl
      ramdisk := rfl
      second := rfl
      recoveryDtbo := rfl
      recoveryOffset := fun _ => rfl
      dtb := rfl }
  exact ⟨h, (layout_parsed_iff _ h []).mpr (.inl rfl)⟩

/-- In an image of version 2 the recovery DTBO is passed over and then taken for the DTB. -/
theorem layout_parsed_not : (dtboImage 2 [7]).WellFormed
    ∧ parseBootImage ((dtboImage 2 [7]).layout ++ [])
      = .ok { dtboImage 2 [7] with recoveryDtbo := [], dtb := [9] } := by
  have h : (dtboImage 2 [7]).WellFormed :=
    { version := .inr rfl
      stored := ⟨by decide, fitsField_empty _, fitsField_empty _, fitsField_empty _,
        fun hn => absurd (by decide) hn, fun hn => absurd (by decide) hn⟩
      told := ⟨by decide, by decide⟩
      pages := by decide
      kernel := rfl
      ramdisk := rfl
      second := rfl
      recoveryDtbo := rfl
      recoveryOffset := fun _ => rfl
      dtb := rfl }
  refine ⟨h, ?_⟩
  have hps := pageSize_of_isPowerOfTwo h.pages
  obtain ⟨offset, -, hs, hi, hd, hp⟩ := parse_layout_front h []
  obtain ⟨hr, -, -⟩ := readSection_padTo hps "dtb" hd (by omega) hi (by decide)
  have hsz : (if (2 : UInt32) ≤ (dtboImage 2 [7]).header.headerVersion then
      (dtboImage 2 [7]).header.dtbSize.toNat else 0) = [(9 : UInt8)].length := rfl
  rw [hp, parseTail, readRecoveryDtbo_v2 rfl, ok_bind]
  exact congrArg (· >>= _) hr

end BootImage

end AdbFastboot
