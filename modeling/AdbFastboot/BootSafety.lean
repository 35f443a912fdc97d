import AdbFastboot.BootStated

namespace AdbFastboot

open BootImageHeader

section

variable {ps : Nat} {data : Bytes}

variable (h : PageSize ps)
include h

/-- A section within 32 bits is read or refused, and ends within the data. -/
theorem readSection_noPanic (name : String) {offset size : Nat} (ho : offset < 2 ^ 40)
    (hle : offset ≤ data.length) (hs : size < 2 ^ 32) :
    NoPanic (readSection name data ps offset size) ∧
      ∀ bs next, readSection name data ps offset size = .ok (bs, next) →
        next = offset + roundUp size ps ∧ next ≤ data.length := by
  rw [readSection_eq h name ho hle hs]
  split
  next => exact ⟨noPanic_fail _, fun _ _ h => by simp at h⟩
  next hf =>
    refine ⟨noPanic_ok _, fun bs next h => ?_⟩
    obtain ⟨-, rfl⟩ := Prod.mk.inj (Except.ok.inj h)
    exact ⟨rfl, by omega⟩

theorem readRecoveryDtbo_noPanic (header : BootImageHeader) (data : Bytes) (offset : Nat) :
    NoPanic (readRecoveryDtbo header data ps offset) := by
  have hs := header.recoveryDtboSize.toNat_lt
  have hr := roundUp_bounds h.bounds.1 header.recoveryDtboSize.toNat
  unfold readRecoveryDtbo
  split
  next =>
    rw [alignUp_ok h (by omega)]
    apply noPanic_guard
    intro _
    apply noPanic_guard
    intro hf
    rw [addUsize_ok (by omega), ok_bind, sliceAt_ok (by omega) (by omega)]
    exact noPanic_ok _
  next => exact noPanic_ok _

theorem parseSections_noPanic (header : BootImageHeader) {hd : Nat}
    (hlt : hd < 2 ^ 32) (hle : hd ≤ data.length) :
    NoPanic (parseSections header data ps hd) := by
  have hb := h.bounds
  have hsc : (if header.headerVersion ≤ 2 then header.secondSize.toNat else 0) < 2 ^ 32 := by
    split
    next => exact header.secondSize.toNat_lt
    next => decide
  have hdtb : (if 2 ≤ header.headerVersion then header.dtbSize.toNat else 0) < 2 ^ 32 := by
    split
    next => exact header.dtbSize.toNat_lt
    next => decide
  have hrd (n : Nat) := roundUp_bounds h.bounds.1 n
  have hk := hrd header.kernelSize.toNat
  have hr := hrd header.ramdiskSize.toNat
  have hs := hrd (if header.headerVersion ≤ 2 then header.secondSize.toNat else 0)
  have hklt := header.kernelSize.toNat_lt
  have hrlt := header.ramdiskSize.toNat_lt
  obtain ⟨hnoK, hn⟩ := readSection_noPanic h "kernel" (by omega) hle hklt
  refine noPanic_bind hnoK fun ⟨kernel, offK⟩ ho => ?_
  obtain ⟨hok, hl⟩ := hn kernel offK ho
  obtain ⟨hnoR, hnr⟩ := readSection_noPanic h "ramdisk" (by omega) hl hrlt
  refine noPanic_bind hnoR fun ⟨ramdisk, offR⟩ hokR => ?_
  obtain ⟨hor, hleR⟩ := hnr ramdisk offR hokR
  obtain ⟨hnoS, hns⟩ := readSection_noPanic h "second" (by omega) hleR hsc
  refine noPanic_bind hnoS fun ⟨second, offS⟩ hokS => ?_
  obtain ⟨hos, hleS⟩ := hns second offS hokS
  refine noPanic_bind (readRecoveryDtbo_noPanic h header data offS) fun recoveryDtbo _ => ?_
  obtain ⟨hnoD, -⟩ := readSection_noPanic h "dtb" (by omega) hleS hdtb
  exact noPanic_bind hnoD fun ⟨dtb, _⟩ _ => noPanic_ok _

theorem parseSections_v2 {header : BootImageHeader} {hd : Nat} (hlt : hd < 2 ^ 32)
    (hle : hd ≤ data.length) (hv : header.headerVersion = 2) :
    (∃ image, parseSections header data ps hd = .ok image) ↔
      hd + roundUp header.kernelSize.toNat ps + roundUp header.ramdiskSize.toNat ps
        + roundUp header.secondSize.toNat ps + roundUp header.dtbSize.toNat ps ≤ data.length := by
  have hb := h.bounds
  have hk := roundUp_bounds h.bounds.1 header.kernelSize.toNat
  have hr := roundUp_bounds h.bounds.1 header.ramdiskSize.toNat
  have hs := roundUp_bounds h.bounds.1 header.secondSize.toNat
  have hklt := header.kernelSize.toNat_lt
  have hrlt := header.ramdiskSize.toNat_lt
  have hslt := header.secondSize.toNat_lt
  have hdlt := header.dtbSize.toNat_lt
  have hn (offset : Nat) : readRecoveryDtbo header data ps offset = .ok [] :=
    if_neg fun hone => absurd (hv.symm.trans hone.1) (by decide)
  unfold parseSections
  rw [if_pos (by rw [hv]; decide), if_pos (by rw [hv]; decide)]
  constructor
  · intro hi
    obtain ⟨image, h'⟩ := hi
    obtain ⟨⟨kernel, offK⟩, hokK, h'⟩ := bind_eq_ok.mp h'
    obtain ⟨hok, hl⟩ := (readSection_noPanic h "kernel" (by omega) hle hklt).2 _ _ hokK
    obtain ⟨⟨ramdisk, offR⟩, hokR, h'⟩ := bind_eq_ok.mp h'
    obtain ⟨hor, hleR⟩ := (readSection_noPanic h "ramdisk" (by omega) hl hrlt).2 _ _ hokR
    obtain ⟨⟨second, offS⟩, hokS, h'⟩ := bind_eq_ok.mp h'
    obtain ⟨hos, hleS⟩ := (readSection_noPanic h "second" (by omega) hleR hslt).2 _ _ hokS
    obtain ⟨recoveryDtbo, -, h'⟩ := bind_eq_ok.mp h'
    obtain ⟨⟨dtb, offD⟩, ho, -⟩ := bind_eq_ok.mp h'
    obtain ⟨hod, hleD⟩ := (readSection_noPanic h "dtb" (by omega) hleS hdlt).2 _ _ ho
    omega
  · intro hf
    rw [readSection_eq h "kernel" (by omega) hle hklt, if_neg (by omega), ok_bind]
    simp only
    rw [readSection_eq h "ramdisk" (by omega) (by omega) hrlt, if_neg (by omega), ok_bind]
    rw [readSection_eq h "second" (by omega) (by omega) hslt, if_neg (by omega), ok_bind]
    simp only
    rw [hn, readSection_eq h "dtb" (by omega) (by omega) hdlt, if_neg (by omega)]
    exact ⟨_, rfl⟩

end

/-- Data that end between the two places where the version is looked for. -/
structure ShortOldHeader (data : Bytes) : Prop where
  start : BootStart data
  old : ¬NewVersion data
  short : data.length < 44

/-- A complete image of version 2 with a recovery DTBO, which the parser leaves out. -/
structure UnreadDtbo (data : Bytes) : Prop where
  start : BootStart data
  old : ¬NewVersion data
  version : u32At data 40 = 2
  recoveryDtbo : u32At data 1632 ≠ 0
  header : 1664 ≤ data.length
  page : isPowerOfTwo (u32At data 36).toNat = true
  sections : roundUp 1664 (u32At data 36).toNat
    + roundUp (u32At data 8).toNat (u32At data 36).toNat
    + roundUp (u32At data 16).toNat (u32At data 36).toNat
    + roundUp (u32At data 24).toNat (u32At data 36).toNat
    + roundUp (u32At data 1648).toNat (u32At data 36).toNat ≤ data.length

/-- Only an old header of fewer than 44 bytes makes `decode` panic. -/
theorem BootImageHeader.decode_noPanic_iff (data : Bytes) :
    NoPanic (BootImageHeader.decode data) ↔ ¬ShortOldHeader data := by
  by_cases hs : BootStart data
  · rw [decode_eq hs]
    split
    next hn =>
      rw [decodeV3V4_eq]
      exact iff_of_true (noPanic_guard fun _ => noPanic_ok _) fun h => h.old hn
    next ho =>
      split
      next hsh => exact iff_of_false not_noPanic_panicked fun h => h ⟨hs, ho, hsh⟩
      next hl =>
        refine iff_of_true ?_ fun h => hl h.short
        split
        next hv =>
          rw [decodeV0V1V2_eq hv]
          exact noPanic_guard fun _ => noPanic_ok _
        next => exact noPanic_fail _
  · obtain ⟨e, he⟩ := decode_refuses hs
    rw [he]
    exact iff_of_true (noPanic_fail e) fun h => hs h.start

/-- Behind the header nothing panics. -/
theorem parseBootImage_noPanic {data : Bytes}
    (h : NoPanic (BootImageHeader.decode data)) : NoPanic (parseBootImage data) := by
  cases hd : BootImageHeader.decode data with
  | ok header =>
    rcases parseBootImage_layout hd with ⟨e, he⟩ | ⟨hdb, hp, -, hlt, hle, hs⟩
    · rw [he]
      exact noPanic_fail e
    · rw [hs]
      exact parseSections_noPanic hp header hlt hle
  | error e =>
    unfold parseBootImage
    split
    next => exact noPanic_fail _
    next => exact noPanic_bind h fun header ho => absurd (hd.symm.trans ho) (by simp)

/-- The data of a version 2 image states a recovery section that is not read. -/
theorem unreadDtbo_iff (data : Bytes) : UnreadDtbo data ↔ ∃ image, parseBootImage data = .ok image ∧
      image.header.headerVersion = 2 ∧ image.header.recoveryDtboSize ≠ 0 := by
  have hnt : nativeHeaderSize 2 = 1664 := rfl
  constructor
  · intro h
    obtain ⟨hst, ho, hvr, hr, hhd, hpa, hs⟩ := h
    have hd : BootImageHeader.decode data = .ok (oldHeaderAt data 2) := by
      rw [decode_eq hst, if_neg ho, if_neg (by omega), hvr,
        if_pos (UInt32.le_refl 2), decodeV0V1V2_eq (UInt32.le_refl 2),
        if_neg (by omega)]
    have hv : (oldHeaderAt data 2).headerVersion = 2 := hvr
    have hp := pageSize_of_isPowerOfTwo hpa
    have hrd := roundUp_bounds hp.bounds.1 1664
    have hbn := hp.bounds
    have hpg : parsePageSize (oldHeaderAt data 2) = (u32At data 36).toNat :=
      if_pos (by rw [hv]; decide)
    have hb : parseHeaderBytes (oldHeaderAt data 2).headerVersion (u32At data 36).toNat
        = .ok (roundUp 1664 (u32At data 36).toNat) := by
      rw [hv, parseHeaderBytes, if_pos (UInt32.le_refl 2), unwrapHeaderSize_ok (UInt32.le_refl 2),
        ok_bind, hnt, alignUp_ok hp (by omega)]
    obtain ⟨image, hi⟩ : ∃ image, parseSections (oldHeaderAt data 2) data
        (u32At data 36).toNat (roundUp 1664 (u32At data 36).toNat) = .ok image :=
      (parseSections_v2 hp (by omega) (by omega) hv).mpr hs
    obtain ⟨hsm, -⟩ := parseSections_stated hi
    refine ⟨image, ?_, by rw [hsm, hv], by rw [hsm]; exact hr⟩
    rw [parseBootImage_eq hp hd hpg hb, if_neg (by omega), hi]
  · intro h
    obtain ⟨image, hok, hv, hr⟩ := h
    obtain ⟨hdb, hd, hp, hb, hlt, hle, hsec⟩ := parseBootImage_ok hok
    obtain ⟨hst, ⟨hn, hh⟩ | ⟨ho, -, hhd, hh⟩⟩ := decode_ok_cases hd
    · have h8 : u32At data 8 = 2 := by
        rw [hh] at hv
        exact hv
      rw [NewVersion, h8] at hn
      exact absurd hn (by decide)
    · have hvr : u32At data 40 = 2 := by
        rw [hh] at hv
        exact hv
      rw [hvr] at hhd hh
      have hpg : parsePageSize image.header = (u32At data 36).toNat := by
        rw [hh]
        exact if_pos (by rw [show (oldHeaderAt data 2).headerVersion = 2 from hvr]; decide)
      rw [hpg] at hp hb hsec
      have hs := (parseSections_v2 hp hlt hle hv).mp ⟨image, hsec⟩
      rw [hv, parseHeaderBytes, unwrapHeaderSize_ok (UInt32.le_refl 2),
        ok_bind, alignUp_ok hp (by omega)] at hb
      cases hb
      rw [hh] at hs hr
      exact ⟨hst, ho, hvr, hr, by omega, hp.isPowerOfTwo, hs⟩

/-- The decoder and the parser return without a panic, and the parser the sections as the header
states them, but for two kinds of data. -/
theorem parseBootImage_safe_iff (data : List UInt8) :
    (NoPanic (BootImageHeader.decode data) ∧ NoPanic (parseBootImage data) ∧
      ∀ image, parseBootImage data = .ok image → image.SectionsStated data) ↔
    ¬ShortOldHeader data ∧ ¬UnreadDtbo data := by
  constructor
  · intro h
    obtain ⟨hd, -, hs⟩ := h
    refine ⟨(decode_noPanic_iff data).mp hd, fun hu => ?_⟩
    obtain ⟨image, ho, hv⟩ := (unreadDtbo_iff data).mp hu
    exact (sectionsStated_iff ho).mp (hs image ho) hv
  · intro h
    have hd := (decode_noPanic_iff data).mpr h.1
    refine ⟨hd, parseBootImage_noPanic hd, fun image ho => ?_⟩
    rw [sectionsStated_iff ho]
    exact fun hv => h.2 ((unreadDtbo_iff data).mpr ⟨image, ho, hv⟩)

theorem builtImage_safe : NoPanic (BootImageHeader.decode (imageOf [1, 2] [] [] [] 2048 0)) ∧
    NoPanic (parseBootImage (imageOf [1, 2] [] [] [] 2048 0)) ∧
    ∀ image, parseBootImage (imageOf [1, 2] [] [] [] 2048 0) = .ok image →
      image.SectionsStated (imageOf [1, 2] [] [] [] 2048 0) := by
  apply (parseBootImage_safe_iff _).mpr
  have hs := buildHeader_stored [1, 2] [] [] [] 2048 (v := 0) (by decide)
  obtain ⟨rest, hi⟩ := imageOf_header [1, 2] [] [] [] 2048 0
  have hf := oldHeaderAt_encode hs rest
  have hl := buildHeader_encode_length [1, 2] [] [] [] 2048 (v := 0) (by decide)
  have hn : nativeHeaderSize 0 = 1632 := rfl
  rw [hi]
  refine ⟨fun h => ?_, fun h => ?_⟩
  · have hsh := h.short
    rw [List.length_append] at hsh
    omega
  · have hv := congrArg headerVersion hf
    exact absurd (h.version.symm.trans hv) (by decide)

def dtboHeader : BootImageHeader :=
  { BootImageHeader.newV0 with headerVersion := 2, recoveryDtboSize := 1 }

/-- Data of twelve bytes make the decoder panic; and the parser returns no recovery DTBO for an
image of version 2 that has one. -/
theorem bootImages_unsafe : ¬NoPanic (BootImageHeader.decode (bootMagic ++ [0, 0, 0, 0])) ∧
    ∃ image, parseBootImage (padTo 2048 dtboHeader.encode) = .ok image ∧
      ¬image.SectionsStated (padTo 2048 dtboHeader.encode) := by
  have hp : parseBootImage (padTo 2048 dtboHeader.encode)
      = .ok ⟨dtboHeader, [], [], [], [], []⟩ := by decide +kernel
  refine ⟨?_, _, hp, fun h => ?_⟩
  · rw [decode_noPanic_iff]
    exact fun h => h ⟨⟨by decide, by decide⟩, by decide, by decide⟩
  · exact absurd h.recoveryDtbo.2 (by decide)

end AdbFastboot
