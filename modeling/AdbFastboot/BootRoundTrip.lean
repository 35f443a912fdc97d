import AdbFastboot.BootImage

namespace AdbFastboot

open BootImageHeader List

section

variable {ps : Nat} {data rest : Bytes}

/-- A padded section is read back, and the data goes on behind its pages. -/
theorem readSection_padTo (h : PageSize ps) (name : String) {bs : Bytes} {offset : Nat}
    (hd : data.drop offset = padTo ps bs ++ rest) (hoff : offset < 2 ^ 40)
    (hle : offset ≤ data.length) (hb : bs.length < 2 ^ 32) :
    readSection name data ps offset bs.length = .ok (bs, offset + roundUp bs.length ps) ∧
      data.drop (offset + roundUp bs.length ps) = rest ∧
      offset + roundUp bs.length ps ≤ data.length := by
  have hp := padTo_length h.bounds.1 bs
  have hl := congrArg List.length hd
  rw [length_drop, length_append] at hl
  refine ⟨?_, drop_field hd (by rw [hp]), by omega⟩
  rw [readSection_eq h name hoff hle hb, if_neg (by omega), slice_padTo hd]

def parseTail (header : BootImageHeader) (data : Bytes) (ps offset : Nat)
    (kernel ramdisk second : Bytes) : Outcome BootImageError BootImage := do
  let recoveryDtbo ← readRecoveryDtbo header data ps offset
  let (dtb, _) ← readSection "dtb" data ps offset
    (if 2 ≤ header.headerVersion then header.dtbSize.toNat else 0)
  pure { header, kernel, ramdisk, second, recoveryDtbo, dtb }

variable {header : BootImageHeader} (h : PageSize ps)
  (hdecode : BootImageHeader.decode data = .ok header) (hps : parsePageSize header = ps)
include h hdecode hps

variable {hdrBytes : Nat} (hbytes : parseHeaderBytes header.headerVersion ps = .ok hdrBytes)
  (hoff : hdrBytes < 2 ^ 32) (hle : hdrBytes ≤ data.length)
include hbytes hoff hle

/-- An image that starts with three padded sections has them read off. -/
theorem parseBootImage_front {kernel ramdisk second : Bytes}
    (hd : data.drop hdrBytes = padTo ps kernel ++ (padTo ps ramdisk ++ (padTo ps second ++ rest)))
    (hkr : header.kernelSize.toNat = kernel.length)
    (hrm : header.ramdiskSize.toNat = ramdisk.length)
    (hsc : (if header.headerVersion ≤ 2 then header.secondSize.toNat else 0) = second.length) :
    ∃ offset, offset = hdrBytes + roundUp kernel.length ps + roundUp ramdisk.length ps
        + roundUp second.length ps
      ∧ offset < 2 ^ 36 ∧ offset ≤ data.length ∧ data.drop offset = rest
      ∧ parseBootImage data = parseTail header data ps offset kernel ramdisk second := by
  have hk := hkr ▸ header.kernelSize.toNat_lt
  have hr := hrm ▸ header.ramdiskSize.toNat_lt
  have hs : second.length < 2 ^ 32 := by
    rw [← hsc]
    split
    next => exact header.secondSize.toNat_lt
    next => decide
  have hp := h.bounds
  have hkn := roundUp_bounds hp.1 kernel.length
  have hrn := roundUp_bounds hp.1 ramdisk.length
  have hsr := roundUp_bounds hp.1 second.length
  obtain ⟨hk1, hk2, hk3⟩ := readSection_padTo h "kernel" hd (by omega) hle hk
  obtain ⟨hr1, hr2, hr3⟩ := readSection_padTo h "ramdisk" hk2 (by omega) hk3 hr
  obtain ⟨hs1, hs2, hs3⟩ := readSection_padTo h "second" hr2 (by omega) hr3 hs
  refine ⟨_, rfl, by omega, hs3, hs2, ?_⟩
  rw [parseBootImage_eq h hdecode hps hbytes, if_neg (by omega), parseSections, hkr, hk1, ok_bind]
  simp only
  rw [hrm, hr1, ok_bind]
  rw [hsc, hs1]
  rfl

theorem parseBootImage_sections {kernel ramdisk second dtb : Bytes} (hdp : data.drop hdrBytes
      = padTo ps kernel ++ (padTo ps ramdisk ++ (padTo ps second ++ (padTo ps dtb ++ rest))))
    (hk : header.kernelSize.toNat = kernel.length) (hrm : header.ramdiskSize.toNat = ramdisk.length)
    (hs : (if header.headerVersion ≤ 2 then header.secondSize.toNat else 0) = second.length)
    (hr : ¬(header.headerVersion = 1 ∧ 0 < header.recoveryDtboSize))
    (hdtb : (if 2 ≤ header.headerVersion then header.dtbSize.toNat else 0) = dtb.length) :
    parseBootImage data = .ok ⟨header, kernel, ramdisk, second, [], dtb⟩ := by
  have hd : dtb.length < 2 ^ 32 := by
    rw [← hdtb]
    split
    next => exact header.dtbSize.toNat_lt
    next => decide
  obtain ⟨offset, -, hsm, hi, hdp, hp⟩ :=
    parseBootImage_front h hdecode hps hbytes hoff hle hdp hk hrm hs
  obtain ⟨hd1, -, -⟩ := readSection_padTo h "dtb" hdp (by omega) hi hd
  have hn : readRecoveryDtbo header data ps offset = .ok [] := if_neg hr
  rw [hp, parseTail, hn, hdtb, hd1]
  rfl

end

theorem buildPageSize_pageSize (pageSize v : UInt32) : PageSize (buildPageSize pageSize v).toNat := by
  unfold buildPageSize
  split
  next =>
    split
    next => exact ⟨11, by decide, by decide⟩
    next hp =>
      apply pageSize_of_isPowerOfTwo
      simpa using (not_or.mp hp).1
  next => exact pageSize_4096

theorem newVersion_cases {v : UInt32} (hv : v ≤ 4) (hn : ¬v ≤ 2) : v = 3 ∨ v = 4 := by
  have hle : v.toNat ≤ 4 := UInt32.le_iff_toNat_le.mp hv
  have hgt : ¬v.toNat ≤ 2 := fun h => hn (UInt32.le_iff_toNat_le.mpr h)
  have hc : v.toNat = 3 ∨ v.toNat = 4 := by omega
  rcases hc with h | h
  · exact .inl (UInt32.toNat_inj.mp h)
  · exact .inr (UInt32.toNat_inj.mp h)

section

variable (kernel ramdisk second dtb : Bytes) (ps : UInt32) {v : UInt32}

theorem buildHeader_sizes (v : UInt32) : (buildHeader kernel ramdisk second dtb ps v).headerVersion = v ∧
      (buildHeader kernel ramdisk second dtb ps v).kernelSize = UInt32.ofNat kernel.length ∧
      (buildHeader kernel ramdisk second dtb ps v).ramdiskSize = UInt32.ofNat ramdisk.length ∧
      (buildHeader kernel ramdisk second dtb ps v).secondSize = UInt32.ofNat second.length ∧
      (buildHeader kernel ramdisk second dtb ps v).pageSize = ps := by
  unfold buildHeader
  by_cases h1 : 1 ≤ v <;> by_cases h2 : 2 ≤ v <;> simp [h1, h2]

theorem buildHeader_stored (hv : v ≤ 2) : (buildHeader kernel ramdisk second dtb ps v).Stored := by
  rcases oldVersion_cases hv with rfl | rfl | rfl
  · exact ⟨hv, fitsField_empty _, fitsField_empty _, fitsField_empty _,
      fun _ => ⟨rfl, rfl, rfl⟩, fun _ => ⟨rfl, rfl⟩⟩
  · exact ⟨hv, fitsField_empty _, fitsField_empty _, fitsField_empty _,
      fun h => absurd (UInt32.le_refl 1) h, fun _ => ⟨rfl, rfl⟩⟩
  · exact ⟨hv, fitsField_empty _, fitsField_empty _, fitsField_empty _,
      fun h => absurd (by decide : (1 : UInt32) ≤ 2) h, fun h => absurd (UInt32.le_refl 2) h⟩

theorem buildHeader_encode_length (hv : v ≤ 4) :
    (buildHeader kernel ramdisk second dtb ps v).encode.length = nativeHeaderSize v := by
  have hvr := (buildHeader_sizes kernel ramdisk second dtb ps v).1
  by_cases ho : v ≤ 2
  · obtain ⟨-, -, hl⟩ := encode_old (hvr.symm ▸ ho)
    rw [hl, hvr]
  have hn := newVersion_cases hv ho
  obtain ⟨-, -, hl⟩ := encode_new (hvr.symm ▸ hn)
  rw [hl]
  rcases hn with rfl | rfl <;> rfl

theorem buildHeader_dtbSize (hv : 2 ≤ v) :
    (buildHeader kernel ramdisk second dtb ps v).dtbSize = UInt32.ofNat dtb.length := by
  unfold buildHeader
  simp [hv]

theorem buildHeader_recoveryDtboSize (v : UInt32) :
    (buildHeader kernel ramdisk second dtb ps v).recoveryDtboSize = 0 := by
  unfold buildHeader
  by_cases hv : v ≤ 2 <;> by_cases h1 : 1 ≤ v <;> by_cases h2 : 2 ≤ v <;> simp [hv, h1, h2] <;> rfl

end

def imageOf (kernel ramdisk second dtb : Bytes) (ps v : UInt32) : Bytes :=
  padTo ps.toNat (buildHeader kernel ramdisk second dtb ps v).encode ++
    (padTo ps.toNat kernel ++ (padTo ps.toNat ramdisk ++
      (padTo ps.toNat (if v ≤ 2 then second else []) ++
        padTo ps.toNat (if 2 ≤ v then dtb else []))))

section

variable {kernel ramdisk second dtb : Bytes} {pageSize ps v : UInt32}

/-- With sections below 4 GiB an image is built. -/
theorem buildBootImage_ok (pageSize : UInt32) (hv : v ≤ 4) (hk : kernel.length < 2 ^ 32)
    (hr : ramdisk.length < 2 ^ 32) (hs : second.length < 2 ^ 32) (hd : dtb.length < 2 ^ 32) :
    buildBootImage kernel ramdisk second dtb pageSize v
      = .ok (imageOf kernel ramdisk second dtb (buildPageSize pageSize v) v) := by
  have hps := buildPageSize_pageSize pageSize v
  have hh := buildHeader_encode_length kernel ramdisk second dtb (buildPageSize pageSize v) hv
  have hsz := nativeHeaderSize_le v
  have hp {bs : Bytes} (hb : bs.length < 2 ^ 32) (p : Prop) [Decidable p] :
      (if p then bs else []).length < 2 ^ 63 := by
    split
    next => omega
    next => decide
  unfold buildBootImage
  simp only
  rw [alignUp_ok hps (by omega), paddedSection_ok hps (by omega),
    paddedSection_ok hps (by omega), paddedSection_ok hps (hp hs _),
    paddedSection_ok hps (hp hd _), ok_bind, resizeZero_roundUp hps.bounds.1]
  rfl

theorem ofNat_length_toNat {bs : Bytes} (h : bs.length < 2 ^ 32) :
    (UInt32.ofNat bs.length).toNat = bs.length :=
  UInt32.toNat_ofNat_of_lt' h

theorem imageOf_header (kernel ramdisk second dtb : Bytes) (ps v : UInt32) :
    ∃ rest, imageOf kernel ramdisk second dtb ps v
      = (buildHeader kernel ramdisk second dtb ps v).encode ++ rest := by
  rw [imageOf, padTo, append_assoc]
  exact ⟨_, rfl⟩

/-- Behind the pages of the header stand the sections of the version. -/
theorem imageOf_drop (kernel ramdisk second dtb : Bytes) (hps : PageSize ps.toNat) (hv : v ≤ 4) :
    (imageOf kernel ramdisk second dtb ps v).drop (roundUp (nativeHeaderSize v) ps.toNat)
        = padTo ps.toNat kernel ++ (padTo ps.toNat ramdisk ++
          (padTo ps.toNat (if v ≤ 2 then second else []) ++
            padTo ps.toNat (if 2 ≤ v then dtb else []))) ∧
      roundUp (nativeHeaderSize v) ps.toNat ≤ (imageOf kernel ramdisk second dtb ps v).length := by
  have hp := padTo_length hps.bounds.1 (buildHeader kernel ramdisk second dtb ps v).encode
  rw [buildHeader_encode_length kernel ramdisk second dtb ps hv] at hp
  constructor
  · rw [imageOf, ← hp, drop_left]
  · rw [imageOf, length_append, hp]
    exact Nat.le_add_right _ _

/-- A built image of version 0 to 2 gives back all its sections. -/
theorem parse_imageOf_old (hps : PageSize ps.toNat) (hv : v ≤ 2)
    (hk : kernel.length < 2 ^ 32) (hr : ramdisk.length < 2 ^ 32)
    (hs : second.length < 2 ^ 32) (hdtb : dtb.length < 2 ^ 32)
    (htl : kernel.length ≠ 3 ∧ kernel.length ≠ 4) :
    parseBootImage (imageOf kernel ramdisk second dtb ps v)
      = .ok ⟨buildHeader kernel ramdisk second dtb ps v, kernel, ramdisk, second, [],
        if 2 ≤ v then dtb else []⟩ := by
  obtain ⟨hvr, hks, hrs, hss, hp⟩ := buildHeader_sizes kernel ramdisk second dtb ps v
  obtain ⟨rest, hi⟩ := imageOf_header kernel ramdisk second dtb ps v
  obtain ⟨hd, hl⟩ := imageOf_drop kernel ramdisk second dtb hps
    (UInt32.le_trans hv (by decide))
  have ht : (buildHeader kernel ramdisk second dtb ps v).Told := by
    have hsz : (buildHeader kernel ramdisk second dtb ps v).kernelSize.toNat = kernel.length := by
      rw [hks, ofNat_length_toNat hk]
    refine ⟨fun h => htl.1 ?_, fun h => htl.2 ?_⟩ <;> rw [← hsz, h] <;> rfl
  have hrd := roundUp_bounds hps.bounds.1 (nativeHeaderSize v)
  have hn := nativeHeaderSize_le v
  have hb := hps.bounds
  rw [if_pos hv] at hd
  rw [← append_nil (padTo ps.toNat (if 2 ≤ v then dtb else []))] at hd
  refine parseBootImage_sections hps (hi ▸ decode_encode_old
    (buildHeader_stored kernel ramdisk second dtb ps hv) ht rest) ?_ ?_ ?_ hl hd ?_ ?_ ?_ ?_ ?_
  · rw [parsePageSize, hvr, if_pos hv, hp]
  · rw [parseHeaderBytes, hvr, if_pos hv, unwrapHeaderSize_ok hv, ok_bind, alignUp_ok hps (by omega)]
  · omega
  · rw [hks, ofNat_length_toNat hk]
  · rw [hrs, ofNat_length_toNat hr]
  · rw [hvr, if_pos hv, hss, ofNat_length_toNat hs]
  · rw [buildHeader_recoveryDtboSize]
    exact fun h => absurd h.2 (by decide)
  · rw [hvr]
    by_cases h2 : 2 ≤ v
    · rw [if_pos h2, if_pos h2, buildHeader_dtbSize _ _ _ _ _ h2, ofNat_length_toNat hdtb]
    · rw [if_neg h2, if_neg h2, length_nil]

/-- A built image of version 3 or 4 gives back the kernel and the ramdisk. -/
theorem parse_imageOf_new (kernel ramdisk second dtb : Bytes) (hv : v = 3 ∨ v = 4)
    (hk : kernel.length < 2 ^ 32) (hr : ramdisk.length < 2 ^ 32) :
    ∃ header, header.headerVersion = v ∧ parseBootImage (imageOf kernel ramdisk second dtb 4096 v)
        = .ok ⟨header, kernel, ramdisk, [], [], []⟩ := by
  obtain ⟨hvr, hks, hrs, hss, hp⟩ := buildHeader_sizes kernel ramdisk second dtb 4096 v
  obtain ⟨rest, hi⟩ := imageOf_header kernel ramdisk second dtb 4096 v
  have hle : v ≤ 4 := by rcases hv with rfl | rfl <;> decide
  have hn : ¬v ≤ 2 := by rcases hv with rfl | rfl <;> decide
  have hps : PageSize (4096 : UInt32).toNat := pageSize_4096
  obtain ⟨hd, hl⟩ := imageOf_drop kernel ramdisk second dtb hps hle
  have hsz : roundUp (nativeHeaderSize v) (4096 : UInt32).toNat = 4096 := by
    rcases hv with rfl | rfl <;> rfl
  have hdecode := decode_encode_new (hvr.symm ▸ hv) rest
  rw [← hi, hvr] at hdecode
  rw [hsz] at hd hl
  have hs : (imageOf kernel ramdisk second dtb 4096 v).drop 4096
      = padTo 4096 kernel ++ (padTo 4096 ramdisk ++ (padTo 4096 [] ++ (padTo 4096 [] ++
        padTo 4096 (if 2 ≤ v then dtb else [])))) := by
    rw [if_neg hn] at hd
    exact hd
  refine ⟨_, ?_, parseBootImage_sections pageSize_4096 hdecode ?_ ?_ ?_ hl hs ?_ ?_ ?_ ?_ ?_⟩
  · rfl
  · exact if_neg hn
  · exact if_neg hn
  · decide
  · simp [hks, ofNat_length_toNat hk]
  · simp [hrs, ofNat_length_toNat hr]
  · exact if_neg hn
  · exact fun h => absurd h.2 (by decide : ¬(0 : UInt32) < 0)
  · exact ite_self _

/-- What is built is parsed again into the sections that the version stores, if a kernel size of
version 0, 1 or 2 is not taken for the version number of a later one. Nothing is said of a DTB
that is given for version 3 or 4. -/
theorem parse_buildBootImage (hv : v ≤ 4) (hkernel : kernel.length < 2 ^ 32)
    (hramdisk : ramdisk.length < 2 ^ 32) (hsecond : second.length < 2 ^ 32)
    (hdtb : dtb.length < 2 ^ 32) (htold : v ≤ 2 → kernel.length ≠ 3 ∧ kernel.length ≠ 4) :
    ∃ image parsed, buildBootImage kernel ramdisk second dtb pageSize v = .ok image ∧
      parseBootImage image = .ok parsed ∧ parsed.header.headerVersion = v ∧
      parsed.kernel = kernel ∧ parsed.ramdisk = ramdisk ∧
      parsed.second = (if v ≤ 2 then second else []) ∧ parsed.recoveryDtbo = [] ∧
      (v ≤ 2 ∨ dtb = [] → parsed.dtb = if v = 2 then dtb else []) := by
  have hps := buildPageSize_pageSize pageSize v
  have hb := buildBootImage_ok pageSize hv hkernel hramdisk hsecond hdtb
  by_cases ho : v ≤ 2
  · have hdtb' : (if 2 ≤ v then dtb else []) = if v = 2 then dtb else [] := by
      rcases oldVersion_cases ho with rfl | rfl | rfl <;> rfl
    refine ⟨_, _, hb, parse_imageOf_old hps ho hkernel hramdisk hsecond hdtb (htold ho),
      ?_, rfl, rfl, ?_, rfl, ?_⟩
    · exact (buildHeader_sizes kernel ramdisk second dtb (buildPageSize pageSize v) v).1
    · rw [if_pos ho]
    · intro _
      exact hdtb'
  · have hn := newVersion_cases hv ho
    have hp : buildPageSize pageSize v = 4096 := if_neg ho
    have hv2 : v ≠ 2 := fun h => ho (h ▸ UInt32.le_refl 2)
    obtain ⟨header, hvr, hpr⟩ :=
      parse_imageOf_new kernel ramdisk second dtb hn hkernel hramdisk
    rw [hp] at hb
    refine ⟨_, _, hb, hpr, hvr, rfl, rfl, ?_, rfl, ?_⟩
    · rw [if_neg ho]
    · intro _
      rw [if_neg hv2]

end

theorem smallImage_parses : ∃ image parsed,
    buildBootImage [1, 2] [3] [4, 5, 6] [7] 4096 2 = .ok image ∧
      parseBootImage image = .ok parsed ∧ parsed.header.headerVersion = 2 ∧
      parsed.kernel = [1, 2] ∧ parsed.ramdisk = [3] ∧ parsed.second = [4, 5, 6] ∧
      parsed.recoveryDtbo = [] ∧ ((2 : UInt32) ≤ 2 ∨ [7] = ([] : List UInt8) → parsed.dtb = [7]) :=
  parse_buildBootImage (by decide) (by decide) (by decide) (by decide) (by decide) (by decide)

/-- A kernel of three bytes is taken for the version number 3; and a DTB built into an image of
version 3 is not found again. -/
theorem smallImages_lose : (∃ image e, buildBootImage [1, 2, 3] [] [] [] 2048 0 = .ok image ∧
      parseBootImage image = fail e) ∧
    ∃ image header, buildBootImage [] [] [] [7] 4096 3 = .ok image ∧
      parseBootImage image = .ok ⟨header, [], [], [], [], []⟩ := by
  constructor
  · have hp : parseBootImage (imageOf [1, 2, 3] [] [] [] (buildPageSize 2048 0) 0)
        = fail (.sectionBounds "kernel" 4096 32768 4096) := by decide +kernel
    exact ⟨_, _, buildBootImage_ok _ (by decide) (by decide) (by decide) (by decide) (by decide),
      hp⟩
  · obtain ⟨header, -, hp⟩ := parse_imageOf_new [] [] [] [7] (.inl rfl) (by decide) (by decide)
    exact ⟨_, header, buildBootImage_ok _ (by decide) (by decide) (by decide) (by decide)
      (by decide), hp⟩

end AdbFastboot
