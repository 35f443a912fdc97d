import AdbFastboot.BootHeader

namespace AdbFastboot

open BootImageHeader

theorem oldVersion_cases {v : UInt32} (h : v ≤ 2) : v = 0 ∨ v = 1 ∨ v = 2 := by
  have hle : v.toNat ≤ 2 := UInt32.le_iff_toNat_le.mp h
  have hc : v.toNat = 0 ∨ v.toNat = 1 ∨ v.toNat = 2 := by omega
  rcases hc with hv | hv | hv
  · exact .inl (UInt32.toNat_inj.mp hv)
  · exact .inr (.inl (UInt32.toNat_inj.mp hv))
  · exact .inr (.inr (UInt32.toNat_inj.mp hv))

theorem nativeHeaderSize_ge {v : UInt32} (h : v ≤ 2) : 1632 ≤ nativeHeaderSize v := by
  rcases oldVersion_cases h with rfl | rfl | rfl <;> decide

theorem nativeHeaderSize_le (v : UInt32) : nativeHeaderSize v ≤ 4096 := by
  unfold nativeHeaderSize
  split
  next ver _ => cases ver <;> decide
  next => omega

variable {data : Bytes} {version : UInt32} {h : BootImageHeader}

theorem readFixedString_ok {off len : Nat} (h : off + len ≤ data.length) :
    readFixedString data off len = .ok (fixedString (slice data off (off + len))) := by
  rw [readFixedString, sliceAt_ok (by omega) h]
  rfl

section

variable (hv : version ≤ 2)
include hv

theorem unwrapHeaderSize_ok : unwrapHeaderSize version = .ok (nativeHeaderSize version) := by
  rcases oldVersion_cases hv with rfl | rfl | rfl <;> rfl

theorem readFieldsV1_ok (hl : nativeHeaderSize version ≤ data.length) :
    readFieldsV1 data version = .ok (if 1 ≤ version then u32At data 1632 else 0,
      if 1 ≤ version then u64At data 1636 else 0, if 1 ≤ version then u32At data 1644 else 0) := by
  have h0 : bootImageHeaderV0Size = 1632 := rfl
  unfold readFieldsV1
  split
  next ho =>
    have hs : 1648 ≤ nativeHeaderSize version := by
      rcases oldVersion_cases hv with rfl | rfl | rfl
      · exact absurd ho (by decide)
      · decide
      · decide
    simp (disch := omega) only [readU32_ok, readU64_ok]
    rfl
  next => rfl

theorem readFieldsV2_ok (hl : nativeHeaderSize version ≤ data.length) :
    readFieldsV2 data version = .ok (if 2 ≤ version then u32At data 1648 else 0,
      if 2 ≤ version then u64At data 1652 else 0) := by
  have h1 : bootImageHeaderV1Size = 1648 := rfl
  unfold readFieldsV2
  split
  next ht =>
    have hs : 1664 ≤ nativeHeaderSize version := by
      rcases oldVersion_cases hv with rfl | rfl | rfl
      · exact absurd ht (by decide)
      · exact absurd ht (by decide)
      · decide
    rw [readU32_ok (by omega), readU64_ok (by omega)]
    rfl
  next => rfl

/-- An old header is read where its version's length is there, and refused otherwise. -/
theorem BootImageHeader.decodeV0V1V2_eq :
    decodeV0V1V2 data version = if data.length < nativeHeaderSize version then
          fail (.bufferTooShort (nativeHeaderSize version) data.length)
        else .ok (oldHeaderAt data version) := by
  have hn : bootNameSize = 16 := rfl
  have ha : bootArgsSize = 512 := rfl
  have hi : bootIdSize = 32 := rfl
  have hextra : bootExtraArgsSize = 1024 := rfl
  have hge := nativeHeaderSize_ge hv
  unfold decodeV0V1V2
  rw [unwrapHeaderSize_ok hv, ok_bind]
  split
  next => rfl
  next hl =>
    simp (disch := omega) only [readU32_ok, readFixedString_ok, sliceAt_ok, readFieldsV1_ok hv,
      readFieldsV2_ok hv]
    rfl

end

theorem BootImageHeader.decodeV3V4_eq (data : Bytes) (version : UInt32) :
    decodeV3V4 data version = if data.length < 4096 then fail (.bufferTooShort 4096 data.length)
        else .ok (newHeaderAt data version) := by
  have h3 : bootImageHeaderV3Size = 4096 := rfl
  unfold decodeV3V4
  rw [h3]
  split
  next => rfl
  next hl =>
    simp (disch := omega) only [readU32_ok]
    rfl

structure BootStart (data : Bytes) : Prop where
  length : 12 ≤ data.length
  magic : slice data 0 8 = bootMagic

/-- The first field is taken for the version, which is then 3 or 4. -/
def NewVersion (data : Bytes) : Prop := u32At data 8 = 3 ∨ u32At data 8 = 4

instance (data : Bytes) : Decidable (NewVersion data) :=
  inferInstanceAs (Decidable (_ ∨ _))

/-- Behind the magic, `decode` looks at one of two places for the version. -/
theorem BootImageHeader.decode_eq (h : BootStart data) :
    BootImageHeader.decode data = if NewVersion data then decodeV3V4 data (u32At data 8)
        else if data.length < 44 then panicked
        else if u32At data 40 ≤ 2 then decodeV0V1V2 data (u32At data 40)
        else fail (.unsupportedVersion (u32At data 40)) := by
  have hl := h.length
  have hm : bootMagic.length = 8 := rfl
  unfold BootImageHeader.decode
  rw [if_neg (by omega), sliceAt_ok (by omega) (by omega), ok_bind, if_neg (by simp [h.magic]),
    if_neg (by omega), readU32_ok (by omega), ok_bind]
  split
  next hn =>
    have hver : NewVersion data := hn
    rw [if_pos hver]
  next ho =>
    have hver : ¬NewVersion data := ho
    rw [if_neg hver]
    split
    next hs =>
      have hp : (readU32 data 40 : Outcome BootImageError _) = panicked := by
        rw [readU32, sliceAt, if_neg (by omega)]
        rfl
      rw [hp]
      rfl
    next hln =>
      rw [readU32_ok (by omega), ok_bind]

/-- Data without the magic, or too short for it, is refused. -/
theorem BootImageHeader.decode_refuses (h : ¬BootStart data) :
    ∃ e, BootImageHeader.decode data = fail e := by
  have hmg : bootMagic.length = 8 := rfl
  unfold BootImageHeader.decode
  split
  next => exact ⟨_, rfl⟩
  next h8 =>
    rw [sliceAt_ok (by omega) (by omega), ok_bind]
    split
    next => exact ⟨_, rfl⟩
    next hm =>
      split
      next => exact ⟨_, rfl⟩
      next h12 => exact absurd ⟨by omega, not_not.mp hm⟩ h

/-- Every field of a header of version 0, 1 or 2 is stored: its texts fit, and the fields its
version does not have hold what is read for them. -/
structure BootImageHeader.Stored (h : BootImageHeader) : Prop where
  version : h.headerVersion ≤ 2
  name : FitsField h.name bootNameSize
  cmdline : FitsField h.cmdline bootArgsSize
  extraCmdline : FitsField h.extraCmdline bootExtraArgsSize
  v1 : ¬1 ≤ h.headerVersion →
    h.recoveryDtboSize = 0 ∧ h.recoveryDtboOffset = 0 ∧ h.bootHeaderSize = 0
  v2 : ¬2 ≤ h.headerVersion → h.dtbSize = 0 ∧ h.dtbAddr = 0

theorem idOfBytes_toList (id : Vector UInt8 bootIdSize) : idOfBytes id.toList = id := by
  apply Vector.ext
  intro i hi
  simp [idOfBytes]

open List

theorem BootImageHeader.fieldsV0_length (h : BootImageHeader) : h.fieldsV0.length = 1624 := by
  simp only [fieldsV0, length_append, u32Le_length, fixedBytes_length, Vector.length_toList]
  rfl

theorem BootImageHeader.fieldsV1_length (h : BootImageHeader) : h.fieldsV1.length = 16 := by
  simp [fieldsV1]

/-- An old header is the magic, the fields of its version, and zeros. -/
theorem BootImageHeader.encode_old (hv : h.headerVersion ≤ 2) :
    ∃ zeros, h.encode = bootMagic ++ (h.fieldsV0 ++
      ((if 1 ≤ h.headerVersion then h.fieldsV1 else []) ++
        ((if 2 ≤ h.headerVersion then h.fieldsV2 else []) ++ zeros))) ∧
      h.encode.length = nativeHeaderSize h.headerVersion := by
  have hm : bootMagic.length = 8 := rfl
  have h0 := h.fieldsV0_length
  have h1 := h.fieldsV1_length
  have h2 : h.fieldsV2.length = 12 := by simp [fieldsV2]
  have hl : (bootMagic ++ (h.fieldsV0 ++ ((if 1 ≤ h.headerVersion then h.fieldsV1 else []) ++
      (if 2 ≤ h.headerVersion then h.fieldsV2 else [])))).length
      ≤ nativeHeaderSize h.headerVersion := by
    simp only [length_append]
    rcases oldVersion_cases hv with hver | hver | hver
    · have hs : nativeHeaderSize 0 = 1632 := rfl
      rw [hver, if_neg (by decide), if_neg (by decide), length_nil]
      omega
    · have hs : nativeHeaderSize 1 = 1648 := rfl
      rw [hver, if_pos (by decide), if_neg (by decide), length_nil]
      omega
    · have hs : nativeHeaderSize 2 = 1664 := rfl
      rw [hver, if_pos (by decide), if_pos (by decide)]
      omega
  rw [encode, if_pos hv, encodeV0V1V2, padZeros]
  refine ⟨replicate _ 0, by simp only [append_assoc]; rfl, ?_⟩
  rw [length_append, length_replicate]
  omega

theorem BootImageHeader.fieldsV1_at {rest : Bytes} (hd : data.drop 1632 = h.fieldsV1 ++ rest) :
    u32At data 1632 = h.recoveryDtboSize ∧ u64At data 1636 = h.recoveryDtboOffset ∧
      u32At data 1644 = h.bootHeaderSize := by
  simp only [fieldsV1, append_assoc] at hd
  have h1636 := drop_field hd (b := 1636) (by simp)
  have h1644 := drop_field h1636 (b := 1644) (by simp)
  exact ⟨u32At_of_drop hd, u64At_of_drop h1636, u32At_of_drop h1644⟩

theorem BootImageHeader.fieldsV2_at {rest : Bytes} (hd : data.drop 1648 = h.fieldsV2 ++ rest) :
    u32At data 1648 = h.dtbSize ∧ u64At data 1652 = h.dtbAddr := by
  simp only [fieldsV2, append_assoc] at hd
  have h1652 := drop_field hd (b := 1652) (by simp)
  exact ⟨u32At_of_drop hd, u64At_of_drop h1652⟩

/-- The fields of an old header are read back from where they are written. -/
theorem oldHeaderAt_encode (hs : h.Stored) (rest : Bytes) :
    oldHeaderAt (h.encode ++ rest) h.headerVersion = h := by
  obtain ⟨zeros, hd, -⟩ := encode_old hs.version
  have h0 : (h.encode ++ rest).drop 0 = bootMagic ++ (h.fieldsV0 ++
      ((if 1 ≤ h.headerVersion then h.fieldsV1 else []) ++
        ((if 2 ≤ h.headerVersion then h.fieldsV2 else []) ++ (zeros ++ rest)))) := by
    rw [hd]
    simp
  generalize h.encode ++ rest = data at h0
  have h8 := drop_field h0 (b := 8) rfl
  have h1632 := drop_field h8 (b := 1632) (by rw [h.fieldsV0_length])
  simp only [fieldsV0, append_assoc] at h8
  have h12 := drop_field h8 (b := 12) (by simp)
  have h16 := drop_field h12 (b := 16) (by simp)
  have h20 := drop_field h16 (b := 20) (by simp)
  have h24 := drop_field h20 (b := 24) (by simp)
  have h28 := drop_field h24 (b := 28) (by simp)
  have h32 := drop_field h28 (b := 32) (by simp)
  have h36 := drop_field h32 (b := 36) (by simp)
  have h40 := drop_field h36 (b := 40) (by simp)
  have h44 := drop_field h40 (b := 44) (by simp)
  have h48 := drop_field h44 (b := 48) (by simp)
  have h64 := drop_field h48 (b := 64) (by simp [bootNameSize])
  have h576 := drop_field h64 (b := 576) (by simp [bootArgsSize])
  have h608 := drop_field h576 (b := 608) (by rw [Vector.length_toList]; rfl)
  have hn : fixedString (slice data 48 64) = h.name := by
    rw [slice_of_drop h48 (by simp [bootNameSize]), fixedString_fixedBytes hs.name]
  have hc : fixedString (slice data 64 576) = h.cmdline := by
    rw [slice_of_drop h64 (by simp [bootArgsSize]), fixedString_fixedBytes hs.cmdline]
  have hi : idOfBytes (slice data 576 608) = h.id := by
    rw [slice_of_drop h576 (by rw [Vector.length_toList]; rfl), idOfBytes_toList]
  have hextra : fixedString (slice data 608 1632) = h.extraCmdline := by
    rw [slice_of_drop h608 (by simp [bootExtraArgsSize]), fixedString_fixedBytes hs.extraCmdline]
  have hv1 : (if 1 ≤ h.headerVersion then u32At data 1632 else 0) = h.recoveryDtboSize ∧
      (if 1 ≤ h.headerVersion then u64At data 1636 else 0) = h.recoveryDtboOffset ∧
      (if 1 ≤ h.headerVersion then u32At data 1644 else 0) = h.bootHeaderSize := by
    by_cases ho : 1 ≤ h.headerVersion
    · simp only [if_pos ho] at h1632 ⊢
      exact fieldsV1_at h1632
    · simp only [if_neg ho]
      obtain ⟨hsz, hoff, hh⟩ := hs.v1 ho
      exact ⟨hsz.symm, hoff.symm, hh.symm⟩
  have hv2 : (if 2 ≤ h.headerVersion then u32At data 1648 else 0) = h.dtbSize ∧
      (if 2 ≤ h.headerVersion then u64At data 1652 else 0) = h.dtbAddr := by
    by_cases ht : 2 ≤ h.headerVersion
    · have ho : 1 ≤ h.headerVersion := UInt32.le_trans (by decide) ht
      rw [if_pos ho, if_pos ht] at h1632
      simp only [if_pos ht]
      exact fieldsV2_at (drop_field h1632 (b := 1648) (by rw [h.fieldsV1_length]))
    · simp only [if_neg ht]
      obtain ⟨hsz, ha⟩ := hs.v2 ht
      exact ⟨hsz.symm, ha.symm⟩
  obtain ⟨hrs, hr, hb⟩ := hv1
  simp [oldHeaderAt, u32At_of_drop h8, u32At_of_drop h12, u32At_of_drop h16, u32At_of_drop h20,
    u32At_of_drop h24, u32At_of_drop h28, u32At_of_drop h32, u32At_of_drop h36, u32At_of_drop h40,
    u32At_of_drop h44, hn, hc, hi, hextra, hrs, hr, hb, hv2.1, hv2.2]

def BootImageHeader.Told (h : BootImageHeader) : Prop := h.kernelSize ≠ 3 ∧ h.kernelSize ≠ 4

/-- An old header that is not taken for a new one is decoded from its bytes. -/
theorem BootImageHeader.decode_encode_old (hs : h.Stored) (ht : h.Told) (rest : Bytes) :
    BootImageHeader.decode (h.encode ++ rest) = .ok h := by
  obtain ⟨zeros, hd, hl⟩ := encode_old hs.version
  have hge := nativeHeaderSize_ge hs.version
  have hfu : (h.encode ++ rest).length = nativeHeaderSize h.headerVersion + rest.length := by
    rw [length_append, hl]
  have hf := oldHeaderAt_encode hs rest
  have hvr : u32At (h.encode ++ rest) 40 = h.headerVersion := congrArg headerVersion hf
  have hk : u32At (h.encode ++ rest) 8 = h.kernelSize := congrArg kernelSize hf
  have hst : BootStart (h.encode ++ rest) := by
    refine ⟨by omega, ?_⟩
    rw [hd]
    exact slice_of_drop drop_zero rfl
  have ho : ¬NewVersion (h.encode ++ rest) := by
    rw [NewVersion, hk]
    exact not_or.mpr ht
  rw [decode_eq hst, if_neg ho, if_neg (by omega), hvr, if_pos hs.version,
    decodeV0V1V2_eq hs.version, if_neg (by omega), hf]

variable (hv : h.headerVersion = 3 ∨ h.headerVersion = 4)
include hv

theorem BootImageHeader.encode_new :
    ∃ zeros, h.encode = bootMagic ++ (u32Le h.headerVersion ++ (u32Le h.kernelSize ++
      (u32Le h.ramdiskSize ++ (u32Le h.osVersion ++ zeros)))) ∧ h.encode.length = 4096 := by
  have ho : ¬h.headerVersion ≤ 2 := by
    rcases hv with hv | hv <;> rw [hv] <;> decide
  have h3 : bootImageHeaderV3Size = 4096 := rfl
  have hm : bootMagic.length = 8 := rfl
  rw [encode, if_neg ho, if_pos hv, encodeV3V4, padZeros]
  refine ⟨_, by simp only [append_assoc]; rfl, ?_⟩
  simp only [length_append, length_replicate, u32Le_length]
  omega

theorem BootImageHeader.decode_encode_new (rest : Bytes) :
    BootImageHeader.decode (h.encode ++ rest) = .ok { newV3 with
          headerVersion := h.headerVersion
          kernelSize := h.kernelSize
          ramdiskSize := h.ramdiskSize
          osVersion := h.osVersion } := by
  obtain ⟨zeros, hd, hl⟩ := encode_new hv
  have hf : (h.encode ++ rest).length = 4096 + rest.length := by
    rw [length_append, hl]
  have h0 : (h.encode ++ rest).drop 0 = bootMagic ++ (u32Le h.headerVersion ++
      (u32Le h.kernelSize ++ (u32Le h.ramdiskSize ++ (u32Le h.osVersion ++ (zeros ++ rest))))) := by
    rw [hd]
    simp
  generalize h.encode ++ rest = data at h0 hf
  have h8 := drop_field h0 (b := 8) rfl
  have h12 := drop_field h8 (b := 12) (by simp)
  have h16 := drop_field h12 (b := 16) (by simp)
  have h20 := drop_field h16 (b := 20) (by simp)
  have hs : BootStart data := ⟨by omega, slice_of_drop h0 rfl⟩
  have hn : NewVersion data := by
    rw [NewVersion, u32At_of_drop h8]
    exact hv
  rw [decode_eq hs, if_pos hn, decodeV3V4_eq, if_neg (by omega), newHeaderAt,
    u32At_of_drop h8, u32At_of_drop h12, u32At_of_drop h16, u32At_of_drop h20]

end AdbFastboot
