import AdbFastboot.PageLayout
import AdbFastboot.SparseParse

namespace AdbFastboot

open SparseFile List

section

/-- Encoding `f` and parsing the bytes gives back its block size and its chunks. -/
def SparseFile.Reparses (profile : Profile) (f : SparseFile) : Prop :=
  ∃ bytes g, f.encode profile = .ok bytes ∧ fromBytes bytes = .ok g ∧
    g.header.blkSz = f.header.blkSz ∧ g.chunks = f.chunks

variable {profile : Profile} {f : SparseFile}

theorem SparseFile.encode_headerAt {bytes : Bytes} (h : f.encode profile = .ok bytes) :
    ∃ total, headerAt bytes = { f.header with
      totalBlks := total, totalChunks := UInt32.ofNat f.chunks.length } := by
  obtain ⟨total, _, rfl⟩ := encode_eq_ok h
  exact ⟨total, headerAt_encode _ _⟩

/-- A file whose headers have the sizes that `encode` writes is parsed again, with new counts. -/
theorem SparseFile.fromBytes_encode {total : UInt32} (ht : f.totalBlocks profile = .ok total)
    (hv : f.header.Valid)
    (hsz : f.chunks = [] ∨ (f.header.fileHdrSz = 28 ∧ f.header.chunkHdrSz = 12))
    (hc : f.chunks.length < 2 ^ 32)
    (hs : ∀ c ∈ f.chunks, c.Shaped f.header.blkSz ∧ c.totalSize < 2 ^ 32) :
    ∃ bytes, f.encode profile = .ok bytes ∧ fromBytes bytes = .ok
      ⟨{ f.header with totalBlks := total, totalChunks := UInt32.ofNat f.chunks.length }, f.chunks⟩ := by
  let header : SparseHeader := { f.header with
    totalBlks := total, totalChunks := UInt32.ofNat f.chunks.length }
  have he : f.encode profile = .ok (header.encode ++ f.chunks.flatMap SparseChunk.encode) := by
    simp [SparseFile.encode, ht, header]
  have ha : headerAt (header.encode ++ f.chunks.flatMap SparseChunk.encode) = header :=
    headerAt_encode _ _
  have hvl : header.Valid := ⟨hv.magic, hv.major, hv.fileHdr, hv.chunkHdr⟩
  have hr : readChunks (header.encode ++ f.chunks.flatMap SparseChunk.encode) header
      header.totalChunks.toNat header.fileHdrSz.toNat = .ok f.chunks := by
    rw [UInt32.toNat_ofNat_of_lt' hc]
    rcases hsz with hn | ⟨h28, h12⟩
    · simp [hn, readChunks]
    have hd : (header.encode ++ f.chunks.flatMap SparseChunk.encode).drop
        f.header.fileHdrSz.toNat = f.chunks.flatMap SparseChunk.encode ++ [] := by
      simp [h28]
    exact readChunks_encode hd h12 hs
  refine ⟨_, he, ?_⟩
  have hl : SparseHeader.size ≤ (header.encode ++ f.chunks.flatMap SparseChunk.encode).length := by
    simp [SparseHeader.size]
  have hf := fromBytes_ok hl (ha.symm ▸ hvl) (by rw [ha]; exact hr)
  simpa only [ha] using hf

theorem SparseFile.reparses_of_sizes {buf : Bytes} (hf : fromBytes buf = .ok f)
    (hsz : f.chunks = [] ∨ (f.header.fileHdrSz = 28 ∧ f.header.chunkHdrSz = 12))
    (hs : profile = .debug → blockSum f.chunks < 2 ^ 32) : f.Reparses profile := by
  obtain ⟨_, _, hv, hc⟩ := fromBytes_eq_ok hf
  obtain ⟨total, ht⟩ := totalBlocks_returns profile hs
  have hct : f.chunks.length < 2 ^ 32 := by
    rw [readChunks_length hc]
    exact UInt32.toNat_lt _
  obtain ⟨bytes, he, hp⟩ :=
    fromBytes_encode ht hv hsz hct (fromBytes_shaped hf)
  exact ⟨bytes, _, he, hp, rfl, rfl⟩

/-- Headers longer than the 28 and 12 bytes `encode` writes push the last chunk out. -/
theorem SparseFile.sizes_of_reparses {buf : Bytes} (hf : fromBytes buf = .ok f)
    (h : f.Reparses profile) :
    f.chunks = [] ∨ (f.header.fileHdrSz = 28 ∧ f.header.chunkHdrSz = 12) := by
  obtain ⟨_, _, hv, _⟩ := fromBytes_eq_ok hf
  obtain ⟨bytes, g, he, hg, _, hc⟩ := h
  obtain ⟨_, ha⟩ := encode_headerAt he
  obtain ⟨_, hgh, hgv, hgc⟩ := fromBytes_eq_ok hg
  have hfl : g.header.fileHdrSz = f.header.fileHdrSz := by rw [hgh, ha]
  have hch : g.header.chunkHdrSz = f.header.chunkHdrSz := by rw [hgh, ha]
  by_cases hn : f.chunks = []
  · exact Or.inl hn
  have hu := readChunks_consumed hgv.chunkHdr hgc (by rwa [hc])
  have hl := encode_length he
  have h28 := hv.fileHdr
  have h12 := hv.chunkHdr
  simp only [SparseHeader.size, SparseChunkHeader.size] at h28 h12
  rw [totalSize, totalSize_sum] at hl
  rw [hc, hfl, hch, hl] at hu
  simp only [SparseHeader.size] at hu
  have hp := length_pos_iff.mpr hn
  have hm := Nat.mul_le_mul_left f.chunks.length h12
  have hc12 : f.header.chunkHdrSz.toNat = 12 := by
    by_contra hne
    have hm' := Nat.mul_le_mul_left f.chunks.length (show 13 ≤ f.header.chunkHdrSz.toNat by omega)
    omega
  have hf28 : f.header.fileHdrSz.toNat = 28 := by omega
  exact Or.inr ⟨UInt16.toNat_inj.mp hf28, UInt16.toNat_inj.mp hc12⟩

/-- A file is parsed again from its bytes exactly if its header sizes are standard. -/
theorem SparseFile.reparses_iff {profile : Profile} {buf : List UInt8} {f : SparseFile}
    (hf : SparseFile.fromBytes buf = .ok f) :
    f.Reparses profile ↔ (f.chunks = [] ∨ (f.header.fileHdrSz = 28 ∧ f.header.chunkHdrSz = 12)) ∧
        (profile = .debug → blockSum f.chunks < 2 ^ 32) := by
  constructor
  · intro h
    refine ⟨sizes_of_reparses hf h, ?_⟩
    rintro rfl
    obtain ⟨bytes, _, he, _⟩ := h
    obtain ⟨total, ht, _⟩ := encode_eq_ok he
    simpa using (sumBlocks_debug_eq_ok ht).1
  · rintro ⟨hsz, hs⟩
    exact reparses_of_sizes hf hsz hs

def dontCareImage : Bytes :=
  (SparseHeader.new 4096 1 1).encode ++ (SparseChunkHeader.new chunkTypeDontCare 1 12).encode

theorem dontCareImage_reparses : ∃ f, SparseFile.fromBytes dontCareImage = .ok f ∧
      (f.Reparses .debug ↔ (f.chunks = [] ∨ (f.header.fileHdrSz = 28 ∧ f.header.chunkHdrSz = 12)) ∧
          (Profile.debug = .debug → blockSum f.chunks < 2 ^ 32)) := by
  have hf : fromBytes dontCareImage = .ok
      ⟨SparseHeader.new 4096 1 1, [⟨chunkTypeDontCare, 1, []⟩]⟩ := by decide
  exact ⟨_, hf, reparses_iff hf⟩

def longHeaderImage : Bytes :=
  ({ SparseHeader.new 4096 1 1 with fileHdrSz := 32 } : SparseHeader).encode ++ [0, 0, 0, 0] ++
    (SparseChunkHeader.new chunkTypeDontCare 1 12).encode

theorem longHeaderImage_not_reparses : ∃ f, SparseFile.fromBytes longHeaderImage = .ok f ∧
      ¬f.Reparses .debug ∧ ¬f.Reparses .release := by
  have hf : fromBytes longHeaderImage = .ok
      ⟨{ SparseHeader.new 4096 1 1 with fileHdrSz := 32 }, [⟨chunkTypeDontCare, 1, []⟩]⟩ := by
    decide
  refine ⟨_, hf, ?_, ?_⟩ <;>
  · intro h
    have hs := sizes_of_reparses hf h
    revert hs
    decide

end

/-- What `from_raw` makes of the bytes is encoded, parsed and written out again as the bytes, filled
with zeros to whole blocks. -/
def RawRoundTrip (profile : Profile) (data : Bytes) (blkSz : UInt32) : Prop :=
  ∃ f bytes g, fromRaw profile data blkSz = .ok f ∧ f.encode profile = .ok bytes
    ∧ fromBytes bytes = .ok g ∧ g.toRaw = .ok (padTo blkSz.toNat data)

theorem roundUp_eq_add {n a : Nat} (ha : 0 < a) :
    roundUp n a = if n % a = 0 then n else n + (a - n % a) := by
  have hm := Nat.mod_lt n ha
  have hd := Nat.div_add_mod n a
  split
  next hz =>
    obtain ⟨q, rfl⟩ := Nat.dvd_of_mod_eq_zero hz
    have hs := roundUp_add (Nat.dvd_mul_right a q) 0
    rwa [roundUp_zero] at hs
  next hp =>
    have hq := roundUp_add (Nat.dvd_mul_right a (n / a)) (n % a)
    have ho : roundUp (n % a) a = a := by
      rw [roundUp, Nat.div_eq_of_lt_le (k := 1) (by omega) (by omega), Nat.one_mul]
    rw [hd, ho] at hq
    omega

theorem fromRaw_padded (data : Bytes) {a : Nat} (ha : 0 < a) :
    (if data.length % a = 0 then data else data ++ replicate (a - data.length % a) 0)
      = padTo a data := by
  rw [padTo, roundUp_eq_add ha]
  split
  next => rw [Nat.sub_self, replicate_zero, append_nil]
  next => rw [Nat.add_sub_cancel_left]

theorem length_padTo_div {a : Nat} (ha : 0 < a) (data : Bytes) :
    (padTo a data).length = (padTo a data).length / a * a := by
  rw [padTo_length ha]
  exact (Nat.div_mul_cancel (dvd_roundUp data.length a)).symm

def rawChunk (data : Bytes) (blkSz : UInt32) : SparseChunk :=
  ⟨chunkTypeRaw, UInt32.ofNat ((padTo blkSz.toNat data).length / blkSz.toNat),
    padTo blkSz.toNat data⟩

theorem SparseHeader.new_valid (blkSz totalBlks totalChunks : UInt32) :
    (SparseHeader.new blkSz totalBlks totalChunks).Valid :=
  ⟨rfl, rfl, Nat.le_refl 28, Nat.le_refl 12⟩

section

variable {profile : Profile} {data : Bytes} {blkSz : UInt32}

/-- Raw data becomes one raw chunk, padded to blocks. -/
theorem fromRaw_eq (profile : Profile) (hb : blkSz ≠ 0) (hne : data ≠ []) :
    fromRaw profile data blkSz
      = .ok ⟨SparseHeader.new blkSz (rawChunk data blkSz).chunkBlocks 1, [rawChunk data blkSz]⟩ := by
  have hp := Nat.pos_of_ne_zero fun h => hb (UInt32.toNat_inj.mp h)
  have hpd := fromRaw_padded data hp
  have hpn : padTo blkSz.toNat data ≠ [] := by
    intro hn
    rw [padTo, append_eq_nil_iff] at hn
    exact hne hn.1
  have ha : ¬ (padTo blkSz.toNat data).length % blkSz.toNat ≠ 0 := by
    rw [padTo_length hp]
    exact not_not.mpr (Nat.mod_eq_zero_of_dvd (dvd_roundUp _ _))
  have hc : SparseChunk.raw (padTo blkSz.toNat data) blkSz = .ok (rawChunk data blkSz) := by
    rw [SparseChunk.raw, if_neg hb, if_neg hpn, if_neg ha]
    rfl
  rw [fromRaw, if_neg hb]
  dsimp only
  rw [if_neg hne, hpd, hc]
  dsimp only
  have hs : (SparseFile.new blkSz).header.totalBlks.toNat
      + (rawChunk data blkSz).chunkBlocks.toNat < 2 ^ 32 := by
    have hlt := (rawChunk data blkSz).chunkBlocks.toNat_lt
    simpa [SparseFile.new, SparseHeader.new] using hlt
  rw [addChunk, addU32_ok hs, ok_bind]
  simp [SparseFile.new, SparseHeader.new]

theorem rawChunk_shaped (hblk : blkSz ≠ 0)
    (hb : roundUp data.length blkSz.toNat / blkSz.toNat < 2 ^ 32) :
    (rawChunk data blkSz).Shaped blkSz := by
  have hp := Nat.pos_of_ne_zero fun h => hblk (UInt32.toNat_inj.mp h)
  refine .inl ⟨rfl, ?_⟩
  rw [rawChunk]
  dsimp only
  rw [UInt32.toNat_ofNat_of_lt' (by rw [padTo_length hp]; exact hb)]
  exact length_padTo_div hp data

theorem rawContent_rawChunk : rawContent blkSz [rawChunk data blkSz] = padTo blkSz.toNat data := by
  rw [rawContent, flatMap_singleton, chunkRaw]
  exact if_pos rfl

/-- Data that fits in a chunk comes back, padded. -/
theorem rawRoundTrip_of_size (hb : blkSz ≠ 0)
    (hsz : roundUp data.length blkSz.toNat + 12 < 2 ^ 32) : RawRoundTrip profile data blkSz := by
  have hpos := Nat.pos_of_ne_zero fun h => hb (UInt32.toNat_inj.mp h)
  have hm : isizeMax = 2 ^ 63 - 1 := rfl
  by_cases hn : data = []
  · subst hn
    have hs : (SparseFile.new blkSz).totalBlocks profile = .ok 0 := rfl
    obtain ⟨bytes, he, hp⟩ := fromBytes_encode hs
      (SparseHeader.new_valid blkSz 0 0) (.inl rfl) (Nat.two_pow_pos 32) (forall_mem_nil _)
    refine ⟨_, bytes, _, by rw [fromRaw, if_neg hb]; rfl, he, hp, ?_⟩
    rw [toRaw_ok, padTo_nil]
    · rfl
    · change 0 * blkSz.toNat ≤ _
      omega
    · exact Nat.zero_le _
  · have hl := padTo_length hpos data
    have hbk : roundUp data.length blkSz.toNat / blkSz.toNat < 2 ^ 32 :=
      Nat.lt_of_le_of_lt (Nat.div_le_self _ _) (by omega)
    have hsh := rawChunk_shaped hb hbk
    have ht : (rawChunk data blkSz).totalSize < 2 ^ 32 := by
      change 12 + (padTo blkSz.toNat data).length < _
      omega
    have hs : sumBlocks profile 0 [rawChunk data blkSz] = .ok (rawChunk data blkSz).chunkBlocks := by
      rw [sumBlocks_ok (by simpa using (rawChunk data blkSz).chunkBlocks.toNat_lt)]
      simp
    obtain ⟨bytes, he, hp⟩ := fromBytes_encode
      (f := ⟨SparseHeader.new blkSz (rawChunk data blkSz).chunkBlocks 1, [rawChunk data blkSz]⟩)
      hs (SparseHeader.new_valid _ _ _) (.inr ⟨rfl, rfl⟩) (Nat.one_lt_two_pow (by decide))
      (forall_mem_singleton.mpr ⟨hsh, ht⟩)
    refine ⟨_, bytes, _, fromRaw_eq profile hb hn, he, hp, ?_⟩
    have hr : rawContent blkSz [rawChunk data blkSz] = _ := rawContent_rawChunk
    rw [toRaw_ok]
    · exact congrArg Except.ok hr
    · have hsp := hsh.resolve_right (by rintro (⟨h, -⟩ | ⟨h, -⟩ | ⟨h, -⟩) <;> cases h)
      change (rawChunk data blkSz).chunkBlocks.toNat * blkSz.toNat ≤ _
      rw [← hsp.2]
      change (padTo blkSz.toNat data).length ≤ _
      omega
    · change (rawContent blkSz [rawChunk data blkSz]).length ≤ _
      rw [hr]
      omega

theorem SparseFile.fromBytes_one {header : SparseHeader} {c : SparseChunk} {g : SparseFile}
    (hf : header.fileHdrSz = 28) (hct : header.totalChunks = 1)
    (h : fromBytes (header.encode ++ c.encode) = .ok g) :
    ∃ d, g.chunks = [d] ∧ d.chunkType = c.chunkType ∧ d.totalSize < 2 ^ 32 := by
  obtain ⟨-, hh, hv, hr⟩ := fromBytes_eq_ok h
  rw [headerAt_encode] at hh
  rw [hh, hct, hf] at hr
  rw [hh] at hv
  obtain ⟨d, next, tail, hd, htl, hc⟩ := readChunks_cons_eq_ok hr
  cases htl
  have hdp : (header.encode ++ c.encode).drop (28 : UInt16).toNat = c.encode := by
    simp
  have ht := readChunk_chunkType hv.chunkHdr hd
  rw [hdp, SparseChunk.encode, chunkHeaderAt_encode] at ht
  have hm : d ∈ g.chunks := by
    rw [hc]
    exact mem_singleton_self d
  exact ⟨d, hc, ht, (fromBytes_shaped h d hm).2⟩

/-- Data that comes back has fitted in a chunk. -/
theorem size_of_rawRoundTrip (hb : blkSz ≠ 0) (h : RawRoundTrip profile data blkSz) :
    roundUp data.length blkSz.toNat + 12 < 2 ^ 32 := by
  have hpos := Nat.pos_of_ne_zero fun h => hb (UInt32.toNat_inj.mp h)
  by_cases hn : data = []
  · rw [hn, length_nil, roundUp_zero]
    decide
  obtain ⟨f, bytes, g, hr, he, hp, ho⟩ := h
  cases (fromRaw_eq profile hb hn).symm.trans hr
  obtain ⟨total, -, hbs⟩ := encode_eq_ok he
  rw [flatMap_singleton] at hbs
  rw [hbs] at hp
  obtain ⟨d, hck, ht, hs⟩ := fromBytes_one rfl rfl hp
  change d.chunkType = chunkTypeRaw at ht
  have hc := (toRaw_eq_ok ho).2
  rw [hck, rawContent, flatMap_singleton, chunkRaw, if_pos ht] at hc
  rw [SparseChunk.totalSize, ← hc, padTo_length hpos] at hs
  rw [Nat.add_comm]
  exact hs

/-- Up to 4 GiB less the chunk header the bytes come back, and no further. -/
theorem rawRoundTrip_iff (profile : Profile) (data : List UInt8) (blkSz : UInt32)
    (hblk : blkSz ≠ 0) :
    RawRoundTrip profile data blkSz ↔ roundUp data.length blkSz.toNat + 12 < 2 ^ 32 :=
  ⟨size_of_rawRoundTrip hblk, rawRoundTrip_of_size hblk⟩

end

theorem rawRoundTrip_five : RawRoundTrip .debug [1, 2, 3, 4, 5] 4 :=
  (rawRoundTrip_iff .debug [1, 2, 3, 4, 5] 4 (by decide)).mpr (by decide)

/-- 4 GiB of zeros in blocks of 4096 bytes. -/
theorem rawRoundTrip_not :
    roundUp (List.replicate (2 ^ 32) (0 : UInt8)).length (4096 : UInt32).toNat
        / (4096 : UInt32).toNat < 2 ^ 32
      ∧ ¬ RawRoundTrip .release (List.replicate (2 ^ 32) 0) 4096 := by
  have hl : roundUp (List.replicate (2 ^ 32) (0 : UInt8)).length (4096 : UInt32).toNat
      = 2 ^ 32 := by
    rw [List.length_replicate]
    rfl
  rw [hl]
  refine ⟨by decide, fun h => ?_⟩
  have hs := size_of_rawRoundTrip (by decide) h
  omega

end AdbFastboot
