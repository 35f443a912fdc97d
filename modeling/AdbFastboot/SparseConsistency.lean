import AdbFastboot.SparseSplit

namespace AdbFastboot

open SparseFile List

/-- The chunk expands to as many bytes as it announces blocks. -/
def SparseChunk.Whole (blkSz : UInt32) (c : SparseChunk) : Prop :=
  (c.chunkType = chunkTypeFill → 4 ∣ c.chunkBlocks.toNat * blkSz.toNat) ∧
    (c.chunkType = chunkTypeCrc32 → c.chunkBlocks.toNat * blkSz.toNat = 0)

theorem chunkRaw_length_eq_iff {blkSz : UInt32} {c : SparseChunk} (hc : c.Shaped blkSz) :
    (chunkRaw blkSz c).length = c.chunkBlocks.toNat * blkSz.toNat ↔ c.Whole blkSz := by
  rcases hc with ⟨h, hl⟩ | ⟨h, hl⟩ | ⟨h, hl⟩ | ⟨h, hl⟩
  · simp [chunkRaw, SparseChunk.Whole, h, hl, chunkTypeRaw, chunkTypeFill, chunkTypeCrc32]
  · simp [chunkRaw, SparseChunk.Whole, h, hl, chunkTypeRaw, chunkTypeFill, chunkTypeCrc32]
    omega
  · simp [chunkRaw, SparseChunk.Whole, h, chunkTypeRaw, chunkTypeFill, chunkTypeDontCare, chunkTypeCrc32]
  · simp only [chunkRaw, SparseChunk.Whole, h, chunkTypeRaw, chunkTypeFill, chunkTypeDontCare,
      chunkTypeCrc32]
    simp [eq_comm]

variable {cs : List SparseChunk}

/-- The raw content is as long as stated exactly if every chunk is whole. -/
theorem rawContent_length_eq_iff {blkSz : UInt32} (hcs : ∀ c ∈ cs, c.Shaped blkSz) :
    (rawContent blkSz cs).length = blockSum cs * blkSz.toNat ↔ ∀ c ∈ cs, c.Whole blkSz := by
  induction cs with
  | nil => simp [rawContent]
  | cons c cs ih =>
    have ht : ∀ d ∈ cs, d.Shaped blkSz := fun d hd => hcs d (mem_cons_of_mem c hd)
    have hc := chunkRaw_length_le (hcs c mem_cons_self)
    have hle := rawContent_length_le ht
    have hi := chunkRaw_length_eq_iff (hcs c mem_cons_self)
    have hr := ih ht
    simp only [rawContent, flatMap_cons, length_append, blockSum_cons, Nat.add_mul,
      forall_mem_cons] at hle hr ⊢
    rw [← hi, ← hr]
    omega

variable {f : SparseFile}

theorem SparseFile.addChunk_ok (profile : Profile) {c : SparseChunk}
    (h : f.header.totalBlks.toNat + c.chunkBlocks.toNat < 2 ^ 32) :
    ∃ g, f.addChunk profile c = .ok g ∧
      g.header.totalBlks.toNat = f.header.totalBlks.toNat + c.chunkBlocks.toNat := by
  refine ⟨_, by rw [addChunk, addU32_ok h, ok_bind, pure_eq_ok], ?_⟩
  exact Nat.mod_eq_of_lt h

theorem SparseFile.addChunks_ok (profile : Profile) (h : f.header.totalBlks.toNat + blockSum cs < 2 ^ 32) :
    ∃ g, f.addChunks profile cs = .ok g := by
  induction cs generalizing f with
  | nil => exact ⟨f, rfl⟩
  | cons c cs ih =>
    simp only [blockSum_cons] at h
    obtain ⟨g, hg, ht⟩ := addChunk_ok profile (f := f) (c := c) (by omega)
    obtain ⟨k, hk⟩ := ih (f := g) (by omega)
    exact ⟨k, by simpa [addChunks, hg] using hk⟩

/-- Room for every addition still to come, and payload for every slice. `later` counts the blocks
of the chunks after this one. -/
structure SplitSafe (blkSz : UInt32) (chunk : SparseChunk) (later : Nat) (s : SplitState) :
    Prop where
  blocks : s.current.header.totalBlks.toNat + s.remaining.toNat + later < 2 ^ 32
  payload : chunk.chunkType = chunkTypeRaw →
    s.rawOffset + s.remaining.toNat * blkSz.toNat ≤ chunk.payload.length

section

variable {profile : Profile} {blkSz : UInt32} {maxSize later : Nat} {chunk : SparseChunk}
  {s t : SplitState}

theorem newPiece_noPanic (minRequired : Nat) : NoPanic (newPiece blkSz maxSize minRequired s) := by
  unfold newPiece
  split <;> simp

theorem addChunk_again_noPanic {c : SparseChunk} {k : SparseFile → Turn SplitState}
    (h : s.current.header.totalBlks.toNat + c.chunkBlocks.toNat < 2 ^ 32) :
    NoPanic (do
      let current ← s.current.addChunk profile c
      pure (k current) : Outcome SparseError (Turn SplitState)) := by
  obtain ⟨g, hg, _⟩ := addChunk_ok profile h
  rw [hg, ok_bind]
  exact noPanic_ok _

theorem takeBlocks_le (blkSz : UInt32) (maxSize used : Nat) (remaining : UInt32) :
    (takeBlocks blkSz maxSize used remaining).toNat ≤ remaining.toNat := by
  rw [takeBlocks_toNat]
  omega

section

variable (hs : SplitSafe blkSz chunk later s)
include hs

/-- A round of the split does not overflow. -/
theorem splitRound_noPanic : NoPanic (splitRound profile blkSz maxSize chunk s) := by
  have hb := hs.blocks
  unfold splitRound
  simp only
  split
  next ht =>
    split
    next => exact newPiece_noPanic _
    have hle := takeBlocks_le blkSz maxSize s.current.totalSize s.remaining
    have hm := Nat.mul_le_mul_right blkSz.toNat hle
    have hp := hs.payload ht
    unfold takeBlocks at hle hm
    rw [sliceAt_ok (by omega) (by omega), ok_bind]
    exact addChunk_again_noPanic (by simp only; omega)
  next =>
    split
    next =>
      split
      next => exact newPiece_noPanic _
      next => exact addChunk_again_noPanic (by simp only; omega)
    split
    next =>
      split
      next => exact newPiece_noPanic _
      next => exact addChunk_again_noPanic (by simp only; omega)
    split
    next =>
      split
      next => exact newPiece_noPanic _
      next => exact addChunk_again_noPanic (by simp only [UInt32.toNat_zero]; omega)
    next => exact noPanic_fail _

theorem splitSafe_again (h : SplitCase profile blkSz maxSize chunk s (.again t)) :
    SplitSafe blkSz chunk later t := by
  have hb := hs.blocks
  have had {c : SparseChunk} {g : SparseFile} (hg : s.current.addChunk profile c = .ok g) :
      g.header.totalBlks.toNat ≤ s.current.header.totalBlks.toNat + c.chunkBlocks.toNat := by
    rw [addChunk_totalBlks hg]
    exact Nat.mod_le _ _
  cases h with
  | flush =>
    refine ⟨?_, hs.payload⟩
    simp only [SparseFile.new, SparseHeader.new, UInt32.toNat_zero]
    omega
  | @raw take current ht hf htk hl ha =>
    have hle : take.toNat ≤ s.remaining.toNat := by rw [htk]; exact takeBlocks_le _ _ _ _
    have hsub := UInt32.toNat_sub_of_le _ _ (UInt32.le_iff_toNat_le.mpr hle)
    have htot := had ha
    refine ⟨by simp only [hsub] at htot ⊢; omega, fun _ => ?_⟩
    have hp := hs.payload ht
    simp only [hsub, Nat.sub_mul]
    omega
  | fill ht hf ha | dontCare ht hf ha =>
    have htot := had ha
    refine ⟨by simp only [UInt32.toNat_zero] at htot ⊢; omega, fun hr => ?_⟩
    rw [ht] at hr
    exact absurd hr (by decide)

/-- The loop over one chunk does not overflow. -/
theorem splitWhile_noPanic : NoPanic (splitWhile profile blkSz maxSize chunk s) := by
  induction s using (splitNext_wellFounded profile blkSz maxSize chunk).induction with
  | h s ih =>
    rw [splitWhile]
    split
    next hl =>
      split
      next e hr =>
        have hr' : NoPanic (splitRound profile blkSz maxSize chunk s) := splitRound_noPanic hs
        rw [hr] at hr'
        simpa [NoPanic, panicked] using hr'
      next => exact noPanic_ok _
      next u hr => exact ih u ⟨hl, hr⟩ (splitSafe_again hs (splitRound_cases hr))
    next => exact noPanic_ok _

theorem splitWhile_blocks (h : splitWhile profile blkSz maxSize chunk s = .ok t) :
    t.current.header.totalBlks.toNat + later < 2 ^ 32 := by
  refine splitWhile_invariant (I := SplitSafe blkSz chunk later)
    (Q := fun u => u.current.header.totalBlks.toNat + later < 2 ^ 32) ?_ ?_ ?_ hs h
  · exact fun u v hu _ hc => splitSafe_again hu hc
  · intro u v hu hc
    cases hc with
    | crc ht hf ha =>
      have hb := hu.blocks
      have htot := addChunk_totalBlks ha
      have hm := Nat.mod_le (u.current.header.totalBlks.toNat + (0 : UInt32).toNat) (2 ^ 32)
      simp only [UInt32.toNat_zero] at htot hm
      simp only
      omega
  · intro u hu _
    have hb := hu.blocks
    omega

end

theorem splitChunks_noPanic {cs : List SparseChunk} (hc : ∀ c ∈ cs, c.Shaped blkSz)
    (hs : s.current.header.totalBlks.toNat + blockSum cs < 2 ^ 32) :
    NoPanic (splitChunks profile blkSz maxSize cs s) := by
  induction cs generalizing s with
  | nil => exact noPanic_ok _
  | cons c cs ih =>
    rw [blockSum_cons] at hs
    have hsf : SplitSafe blkSz c (blockSum cs)
        { s with remaining := c.chunkBlocks, rawOffset := 0 } := by
      refine ⟨by simp only; omega, fun ht => ?_⟩
      rcases hc c mem_cons_self with ⟨_, hl⟩ | ⟨h, _⟩ | ⟨h, _⟩ | ⟨h, _⟩
      · simp only; omega
      all_goals rw [ht] at h; exact absurd h (by decide)
    exact noPanic_bind (splitWhile_noPanic hsf) fun t ht =>
      ih (fun d hd => hc d (mem_cons_of_mem c hd)) (splitWhile_blocks hsf ht)

end

/-- A file of fewer than 2 ^ 32 blocks is split without overflow. -/
theorem SparseFile.split_noPanic {profile : Profile}
    (hf : ∀ c ∈ f.chunks, c.Shaped f.header.blkSz) (hsum : blockSum f.chunks < 2 ^ 32)
    (maxSize : Nat) : NoPanic (f.split profile maxSize) := by
  apply noPanic_guard
  intro _
  apply noPanic_guard
  intro _
  apply noPanic_bind
  · apply splitChunks_noPanic hf
    simpa [SparseFile.new, SparseHeader.new] using hsum
  · intro s _
    exact noPanic_ok _

/-- The fields of the file parsed from `buf` agree and its operations never panic. The profile is
the one with overflow checks, so that an overflow of a `u32` counts as a panic; the sizes that are
added up as `usize` stay within the length of the buffer. -/
structure SparseFile.Consistent (buf : Bytes) (f : SparseFile) : Prop where
  totalBlks : f.header.totalBlks.toNat = blockSum f.chunks
  toRaw : ∃ raw, f.toRaw = .ok raw ∧
    raw.length = f.header.totalBlks.toNat * f.header.blkSz.toNat
  totalBlocks : NoPanic (f.totalBlocks .debug)
  encode : NoPanic (f.encode .debug)
  split : ∀ maxSize, NoPanic (f.split .debug maxSize)
  addChunk : NoPanic ((SparseFile.new f.header.blkSz).addChunks .debug f.chunks)
  totalSize : f.totalSize ≤ buf.length

/-- A parsed file is consistent exactly when its header tells the number of its blocks, every chunk
is whole, and the image fits a vector; `from_bytes` checks none of the three. -/
theorem SparseFile.consistent_iff {buf : List UInt8} {f : SparseFile}
    (hf : SparseFile.fromBytes buf = .ok f) :
    f.Consistent buf ↔ f.header.totalBlks.toNat = blockSum f.chunks ∧
      (∀ c ∈ f.chunks, c.Whole f.header.blkSz) ∧
      f.header.totalBlks.toNat * f.header.blkSz.toNat ≤ isizeMax := by
  have hsh : ∀ c ∈ f.chunks, c.Shaped f.header.blkSz :=
    fun c hc => (fromBytes_shaped hf c hc).1
  constructor
  · intro h
    obtain ⟨raw, hr, hl⟩ := h.toRaw
    obtain ⟨hcap, hcn⟩ := toRaw_eq_ok hr
    refine ⟨h.totalBlks, ?_, hcap⟩
    rw [← rawContent_length_eq_iff hsh, ← hcn, hl, h.totalBlks]
  · rintro ⟨htl, hw, hcap⟩
    have hsum : blockSum f.chunks < 2 ^ 32 := by
      rw [← htl]
      exact f.header.totalBlks.toNat_lt
    have hl := (rawContent_length_eq_iff hsh).mpr hw
    obtain ⟨total, ht⟩ := totalBlocks_returns .debug fun _ => hsum
    obtain ⟨bytes, hb⟩ := encode_returns .debug fun _ => hsum
    have ha : (SparseFile.new f.header.blkSz).header.totalBlks.toNat + blockSum f.chunks < 2 ^ 32 := by
      simpa [SparseFile.new, SparseHeader.new] using hsum
    obtain ⟨g, hg⟩ := addChunks_ok .debug ha
    refine ⟨htl, ⟨_, toRaw_ok hcap ?_, ?_⟩, ?_, ?_, split_noPanic hsh hsum,
      ?_, fromBytes_totalSize hf⟩
    · rw [hl, ← htl]
      exact hcap
    · rw [hl, htl]
    · rw [ht]
      exact noPanic_ok _
    · rw [hb]
      exact noPanic_ok _
    · rw [hg]
      exact noPanic_ok _

def fillImage : Bytes :=
  (SparseHeader.new 4096 3 1).encode ++ (SparseChunkHeader.new chunkTypeFill 3 16).encode
    ++ [1, 2, 3, 4]

theorem fillImage_consistent :
    ∃ f, SparseFile.fromBytes fillImage = .ok f ∧ f.Consistent fillImage := by
  have hf : fromBytes fillImage = .ok
      ⟨SparseHeader.new 4096 3 1, [⟨chunkTypeFill, 3, [1, 2, 3, 4]⟩]⟩ := by decide
  refine ⟨_, hf, (consistent_iff hf).mpr ⟨by decide, ?_, by decide⟩⟩
  simp [SparseChunk.Whole, SparseHeader.new, chunkTypeFill, chunkTypeCrc32]

/-- Two DONT_CARE chunks of `u32::MAX` blocks each, behind a header that announces a thousand. -/
def overflowImage : Bytes :=
  (SparseHeader.new 4096 1000 2).encode
    ++ (SparseChunkHeader.new chunkTypeDontCare 0xFFFFFFFF 12).encode
    ++ (SparseChunkHeader.new chunkTypeDontCare 0xFFFFFFFF 12).encode

/-- An image is accepted whose chunks have more blocks than it states. -/
theorem overflowImage_not_consistent :
    ∃ f, SparseFile.fromBytes overflowImage = .ok f ∧ ¬f.Consistent overflowImage ∧
      f.header.totalBlks.toNat ≠ blockSum f.chunks ∧ f.encode .debug = panicked := by
  have hf : fromBytes overflowImage = .ok ⟨SparseHeader.new 4096 1000 2,
      [⟨chunkTypeDontCare, 0xFFFFFFFF, []⟩, ⟨chunkTypeDontCare, 0xFFFFFFFF, []⟩]⟩ := by
    decide
  exact ⟨_, hf, fun h => absurd h.totalBlks (by decide), by decide, by decide⟩

end AdbFastboot
