import AdbFastboot.SparseSplitPieces

namespace AdbFastboot

open SparseFile List SparseChunk

def SparseChunk.Built (blkSz : UInt32) (c : SparseChunk) : Prop :=
  (∃ data, data.length / blkSz.toNat < 2 ^ 32 ∧ raw data blkSz = .ok c) ∨
  (∃ fillVal blocks, fill fillVal blocks = .ok c) ∨
  (∃ blocks, dontCare blocks = .ok c) ∨ ∃ crc, crc32 crc = .ok c

/-- A file made by `new` and `add_chunk` of such chunks. -/
inductive SparseFile.Constructed (profile : Profile) (blkSz : UInt32) : SparseFile → Prop
  | new : Constructed profile blkSz (SparseFile.new blkSz)
  | add {f g : SparseFile} {c : SparseChunk} (hf : Constructed profile blkSz f)
      (hc : c.Built blkSz) (h : f.addChunk profile c = .ok g) : Constructed profile blkSz g

variable {blkSz : UInt32}

theorem SparseChunk.Built.shaped {c : SparseChunk} (h : c.Built blkSz) : c.Shaped blkSz := by
  rcases h with ⟨data, hlt, h⟩ | ⟨v, n, h⟩ | ⟨n, h⟩ | ⟨v, h⟩
  · unfold raw at h
    split at h
    next => simp at h
    split at h
    next => simp at h
    split at h
    next => simp at h
    next hm =>
      cases h
      refine Or.inl ⟨rfl, ?_⟩
      simp only [UInt32.toNat_ofNat', Nat.mod_eq_of_lt hlt]
      rw [Nat.div_mul_cancel (Nat.dvd_of_mod_eq_zero (Classical.not_not.mp hm))]
  · unfold fill at h
    split at h
    next => simp at h
    cases h
    exact Or.inr (Or.inl ⟨rfl, u32Le_length v⟩)
  · unfold dontCare at h
    split at h
    next => simp at h
    cases h
    exact Or.inr (Or.inr (Or.inl ⟨rfl, rfl⟩))
  · cases h
    exact Or.inr (Or.inr (Or.inr ⟨rfl, u32Le_length v⟩))

theorem SparseFile.Constructed.shaped {profile : Profile} {f : SparseFile}
    (h : f.Constructed profile blkSz) :
    f.header.blkSz = blkSz ∧ ∀ c ∈ f.chunks, c.Shaped blkSz := by
  induction h with
  | new => exact ⟨rfl, by simp [SparseFile.new]⟩
  | add _ hc h ih =>
    obtain ⟨hck, hb⟩ := addChunk_eq_ok h
    refine ⟨hb.trans ih.1, ?_⟩
    intro c hm
    rw [hck] at hm
    rcases mem_append.mp hm with hm | hm
    · exact ih.2 c hm
    · obtain rfl := mem_singleton.mp hm
      exact hc.shaped

/-- The files `split` is meant for: parsed ones and constructed ones. -/
def SparseFile.Available (profile : Profile) (f : SparseFile) : Prop :=
  (∃ buf, fromBytes buf = .ok f) ∨ f.Constructed profile f.header.blkSz

theorem SparseFile.Available.shaped {profile : Profile} {f : SparseFile}
    (h : f.Available profile) : ∀ c ∈ f.chunks, c.Shaped f.header.blkSz := by
  rcases h with ⟨buf, h⟩ | h
  · exact fun c hc => (fromBytes_shaped h c hc).1
  · exact h.shaped.2

def crcPositions : Nat → List SparseChunk → List (Nat × Bytes)
  | _, [] => []
  | pos, c :: cs =>
    if c.chunkType = chunkTypeCrc32 then
      (pos, c.payload) :: crcPositions (pos + c.chunkBlocks.toNat) cs
    else crcPositions (pos + c.chunkBlocks.toNat) cs

theorem crcPositions_eq_nil {cs : List SparseChunk}
    (h : ∀ c ∈ cs, c.chunkType ≠ chunkTypeCrc32) (pos : Nat) : crcPositions pos cs = [] := by
  induction cs generalizing pos with
  | nil => rfl
  | cons c cs ih =>
    rw [crcPositions, if_neg (h c mem_cons_self)]
    exact ih (fun d hd => h d (mem_cons_of_mem c hd)) _

section

variable {blkSz : UInt32} {c : SparseChunk} {cs es : List SparseChunk}
  {ess : List (List SparseChunk)}

/-- A chunk that is cut keeps its blocks, unless it is a CRC that counts some. -/
theorem Recut.blockSum (h : Recut blkSz c es) :
    blockSum es ≤ c.chunkBlocks.toNat ∧ (blockSum es = c.chunkBlocks.toNat ↔
      (c.chunkType = chunkTypeCrc32 → c.chunkBlocks = 0)) := by
  have hty : chunkTypeRaw ≠ chunkTypeCrc32 ∧ chunkTypeFill ≠ chunkTypeCrc32 ∧
      chunkTypeDontCare ≠ chunkTypeCrc32 := by decide
  cases h with
  | raw ht he hp hb => simp [hb, ht, hty]
  | fill ht | dontCare ht => simp [ht, hty]
  | crc ht => simp [ht, ← UInt32.toNat_inj, eq_comm]
  | skip ht hb => simp [ht, hb]

theorem rawContent_of_raw (h : ∀ e ∈ es, e.chunkType = chunkTypeRaw) :
    rawContent blkSz es = es.flatMap payload := by
  unfold rawContent
  rw [flatMap_def, flatMap_def,
    map_congr_left fun e he => show chunkRaw blkSz e = e.payload by simp [chunkRaw, h e he]]

theorem Recut.rawContent (hc : c.Shaped blkSz) (h : Recut blkSz c es) :
    rawContent blkSz es = chunkRaw blkSz c := by
  cases h with
  | raw ht hes hp hb =>
    have hlen : c.payload.length = c.chunkBlocks.toNat * blkSz.toNat := by
      rcases hc with ⟨_, hl⟩ | ⟨h, _⟩ | ⟨h, _⟩ | ⟨h, _⟩
      · exact hl
      all_goals rw [ht] at h; exact absurd h (by decide)
    rw [rawContent_of_raw fun e he => (hes e he).1, hp, ← hlen, take_length]
    simp [chunkRaw, ht]
  | fill ht => simp [AdbFastboot.rawContent, chunkRaw, ht]
  | dontCare ht =>
    simp [AdbFastboot.rawContent, chunkRaw, ht, chunkTypeRaw, chunkTypeFill, chunkTypeDontCare]
  | crc ht =>
    simp [AdbFastboot.rawContent, chunkRaw, ht, chunkTypeRaw, chunkTypeFill, chunkTypeDontCare,
      chunkTypeCrc32]
  | skip ht hb =>
    rcases hc with ⟨h, hl⟩ | ⟨h, hl⟩ | ⟨h, hl⟩ | ⟨h, hl⟩
    · have hn : c.payload = [] := by simpa [hb] using hl
      simp [AdbFastboot.rawContent, chunkRaw, h, hn]
    · simp [AdbFastboot.rawContent, chunkRaw, h, hb, chunkTypeRaw, chunkTypeFill]
    · simp [AdbFastboot.rawContent, chunkRaw, h, hb, chunkTypeRaw, chunkTypeFill, chunkTypeDontCare]
    · exact absurd h ht

theorem Recut.crcPositions (h : Recut blkSz c es) (pos : Nat) : crcPositions pos es = crcPositions pos [c] := by
  cases h with
  | raw ht hes =>
    have hne : chunkTypeRaw ≠ chunkTypeCrc32 := by decide
    rw [crcPositions_eq_nil fun e he => by rw [(hes e he).1]; exact hne,
      crcPositions_eq_nil (by simp [ht, hne])]
  | fill ht => simp [AdbFastboot.crcPositions, ht]
  | dontCare ht => simp [AdbFastboot.crcPositions, ht, chunkTypeDontCare, chunkTypeCrc32]
  | crc ht | skip ht hb => simp [AdbFastboot.crcPositions, ht]

end

variable {pieces : List SparseFile}

section

variable {profile : Profile} {f : SparseFile} {maxSize : Nat} {pieces : List SparseFile}

section

variable (hf : ∀ c ∈ f.chunks, c.Shaped f.header.blkSz) (h : f.split profile maxSize = .ok pieces)
include hf h

end

end

end AdbFastboot
