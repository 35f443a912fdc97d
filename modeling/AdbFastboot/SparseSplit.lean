import AdbFastboot.SparseParse

namespace AdbFastboot

open Prod.Lex

section

inductive Turn (σ : Type) where
  | again (s : σ)
  | stop (s : σ)

structure SplitState where
  splits : List SparseFile
  current : SparseFile
  remaining : UInt32
  rawOffset : Nat

/-- The chunk does not fit: open a new piece, or give up on a piece that is still empty. -/
def newPiece (blkSz : UInt32) (maxSize minRequired : Nat) (s : SplitState) :
    Outcome SparseError (Turn SplitState) :=
  if s.current.chunks ≠ [] then
    .ok (.again { s with
      splits := s.splits ++ [s.current], current := SparseFile.new blkSz })
  else fail (.maxDownloadSizeTooSmall maxSize minRequired)

def splitRound (profile : Profile) (blkSz : UInt32) (maxSize : Nat) (chunk : SparseChunk)
    (s : SplitState) : Outcome SparseError (Turn SplitState) :=
  let minRequired := SparseHeader.size + SparseChunkHeader.size + blkSz.toNat
  let avail := maxSize - s.current.totalSize
  if chunk.chunkType = chunkTypeRaw then
    let blocksThatFit := (avail - SparseChunkHeader.size) / blkSz.toNat
    if blocksThatFit = 0 then newPiece blkSz maxSize minRequired s else do
    let takeBlocks := min s.remaining (UInt32.ofNat blocksThatFit)
    let takeBytes := takeBlocks.toNat * blkSz.toNat
    let payload ← sliceAt chunk.payload s.rawOffset (s.rawOffset + takeBytes)
    let current ← s.current.addChunk profile ⟨chunkTypeRaw, takeBlocks, payload⟩
    pure (.again { s with
      current := current, remaining := s.remaining - takeBlocks,
      rawOffset := s.rawOffset + takeBytes })
  else if chunk.chunkType = chunkTypeFill then
    if avail < SparseChunkHeader.size + 4 then newPiece blkSz maxSize minRequired s else do
    let current ← s.current.addChunk profile ⟨chunkTypeFill, s.remaining, chunk.payload⟩
    pure (.again { s with current := current, remaining := 0 })
  else if chunk.chunkType = chunkTypeDontCare then
    if avail < SparseChunkHeader.size then newPiece blkSz maxSize minRequired s else do
    let current ← s.current.addChunk profile ⟨chunkTypeDontCare, s.remaining, []⟩
    pure (.again { s with current := current, remaining := 0 })
  else if chunk.chunkType = chunkTypeCrc32 then
    if avail < SparseChunkHeader.size + 4 then newPiece blkSz maxSize minRequired s else do
    let current ← s.current.addChunk profile ⟨chunkTypeCrc32, 0, chunk.payload⟩
    pure (.stop { s with current := current })
  else fail (.unknownChunkType chunk.chunkType)

def Starts (blkSz : UInt32) (maxSize used : Nat) (chunk : SparseChunk) : Prop :=
  if chunk.chunkType = chunkTypeRaw then
    (maxSize - used - SparseChunkHeader.size) / blkSz.toNat ≠ 0
  else if chunk.chunkType = chunkTypeDontCare then SparseChunkHeader.size ≤ maxSize - used
  else SparseChunkHeader.size + 4 ≤ maxSize - used

instance (blkSz : UInt32) (maxSize used : Nat) (chunk : SparseChunk) :
    Decidable (Starts blkSz maxSize used chunk) :=
  inferInstanceAs (Decidable (ite _ _ _))

def takeBlocks (blkSz : UInt32) (maxSize used : Nat) (remaining : UInt32) : UInt32 :=
  min remaining (UInt32.ofNat ((maxSize - used - SparseChunkHeader.size) / blkSz.toNat))

inductive SplitCase (profile : Profile) (blkSz : UInt32) (maxSize : Nat) (chunk : SparseChunk)
    (s : SplitState) : Turn SplitState → Prop
  | flush (hne : s.current.chunks ≠ [])
      (hfit : ¬Starts blkSz maxSize s.current.totalSize chunk) :
      SplitCase profile blkSz maxSize chunk s (.again { s with
        splits := s.splits ++ [s.current], current := SparseFile.new blkSz })
  | raw {take : UInt32} {current : SparseFile} (ht : chunk.chunkType = chunkTypeRaw)
      (hfit : Starts blkSz maxSize s.current.totalSize chunk)
      (htake : take = takeBlocks blkSz maxSize s.current.totalSize s.remaining)
      (hlen : s.rawOffset + take.toNat * blkSz.toNat ≤ chunk.payload.length)
      (hadd : s.current.addChunk profile ⟨chunkTypeRaw, take,
        slice chunk.payload s.rawOffset (s.rawOffset + take.toNat * blkSz.toNat)⟩ = .ok current) :
      SplitCase profile blkSz maxSize chunk s (.again { s with
        current := current, remaining := s.remaining - take,
        rawOffset := s.rawOffset + take.toNat * blkSz.toNat })
  | fill {current : SparseFile} (ht : chunk.chunkType = chunkTypeFill)
      (hfit : Starts blkSz maxSize s.current.totalSize chunk)
      (hadd : s.current.addChunk profile ⟨chunkTypeFill, s.remaining, chunk.payload⟩
        = .ok current) :
      SplitCase profile blkSz maxSize chunk s (.again { s with
        current := current, remaining := 0 })
  | dontCare {current : SparseFile} (ht : chunk.chunkType = chunkTypeDontCare)
      (hfit : Starts blkSz maxSize s.current.totalSize chunk)
      (hadd : s.current.addChunk profile ⟨chunkTypeDontCare, s.remaining, []⟩ = .ok current) :
      SplitCase profile blkSz maxSize chunk s (.again { s with
        current := current, remaining := 0 })
  | crc {current : SparseFile} (ht : chunk.chunkType = chunkTypeCrc32)
      (hfit : Starts blkSz maxSize s.current.totalSize chunk)
      (hadd : s.current.addChunk profile ⟨chunkTypeCrc32, 0, chunk.payload⟩ = .ok current) :
      SplitCase profile blkSz maxSize chunk s (.stop { s with current := current })

variable {profile : Profile} {blkSz : UInt32} {maxSize : Nat} {chunk : SparseChunk}
  {s t : SplitState} {turn : Turn SplitState}

theorem newPiece_cases {minRequired : Nat} (hf : ¬Starts blkSz maxSize s.current.totalSize chunk)
    (h : newPiece blkSz maxSize minRequired s = .ok turn) :
    SplitCase profile blkSz maxSize chunk s turn := by
  unfold newPiece at h
  split at h
  next hne =>
    cases h
    exact .flush hne hf
  next => simp at h

/-- A round stops, places something, or begins a new piece. -/
theorem splitRound_cases (h : splitRound profile blkSz maxSize chunk s = .ok turn) :
    SplitCase profile blkSz maxSize chunk s turn := by
  unfold splitRound at h
  simp only at h
  split at h
  next ht =>
    split at h
    next hz => exact newPiece_cases (by simp [Starts, ht, hz]) h
    next hn =>
      obtain ⟨payload, hp, hrs⟩ := bind_eq_ok.mp h
      obtain ⟨_, hl, rfl⟩ := sliceAt_eq_ok hp
      obtain ⟨current, ha, htr⟩ := bind_eq_ok.mp hrs
      cases htr
      exact .raw ht (by simpa [Starts, ht] using hn) rfl hl ha
  next hr =>
    split at h
    next ht =>
      split at h
      next hlt => exact newPiece_cases (by
        simp [Starts, ht, chunkTypeFill, chunkTypeRaw, chunkTypeDontCare]; omega) h
      next hge =>
        obtain ⟨current, ha, h⟩ := bind_eq_ok.mp h
        cases h
        exact .fill ht (by
          simp [Starts, ht, chunkTypeFill, chunkTypeRaw, chunkTypeDontCare]; omega) ha
    next hf =>
      split at h
      next ht =>
        split at h
        next hlt => exact newPiece_cases (by simp [Starts, ht, chunkTypeRaw, chunkTypeDontCare]; omega) h
        next hge =>
          obtain ⟨current, ha, h⟩ := bind_eq_ok.mp h
          cases h
          exact .dontCare ht (by simp [Starts, ht, chunkTypeRaw, chunkTypeDontCare]; omega) ha
      next hd =>
        split at h
        next ht =>
          split at h
          next hlt => exact newPiece_cases (by
            simp [Starts, ht, chunkTypeCrc32, chunkTypeRaw, chunkTypeDontCare]; omega) h
          next hge =>
            obtain ⟨current, ha, h⟩ := bind_eq_ok.mp h
            cases h
            exact .crc ht (by
              simp [Starts, ht, chunkTypeCrc32, chunkTypeRaw, chunkTypeDontCare]; omega) ha
        next => simp at h

end

section

variable {profile : Profile} {blkSz : UInt32} {maxSize : Nat} {chunk : SparseChunk}
  {s t : SplitState}

theorem addChunk_totalSize {f g : SparseFile} {c : SparseChunk}
    (h : f.addChunk profile c = .ok g) : g.totalSize = f.totalSize + c.totalSize := by
  obtain ⟨hc, _⟩ := SparseFile.addChunk_eq_ok h
  simp only [SparseFile.totalSize, hc, List.map_append, List.sum_append, List.map_cons,
    List.map_nil, List.sum_cons, List.sum_nil]
  omega

theorem takeBlocks_toNat (blkSz : UInt32) (maxSize used : Nat) (remaining : UInt32) :
    (takeBlocks blkSz maxSize used remaining).toNat = min remaining.toNat
      ((maxSize - used - SparseChunkHeader.size) / blkSz.toNat % 2 ^ 32) := by
  have hm (a b : UInt32) : (min a b).toNat = min a.toNat b.toNat := by
    change (if a ≤ b then a else b).toNat = _
    split
    next hle => rw [Nat.min_eq_left (UInt32.le_iff_toNat_le.mp hle)]
    next hlt =>
      rw [UInt32.le_iff_toNat_le] at hlt
      rw [Nat.min_eq_right (by omega)]
  rw [takeBlocks, hm, UInt32.toNat_ofNat']

/-- The piece has chunks and the next round opens a new one. -/
def Stuck (blkSz : UInt32) (maxSize : Nat) (chunk : SparseChunk) (s : SplitState) : Prop :=
  s.current.chunks ≠ [] ∧ ¬Starts blkSz maxSize s.current.totalSize chunk

instance (blkSz : UInt32) (maxSize : Nat) (chunk : SparseChunk) (s : SplitState) :
    Decidable (Stuck blkSz maxSize chunk s) :=
  inferInstanceAs (Decidable (_ ∧ _))

def Loops (chunk : SparseChunk) (s : SplitState) : Prop :=
  s.remaining ≠ 0 ∨ chunk.chunkType = chunkTypeCrc32

instance (chunk : SparseChunk) (s : SplitState) : Decidable (Loops chunk s) :=
  inferInstanceAs (Decidable (_ ∨ _))

def SplitNext (profile : Profile) (blkSz : UInt32) (maxSize : Nat) (chunk : SparseChunk)
    (t s : SplitState) : Prop :=
  Loops chunk s ∧ splitRound profile blkSz maxSize chunk s = .ok (.again t)

def splitMeasure (blkSz : UInt32) (maxSize : Nat) (chunk : SparseChunk) (s : SplitState) :
    Nat × Nat × Nat :=
  (s.remaining.toNat, if Stuck blkSz maxSize chunk s then 1 else 0, maxSize - s.current.totalSize)

/-- A round that takes no block needs room for `2 ^ 32` blocks, so room is left after it. -/
theorem emptyTake_not_stuck {used : Nat} {remaining : UInt32}
    (hrem : remaining ≠ 0) (hraw : chunk.chunkType = chunkTypeRaw)
    (hf : Starts blkSz maxSize used chunk)
    (hz : (takeBlocks blkSz maxSize used remaining).toNat = 0) :
    used + 12 < maxSize ∧ Starts blkSz maxSize (used + 12) chunk := by
  simp only [Starts, hraw, if_true] at hf ⊢
  rw [takeBlocks_toNat] at hz
  have hr := u32_toNat_pos hrem
  have hbig : 2 ^ 32 ≤ (maxSize - used - SparseChunkHeader.size) / blkSz.toNat := by
    by_contra hlt
    rw [Nat.mod_eq_of_lt (by omega)] at hz
    omega
  have hb : 0 < blkSz.toNat := Nat.pos_of_ne_zero fun h => by simp [h] at hbig
  have hm := (Nat.le_div_iff_mul_le hb).mp hbig
  refine ⟨by omega, ?_⟩
  have hp := Nat.div_pos (show blkSz.toNat ≤ maxSize - (used + 12) - SparseChunkHeader.size by
    omega) hb
  omega

/-- Each round leaves less to place, or more room. -/
theorem splitNext_decreases (h : SplitNext profile blkSz maxSize chunk t s) :
    Prod.Lex (· < ·) (Prod.Lex (· < ·) (· < ·)) (splitMeasure blkSz maxSize chunk t)
      (splitMeasure blkSz maxSize chunk s) := by
  obtain ⟨hl, hr⟩ := h
  have hty : chunkTypeRaw ≠ chunkTypeCrc32 ∧ chunkTypeFill ≠ chunkTypeCrc32 ∧
      chunkTypeDontCare ≠ chunkTypeCrc32 := by decide
  have hp {u : UInt16} (ht : chunk.chunkType = u) (hu : u ≠ chunkTypeCrc32) :
      s.remaining ≠ 0 := hl.resolve_right (by rw [ht]; exact hu)
  cases splitRound_cases hr with
  | flush hne hf =>
    apply right
    apply left
    simp [Stuck, SparseFile.new, hne, hf]
  | @raw take current ht hf htk hlen ha =>
    have hrem := hp ht hty.1
    have hle : take.toNat ≤ s.remaining.toNat := by rw [htk, takeBlocks_toNat]; omega
    have hs := UInt32.toNat_sub_of_le _ _ (UInt32.le_iff_toNat_le.mpr hle)
    by_cases hz : take.toNat = 0
    · obtain ⟨hrm, hn⟩ := emptyTake_not_stuck hrem ht hf (by rw [← htk]; exact hz)
      have hsz := addChunk_totalSize ha
      simp only [SparseChunk.totalSize, SparseChunkHeader.size, hz, Nat.zero_mul, Nat.add_zero,
        slice, Nat.sub_self, List.take_zero, List.length_nil] at hsz
      have hsm : s.remaining - take = s.remaining :=
        UInt32.toNat_inj.mp (by rw [hs, hz, Nat.sub_zero])
      simp only [splitMeasure, hsm, Stuck, hsz, hn, hf, not_true_eq_false, and_false, if_false]
      exact right _ (right _ (by omega))
    · apply left
      simp only [hs]
      omega
  | fill ht =>
    apply left
    simpa using u32_toNat_pos (hp ht hty.2.1)
  | dontCare ht =>
    apply left
    simpa using u32_toNat_pos (hp ht hty.2.2)

/-- No state of the inner loop starts an endless run of rounds. -/
theorem splitNext_wellFounded (profile : Profile) (blkSz : UInt32) (maxSize : Nat)
    (chunk : SparseChunk) : WellFounded (SplitNext profile blkSz maxSize chunk) :=
  Subrelation.wf (fun h => splitNext_decreases h) (InvImage.wf (splitMeasure blkSz maxSize chunk)
      (Prod.lex Nat.lt_wfRel (Prod.lex Nat.lt_wfRel Nat.lt_wfRel)).wf)

end

def splitWhile (profile : Profile) (blkSz : UInt32) (maxSize : Nat) (chunk : SparseChunk)
    (s : SplitState) : Outcome SparseError SplitState :=
  if _hloop : Loops chunk s then
    match _hround : splitRound profile blkSz maxSize chunk s with
    | .error e => .error e
    | .ok (.stop t) => .ok t
    | .ok (.again t) => splitWhile profile blkSz maxSize chunk t
  else .ok s
termination_by splitMeasure blkSz maxSize chunk s
decreasing_by exact splitNext_decreases ⟨_hloop, _hround⟩

def splitChunks (profile : Profile) (blkSz : UInt32) (maxSize : Nat) :
    List SparseChunk → SplitState → Outcome SparseError SplitState
  | [], s => .ok s
  | chunk :: chunks, s => do
    let t ← splitWhile profile blkSz maxSize chunk
      { s with remaining := chunk.chunkBlocks, rawOffset := 0 }
    splitChunks profile blkSz maxSize chunks t

def SparseFile.split (profile : Profile) (f : SparseFile) (maxSize : Nat) :
    Outcome SparseError (List SparseFile) :=
  if f.header.blkSz = 0 then fail (.invalidBlockSize 0) else
  let minRequired := SparseHeader.size + SparseChunkHeader.size + f.header.blkSz.toNat
  if maxSize < minRequired then fail (.maxDownloadSizeTooSmall maxSize minRequired) else do
  let s ← splitChunks profile f.header.blkSz maxSize f.chunks
    ⟨[], SparseFile.new f.header.blkSz, 0, 0⟩
  pure (if s.current.chunks ≠ [] then s.splits ++ [s.current] else s.splits)

section

variable {profile : Profile} {blkSz : UInt32} {maxSize : Nat} {chunk : SparseChunk}
  {s t : SplitState}

theorem splitWhile_again (hl : Loops chunk s)
    (h : splitRound profile blkSz maxSize chunk s = .ok (.again t)) :
    splitWhile profile blkSz maxSize chunk s = splitWhile profile blkSz maxSize chunk t := by
  rw [splitWhile, dif_pos hl]
  split <;> simp_all

theorem splitWhile_stop (hl : Loops chunk s)
    (h : splitRound profile blkSz maxSize chunk s = .ok (.stop t)) :
    splitWhile profile blkSz maxSize chunk s = .ok t := by
  rw [splitWhile, dif_pos hl]
  split <;> simp_all

theorem splitWhile_leave (hl : ¬Loops chunk s) : splitWhile profile blkSz maxSize chunk s = .ok s := by
  rw [splitWhile, dif_neg hl]

end

variable {profile : Profile} {maxSize : Nat} {s : SplitState}

/-- To show `Q` of where the inner loop ends, keep `I` through its rounds. -/
theorem splitWhile_invariant {blkSz : UInt32} {chunk : SparseChunk} {I Q : SplitState → Prop}
    (again : ∀ s t, I s → Loops chunk s → SplitCase profile blkSz maxSize chunk s (.again t) → I t)
    (stop : ∀ s t, I s → SplitCase profile blkSz maxSize chunk s (.stop t) → Q t)
    (leave : ∀ s, I s → ¬Loops chunk s → Q s) {t : SplitState} (hs : I s)
    (h : splitWhile profile blkSz maxSize chunk s = .ok t) : Q t := by
  induction s using (splitNext_wellFounded profile blkSz maxSize chunk).induction with
  | h s ih =>
    rw [splitWhile] at h
    split at h
    next hl =>
      split at h
      next => simp at h
      next u hr =>
        cases h
        exact stop s t hs (splitRound_cases hr)
      next u hr =>
        exact ih u ⟨hl, hr⟩ (again s u hs hl (splitRound_cases hr)) h
    next hl =>
      cases h
      exact leave _ hs hl

theorem splitChunks_cons {blkSz : UInt32} {chunk : SparseChunk} {chunks : List SparseChunk} {t : SplitState}
    (h : splitWhile profile blkSz maxSize chunk
      { s with remaining := chunk.chunkBlocks, rawOffset := 0 } = .ok t) :
    splitChunks profile blkSz maxSize (chunk :: chunks) s = splitChunks profile blkSz maxSize chunks t := by
  rw [splitChunks, h, ok_bind]

theorem SparseFile.split_ok {f : SparseFile} (hb : f.header.blkSz ≠ 0)
    (hm : 40 + f.header.blkSz.toNat ≤ maxSize)
    (h : splitChunks profile f.header.blkSz maxSize f.chunks
      ⟨[], SparseFile.new f.header.blkSz, 0, 0⟩ = .ok s) :
    f.split profile maxSize
      = .ok (if s.current.chunks ≠ [] then s.splits ++ [s.current] else s.splits) := by
  have h40 : SparseHeader.size + SparseChunkHeader.size = 40 := rfl
  rw [SparseFile.split, if_neg hb]
  rw [if_neg (by omega), h, ok_bind, pure_eq_ok]

/-- A split that is returned comes of the loop over the chunks. -/
theorem SparseFile.split_eq_ok {f : SparseFile} {pieces : List SparseFile}
    (h : f.split profile maxSize = .ok pieces) :
    f.header.blkSz ≠ 0 ∧ 40 + f.header.blkSz.toNat ≤ maxSize ∧
      ∃ s, splitChunks profile f.header.blkSz maxSize f.chunks
          ⟨[], SparseFile.new f.header.blkSz, 0, 0⟩ = .ok s ∧
        pieces = if s.current.chunks ≠ [] then s.splits ++ [s.current] else s.splits := by
  unfold SparseFile.split at h
  split at h
  next => simp at h
  next hb =>
    simp only at h
    split at h
    next => simp at h
    next hm =>
      obtain ⟨s, hs, h⟩ := bind_eq_ok.mp h
      simp only [SparseHeader.size, SparseChunkHeader.size] at hm
      exact ⟨hb, by omega, s, hs, (Except.ok.inj h).symm⟩

end AdbFastboot
