import AdbFastboot.SparseSplit

namespace AdbFastboot

open List SparseFile SplitState

section

/-- The chunks that `split` writes for one chunk of its input. -/
inductive Recut (blkSz : UInt32) (chunk : SparseChunk) : List SparseChunk → Prop
  | raw {es : List SparseChunk} (ht : chunk.chunkType = chunkTypeRaw)
      (hes : ∀ e ∈ es, e.chunkType = chunkTypeRaw ∧
        e.payload.length = e.chunkBlocks.toNat * blkSz.toNat)
      (hp : es.flatMap SparseChunk.payload
        = chunk.payload.take (chunk.chunkBlocks.toNat * blkSz.toNat))
      (hb : blockSum es = chunk.chunkBlocks.toNat) : Recut blkSz chunk es
  | fill (ht : chunk.chunkType = chunkTypeFill) :
      Recut blkSz chunk [⟨chunkTypeFill, chunk.chunkBlocks, chunk.payload⟩]
  | dontCare (ht : chunk.chunkType = chunkTypeDontCare) :
      Recut blkSz chunk [⟨chunkTypeDontCare, chunk.chunkBlocks, []⟩]
  | crc (ht : chunk.chunkType = chunkTypeCrc32) :
      Recut blkSz chunk [⟨chunkTypeCrc32, 0, chunk.payload⟩]
  | skip (ht : chunk.chunkType ≠ chunkTypeCrc32) (hb : chunk.chunkBlocks = 0) :
      Recut blkSz chunk []

/-- What the inner loop has written so far, with `rem` blocks left and `off` payload bytes used. -/
inductive Cutting (blkSz : UInt32) (chunk : SparseChunk) :
    UInt32 → Nat → List SparseChunk → Prop
  | start : Cutting blkSz chunk chunk.chunkBlocks 0 []
  | raw {rem : UInt32} {off : Nat} {es : List SparseChunk}
      (ht : chunk.chunkType = chunkTypeRaw)
      (hes : ∀ e ∈ es, e.chunkType = chunkTypeRaw ∧
        e.payload.length = e.chunkBlocks.toNat * blkSz.toNat)
      (hp : es.flatMap SparseChunk.payload = chunk.payload.take off)
      (hoff : off = blockSum es * blkSz.toNat)
      (hb : blockSum es + rem.toNat = chunk.chunkBlocks.toNat) : Cutting blkSz chunk rem off es
  | done {off : Nat} {es : List SparseChunk} (ht : chunk.chunkType ≠ chunkTypeCrc32)
      (hes : Recut blkSz chunk es) : Cutting blkSz chunk 0 off es

def SplitState.placed (s : SplitState) : List SparseChunk :=
  s.splits.flatMap SparseFile.chunks ++ s.current.chunks

section

variable {profile : Profile} {blkSz : UInt32} {maxSize : Nat} {chunk : SparseChunk}
  {s t : SplitState}

theorem placed_flush (s : SplitState) (blkSz : UInt32) : placed { s with
      splits := s.splits ++ [s.current], current := SparseFile.new blkSz } = s.placed := by
  simp [placed, SparseFile.new]

variable {rem : UInt32} {es : List SparseChunk} {off : Nat}

theorem placed_addChunk {c : SparseChunk} {current : SparseFile}
    (h : s.current.addChunk profile c = .ok current) :
    placed { s with current := current, remaining := rem, rawOffset := off } = s.placed ++ [c] := by
  simp [placed, (addChunk_eq_ok h).1]

section

variable (h : Cutting blkSz chunk rem off es)
include h

theorem Cutting.raw_of_remaining (hr : rem ≠ 0) : (∀ e ∈ es, e.chunkType = chunkTypeRaw ∧
      e.payload.length = e.chunkBlocks.toNat * blkSz.toNat) ∧
    es.flatMap SparseChunk.payload = chunk.payload.take off ∧ off = blockSum es * blkSz.toNat ∧
    blockSum es + rem.toNat = chunk.chunkBlocks.toNat := by
  cases h with
  | start => simp
  | raw _ he hp ho hb => exact ⟨he, hp, ho, hb⟩
  | done => exact absurd rfl hr

theorem Cutting.whole (ht : chunk.chunkType ≠ chunkTypeRaw)
    (hr : rem ≠ 0 ∨ chunk.chunkType = chunkTypeCrc32) : es = [] ∧ rem = chunk.chunkBlocks := by
  cases h with
  | start => exact ⟨rfl, rfl⟩
  | raw hraw => exact absurd hraw ht
  | done hc => exact absurd hr (by simp [hc])

/-- A further cut of a raw chunk goes on where the last one ended. -/
theorem Cutting.add_raw {take : UInt32} (ht : chunk.chunkType = chunkTypeRaw) (hr : rem ≠ 0)
    (hle : take.toNat ≤ rem.toNat) (hl : off + take.toNat * blkSz.toNat ≤ chunk.payload.length) :
    Cutting blkSz chunk (rem - take) (off + take.toNat * blkSz.toNat) (es ++ [⟨chunkTypeRaw, take,
      slice chunk.payload off (off + take.toNat * blkSz.toNat)⟩]) := by
  obtain ⟨hes, hp, ho, hb⟩ := h.raw_of_remaining hr
  have hs := UInt32.toNat_sub_of_le _ _ (UInt32.le_iff_toNat_le.mpr hle)
  have hsl := slice_length hl (a := off)
  refine .raw ht ?_ ?_ ?_ ?_
  · intro e he
    rcases mem_append.mp he with he | he
    · exact hes e he
    · obtain rfl := mem_singleton.mp he
      exact ⟨rfl, by simp only; omega⟩
  · simp only [flatMap_append, hp, flatMap_singleton, slice, Nat.add_sub_cancel_left]
    rw [take_add]
  · simp [ho, Nat.add_mul]
  · simp only [blockSum_append, blockSum_cons, blockSum_nil, hs]
    omega

end

/-- A round that goes on cuts the chunk further. -/
theorem cutting_again {base : List SparseChunk} (hl : Loops chunk s)
    (hs : s.placed = base ++ es ∧ Cutting blkSz chunk s.remaining s.rawOffset es)
    (h : SplitCase profile blkSz maxSize chunk s (.again t)) :
    ∃ ds, t.placed = base ++ ds ∧ Cutting blkSz chunk t.remaining t.rawOffset ds := by
  obtain ⟨hp, hc⟩ := hs
  have hty : chunkTypeRaw ≠ chunkTypeCrc32 ∧ chunkTypeFill ≠ chunkTypeCrc32 ∧
      chunkTypeDontCare ≠ chunkTypeCrc32 := by decide
  cases h with
  | flush => exact ⟨es, by rw [placed_flush, hp], hc⟩
  | @raw take current ht hf htk hlen ha =>
    have hle : take.toNat ≤ s.remaining.toNat := by rw [htk, takeBlocks_toNat]; omega
    have hr := hl.resolve_right (by rw [ht]; exact hty.1)
    exact ⟨_, by rw [placed_addChunk ha, hp, append_assoc], hc.add_raw ht hr hle hlen⟩
  | fill ht hf ha =>
    obtain ⟨rfl, hrem⟩ := hc.whole (by rw [ht]; decide) hl
    refine ⟨[⟨chunkTypeFill, s.remaining, chunk.payload⟩], by rw [placed_addChunk ha, hp, append_nil],
      .done (by rw [ht]; exact hty.2.1) ?_⟩
    rw [hrem]
    exact .fill ht
  | dontCare ht hf ha =>
    obtain ⟨rfl, hrem⟩ := hc.whole (by rw [ht]; decide) hl
    refine ⟨[⟨chunkTypeDontCare, s.remaining, []⟩], by rw [placed_addChunk ha, hp, append_nil],
      .done (by rw [ht]; exact hty.2.2) ?_⟩
    rw [hrem]
    exact .dontCare ht

theorem cutting_leave (h : Cutting blkSz chunk rem off es) (hr : rem = 0)
    (hc : chunk.chunkType ≠ chunkTypeCrc32) : Recut blkSz chunk es := by
  cases h with
  | start => exact .skip hc hr
  | raw ht he hp ho hb =>
    have hs : blockSum es = chunk.chunkBlocks.toNat := by simpa [hr] using hb
    exact .raw ht he (by rw [hp, ho, hs]) hs
  | done _ he => exact he

theorem splitWhile_recut (h : splitWhile profile blkSz maxSize chunk
      { s with remaining := chunk.chunkBlocks, rawOffset := 0 } = .ok t) :
    ∃ es, t.placed = s.placed ++ es ∧ Recut blkSz chunk es := by
  refine splitWhile_invariant (I := fun u => ∃ es, u.placed = s.placed ++ es ∧
    Cutting blkSz chunk u.remaining u.rawOffset es)
    (Q := fun u => ∃ es, u.placed = s.placed ++ es ∧ Recut blkSz chunk es)
    ?_ ?_ ?_ ⟨[], by simp [placed], .start⟩ h
  · rintro u v ⟨es, he⟩ hl hcs
    exact cutting_again hl he hcs
  · rintro u v ⟨es, hp, hcut⟩ hcs
    cases hcs with
    | crc ht hf ha =>
      obtain ⟨rfl, -⟩ := hcut.whole (by rw [ht]; decide) (Or.inr ht)
      exact ⟨_, by rw [placed_addChunk ha, hp, append_nil], .crc ht⟩
  · rintro u ⟨es, hp, hcut⟩ hl
    obtain ⟨hr, hc⟩ := not_or.mp hl
    exact ⟨es, hp, cutting_leave hcut (Classical.not_not.mp hr) hc⟩

/-- The chunks that are placed are the chunks, cut. -/
theorem splitChunks_recut {cs : List SparseChunk} (h : splitChunks profile blkSz maxSize cs s = .ok t) :
    ∃ ess, t.placed = s.placed ++ ess.flatten ∧ List.Forall₂ (Recut blkSz) cs ess := by
  induction cs generalizing s with
  | nil =>
    cases h
    exact ⟨[], by simp, .nil⟩
  | cons c cs ih =>
    obtain ⟨u, hu, h⟩ := bind_eq_ok.mp h
    obtain ⟨es, he, hcut⟩ := splitWhile_recut hu
    obtain ⟨ess, hess, hc⟩ := ih h
    exact ⟨es :: ess, by simp [hess, he], .cons hcut hc⟩

end

theorem SparseFile.split_recut {profile : Profile} {f : SparseFile} {maxSize : Nat}
    {pieces : List SparseFile} (h : f.split profile maxSize = .ok pieces) :
    ∃ ess, pieces.flatMap chunks = ess.flatten ∧
      List.Forall₂ (Recut f.header.blkSz) f.chunks ess := by
  obtain ⟨_, _, s, hs, rfl⟩ := split_eq_ok h
  obtain ⟨ess, he, hc⟩ := splitChunks_recut hs
  refine ⟨ess, ?_, hc⟩
  have hp : s.placed = ess.flatten := by simpa [placed, SparseFile.new] using he
  rw [← hp]
  split
  next => simp [placed]
  next hm => simp [placed, Classical.not_not.mp hm]

end

structure HeaderCut (blkSz : UInt32) (p : SparseFile) : Prop where
  blkSz_eq : p.header.blkSz = blkSz
  totalBlks : p.header.totalBlks.toNat = blockSum p.chunks % 2 ^ 32

def SplitState.Fits (maxSize : Nat) (s : SplitState) : Prop :=
  (∀ p ∈ s.splits, p.totalSize ≤ maxSize ∧ p.chunks ≠ []) ∧ s.current.totalSize ≤ maxSize

section

variable {profile : Profile} {blkSz : UInt32} {maxSize : Nat} {chunk : SparseChunk}
  {s t : SplitState}

theorem headerCut_new (blkSz : UInt32) : HeaderCut blkSz (SparseFile.new blkSz) := ⟨rfl, rfl⟩

theorem headerCut_addChunk {f g : SparseFile} {c : SparseChunk} (hf : HeaderCut blkSz f)
    (h : f.addChunk profile c = .ok g) : HeaderCut blkSz g := by
  obtain ⟨hc, hb⟩ := addChunk_eq_ok h
  refine ⟨hb.trans hf.blkSz_eq, ?_⟩
  rw [addChunk_totalBlks h, hc, blockSum_append, hf.totalBlks]
  simp [Nat.add_mod]

variable {turn : Turn SplitState}

theorem headerCut_round {u : SplitState} (hu : turn = .again u ∨ turn = .stop u)
    (hs : ∀ p ∈ s.splits ++ [s.current], HeaderCut blkSz p)
    (h : SplitCase profile blkSz maxSize chunk s turn) :
    ∀ p ∈ u.splits ++ [u.current], HeaderCut blkSz p := by
  have had {c : SparseChunk} {g : SparseFile} (hg : s.current.addChunk profile c = .ok g) :
      ∀ p ∈ s.splits ++ [g], HeaderCut blkSz p := by
    rw [forall_mem_append, forall_mem_singleton] at hs ⊢
    exact ⟨hs.1, headerCut_addChunk hs.2 hg⟩
  cases h with
  | flush hne hf =>
    obtain rfl : _ = u := by simpa using hu
    rw [forall_mem_append]
    exact ⟨hs, forall_mem_singleton.mpr (headerCut_new blkSz)⟩
  | raw ht hf htk hl ha | fill ht hf ha | dontCare ht hf ha | crc ht hf ha =>
    obtain rfl : _ = u := by simpa using hu
    exact had ha

theorem splitChunks_invariant {I : SplitState → Prop} {cs : List SparseChunk}
    (hl : ∀ u rem off, I u → I { u with remaining := rem, rawOffset := off })
    (hr : ∀ c ∈ cs, ∀ u turn v, I u → turn = .again v ∨ turn = .stop v →
      SplitCase profile blkSz maxSize c u turn → I v)
    (hs : I s) (h : splitChunks profile blkSz maxSize cs s = .ok t) : I t := by
  induction cs generalizing s with
  | nil =>
    cases h
    exact hs
  | cons c cs ih =>
    obtain ⟨u, hu, h⟩ := bind_eq_ok.mp h
    refine ih (fun d hd => hr d (mem_cons_of_mem c hd)) ?_ h
    have hc := hr c mem_cons_self
    refine splitWhile_invariant (I := I) ?_ ?_ ?_ (hl s _ _ hs) hu
    · exact fun v w hv _ hcs => hc v _ w hv (Or.inl rfl) hcs
    · exact fun v w hv hcs => hc v _ w hv (Or.inr rfl) hcs
    · exact fun v hv _ => hv

end

variable {profile : Profile} {f : SparseFile} {maxSize : Nat} {pieces : List SparseFile}

theorem SparseFile.split_headerCut (h : f.split profile maxSize = .ok pieces) :
    ∀ p ∈ pieces, HeaderCut f.header.blkSz p := by
  obtain ⟨_, _, s, hs, rfl⟩ := split_eq_ok h
  have hc :=
    splitChunks_invariant (I := fun u => ∀ p ∈ u.splits ++ [u.current], HeaderCut f.header.blkSz p)
      (fun u rem off hu => hu) (fun c _ u turn v hu hv hcs => headerCut_round hv hu hcs)
      (by simpa using headerCut_new f.header.blkSz) hs
  split
  next => exact hc
  next => exact fun p hp => hc p (mem_append_left _ hp)

end AdbFastboot
