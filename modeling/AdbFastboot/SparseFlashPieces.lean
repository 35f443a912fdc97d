import AdbFastboot.Overlay
import AdbFastboot.SparseSplitPieces

namespace AdbFastboot

open List SplitState

section

/-- What a chunk does to each byte of its blocks: `some b` writes `b`, `none` skips. -/
def chunkCells (blkSz : UInt32) (c : SparseChunk) : List (Option UInt8) :=
  let size := c.chunkBlocks.toNat * blkSz.toNat
  if c.chunkType = chunkTypeRaw then (List.range size).map fun i => c.payload[i]?
  else if c.chunkType = chunkTypeFill then
    (List.range size).map fun i => some (c.payload.getD (i % 4) 0)
  else if c.chunkType = chunkTypeDontCare then List.replicate size none
  else []

def applyChunk (blkSz : UInt32) (st : Nat × (Nat → UInt8)) (c : SparseChunk) :
    Nat × (Nat → UInt8) :=
  let cells := chunkCells blkSz c
  (st.1 + cells.length, fun a => if st.1 ≤ a then cells[a - st.1]?.join.getD (st.2 a) else st.2 a)

def SparseFile.flash (f : SparseFile) (partition : Nat → UInt8) : Nat → UInt8 :=
  (f.chunks.foldl (applyChunk f.header.blkSz) (0, partition)).2

def flashAll (pieces : List SparseFile) (partition : Nat → UInt8) : Nat → UInt8 :=
  pieces.foldl (fun partition p => p.flash partition) partition

def cellsOf (blkSz : UInt32) (cs : List SparseChunk) : List (Option UInt8) :=
  cs.flatMap (chunkCells blkSz)

variable (blkSz : UInt32)

@[simp] theorem cellsOf_nil : cellsOf blkSz [] = [] := rfl

@[simp] theorem cellsOf_cons (c : SparseChunk) (cs : List SparseChunk) :
    cellsOf blkSz (c :: cs) = chunkCells blkSz c ++ cellsOf blkSz cs := rfl

@[simp] theorem cellsOf_append (cs ds : List SparseChunk) :
    cellsOf blkSz (cs ++ ds) = cellsOf blkSz cs ++ cellsOf blkSz ds := by
  simp [cellsOf]

theorem applyChunk_overlay (cells : List (Option UInt8)) (partition : Nat → UInt8) (c : SparseChunk) :
    applyChunk blkSz (cells.length, overlay cells partition) c
      = ((cells ++ chunkCells blkSz c).length, overlay (cells ++ chunkCells blkSz c) partition) := by
  refine Prod.ext (by simp [applyChunk]) ?_
  funext a
  simp only [applyChunk, overlay]
  split
  next hle =>
    rw [getElem?_append_right hle, getElem?_eq_none hle]
    rfl
  next hlt => rw [getElem?_append_left (by omega)]

/-- Flashing chunks one by one overlays their cells. -/
theorem applyChunks_overlay (cs : List SparseChunk) (cells : List (Option UInt8))
    (partition : Nat → UInt8) :
    cs.foldl (applyChunk blkSz) (cells.length, overlay cells partition)
      = ((cells ++ cellsOf blkSz cs).length, overlay (cells ++ cellsOf blkSz cs) partition) := by
  induction cs generalizing cells with
  | nil => simp
  | cons c cs ih =>
    rw [foldl_cons, applyChunk_overlay, ih]
    simp

/-- Flashing a file writes the cells of its chunks in a row. -/
theorem SparseFile.flash_eq_overlay (f : SparseFile) (partition : Nat → UInt8) :
    f.flash partition = overlay (cellsOf f.header.blkSz f.chunks) partition := by
  have h := applyChunks_overlay f.header.blkSz f.chunks [] partition
  exact congrArg Prod.snd h

variable {blkSz : UInt32}

/-- Flashing pieces one by one overlays each from the start. -/
theorem flashAll_eq_overlayAll {pieces : List SparseFile}
    (h : ∀ p ∈ pieces, p.header.blkSz = blkSz) (partition : Nat → UInt8) :
    flashAll pieces partition = overlayAll (pieces.map fun p => cellsOf blkSz p.chunks) partition := by
  induction pieces generalizing partition with
  | nil => rfl
  | cons p pieces ih =>
    rw [forall_mem_cons] at h
    have hp : p.flash partition = overlay (cellsOf blkSz p.chunks) partition := by
      rw [SparseFile.flash_eq_overlay, h.1]
    simpa [flashAll, overlayAll, hp] using ih h.2 (overlay (cellsOf blkSz p.chunks) partition)

theorem chunkCells_raw {c : SparseChunk} (ht : c.chunkType = chunkTypeRaw)
    (hl : c.chunkBlocks.toNat * blkSz.toNat ≤ c.payload.length) :
    chunkCells blkSz c = (c.payload.take (c.chunkBlocks.toNat * blkSz.toNat)).map some := by
  apply ext_getElem?
  intro i
  simp only [chunkCells, ht, if_true, getElem?_map, getElem?_take]
  by_cases hi : i < c.chunkBlocks.toNat * blkSz.toNat
  · have hg : c.payload[i]? = some c.payload[i] := getElem?_eq_getElem (by omega)
    simp [getElem?_range hi, if_pos hi, hg]
  · rw [if_neg hi, getElem?_eq_none (by simpa using hi)]
    rfl

variable {es : List SparseChunk}

theorem cellsOf_raw (h : ∀ e ∈ es, e.chunkType = chunkTypeRaw ∧
      e.payload.length = e.chunkBlocks.toNat * blkSz.toNat) :
    cellsOf blkSz es = (es.flatMap SparseChunk.payload).map some ∧
      (es.flatMap SparseChunk.payload).length = blockSum es * blkSz.toNat := by
  induction es with
  | nil => simp
  | cons e es ih =>
    rw [forall_mem_cons] at h
    obtain ⟨hc, hl⟩ := ih h.2
    obtain ⟨ht, hp⟩ := h.1
    have he : chunkCells blkSz e = e.payload.map some := by
      rw [chunkCells_raw ht (by omega), take_of_length_le (by omega)]
    refine ⟨by simp [he, hc], ?_⟩
    simp only [flatMap_cons, length_append, hl, hp, blockSum_cons, Nat.add_mul]

/-- Cutting a chunk does not change its cells. -/
theorem Recut.cells {c : SparseChunk} (h : Recut blkSz c es) : cellsOf blkSz es = chunkCells blkSz c := by
  cases h with
  | raw ht he hp hb =>
    obtain ⟨hc, hl⟩ := cellsOf_raw he
    have hle : c.chunkBlocks.toNat * blkSz.toNat ≤ c.payload.length := by
      rw [hp, hb, length_take] at hl
      omega
    rw [hc, hp, chunkCells_raw ht hle]
  | fill ht => simp [chunkCells, ht]
  | dontCare ht => simp [chunkCells, ht, chunkTypeRaw, chunkTypeFill, chunkTypeDontCare]
  | crc ht =>
    simp [chunkCells, ht, chunkTypeRaw, chunkTypeFill, chunkTypeDontCare, chunkTypeCrc32]
  | skip ht hb => simp [chunkCells, hb]

theorem recuts_cells {cs : List SparseChunk} {ess : List (List SparseChunk)}
    (h : List.Forall₂ (Recut blkSz) cs ess) : cellsOf blkSz ess.flatten = cellsOf blkSz cs := by
  induction h with
  | nil => rfl
  | cons hc _ ih => rw [flatten_cons, cellsOf_append, hc.cells, ih, cellsOf_cons]

end

open List

def SplitState.parts (blkSz : UInt32) (s : SplitState) : List (List (Option UInt8)) :=
  (s.splits ++ [s.current]).map fun p => cellsOf blkSz p.chunks

/-- A pushed piece has blocks, so that the pieces after it write at the wrong place. -/
def SplitState.Late (blkSz : UInt32) (s : SplitState) : Prop :=
  ∃ p ∈ s.splits, cellsOf blkSz p.chunks ≠ []

variable {profile : Profile} {blkSz : UInt32} {maxSize : Nat} {chunk : SparseChunk}
  {s t u : SplitState}

theorem cellsOf_pieces (blkSz : UInt32) (pieces : List SparseFile) :
    (pieces.map fun p => cellsOf blkSz p.chunks).flatten
      = cellsOf blkSz (pieces.flatMap SparseFile.chunks) := by
  induction pieces with
  | nil => rfl
  | cons p pieces ih => simp [ih]

theorem parts_flatten (s : SplitState) : (s.parts blkSz).flatten = cellsOf blkSz s.placed := by
  simp [parts, placed, cellsOf_pieces]

theorem splits_round {turn : Turn SplitState} {base : List SparseFile}
    (hu : turn = .again u ∨ turn = .stop u) (hs : ∃ more, s.splits = base ++ more)
    (h : SplitCase profile blkSz maxSize chunk s turn) : ∃ more, u.splits = base ++ more := by
  obtain ⟨more, hmore⟩ := hs
  cases h with
  | flush =>
    obtain rfl : _ = u := by simpa using hu
    exact ⟨more ++ [s.current], by simp [hmore]⟩
  | raw | fill | dontCare | crc =>
    obtain rfl : _ = u := by simpa using hu
    exact ⟨more, hmore⟩

theorem splitWhile_splits (h : splitWhile profile blkSz maxSize chunk s = .ok t) :
    ∃ more, t.splits = s.splits ++ more := by
  refine splitWhile_invariant (I := fun u => ∃ more, u.splits = s.splits ++ more)
    (Q := fun u => ∃ more, u.splits = s.splits ++ more) ?_ ?_ ?_ ⟨[], by simp⟩ h
  · exact fun u v hu _ hc => splits_round (Or.inl rfl) hu hc
  · exact fun u v hu hc => splits_round (Or.inr rfl) hu hc
  · exact fun u hu _ => hu

variable {cs es : List SparseChunk}

/-- Pieces that are finished stay as they are. -/
theorem splitChunks_splits (h : splitChunks profile blkSz maxSize cs s = .ok t) :
    ∃ more, t.splits = s.splits ++ more :=
  splitChunks_invariant (I := fun u => ∃ more, u.splits = s.splits ++ more)
    (fun u rem off hu => hu) (fun c _ u turn v hu hv hc => splits_round hv hu hc)
    ⟨[], by simp⟩ h

section

variable {more : List SparseFile} (h : s.Late blkSz) (hmore : t.splits = s.splits ++ more)
include h hmore

theorem SplitState.Late.mono : t.Late blkSz := by
  obtain ⟨p, hp, hne⟩ := h
  exact ⟨p, by rw [hmore]; exact mem_append_left _ hp, hne⟩

theorem late_laterCells (hpc : t.placed = s.placed ++ es) :
    laterCells (t.parts blkSz) = laterCells (s.parts blkSz) ++ cellsOf blkSz es := by
  let front := s.splits.map fun p => cellsOf blkSz p.chunks
  let back := (more ++ [t.current]).map fun p => cellsOf blkSz p.chunks
  have hfr : ∃ p ∈ front, p ≠ [] := by
    obtain ⟨p, hp, hne⟩ := h
    exact ⟨_, mem_map_of_mem hp, hne⟩
  have hs : s.parts blkSz = front ++ [cellsOf blkSz s.current.chunks] := by
    simp [parts, front]
  have ht : t.parts blkSz = front ++ back := by
    simp [parts, hmore, front, back]
  have hf : (t.parts blkSz).flatten = (s.parts blkSz).flatten ++ cellsOf blkSz es := by
    rw [parts_flatten, parts_flatten, hpc, cellsOf_append]
  rw [hs, ht, flatten_append, flatten_append, append_assoc] at hf
  rw [hs, ht, laterCells_append hfr, laterCells_append hfr, append_assoc, append_cancel_left hf]

end

/-- Once the first piece is closed, all further cells are late. -/
theorem splitChunks_late (hs : s.Late blkSz) (h : splitChunks profile blkSz maxSize cs s = .ok t) :
    laterCells (t.parts blkSz) = laterCells (s.parts blkSz) ++ cellsOf blkSz cs := by
  obtain ⟨more, hmore⟩ := splitChunks_splits h
  obtain ⟨ess, hp, hc⟩ := splitChunks_recut h
  rw [late_laterCells hs hmore hp, recuts_cells hc]

def SameKind (blkSz : UInt32) (chunk e : SparseChunk) : Prop :=
  e.chunkType = chunk.chunkType ∧
    (chunk.chunkType = chunkTypeRaw → e.payload.length = e.chunkBlocks.toNat * blkSz.toNat)

/-- What the inner loop still writes of a chunk, from any of its states on. -/
structure Rest (blkSz : UInt32) (chunk : SparseChunk) (blocks : UInt32)
    (es : List SparseChunk) : Prop where
  kind : ∀ e ∈ es, SameKind blkSz chunk e
  blocks : chunk.chunkType ≠ chunkTypeCrc32 → blockSum es = blocks.toNat

theorem sameKind_append {e : SparseChunk} (hes : ∀ e ∈ es, SameKind blkSz chunk e)
    (he : SameKind blkSz chunk e) : ∀ e' ∈ es ++ [e], SameKind blkSz chunk e' :=
  forall_mem_append.mpr ⟨hes, forall_mem_singleton.mpr he⟩

theorem sameKind_of_ne_raw {e : SparseChunk} (he : chunk.chunkType = e.chunkType)
    (hr : e.chunkType ≠ chunkTypeRaw) : SameKind blkSz chunk e :=
  ⟨he.symm, fun h => absurd (he.symm.trans h) hr⟩

/-- The loop places what is left of the chunk. -/
theorem splitWhile_rest (h : splitWhile profile blkSz maxSize chunk s = .ok t) :
    ∃ es, t.placed = s.placed ++ es ∧ Rest blkSz chunk s.remaining es := by
  refine splitWhile_invariant (I := fun u => ∃ es, u.placed = s.placed ++ es ∧
      (∀ e ∈ es, SameKind blkSz chunk e) ∧ (chunk.chunkType ≠ chunkTypeCrc32 →
        blockSum es + u.remaining.toNat = s.remaining.toNat))
    (Q := fun u => ∃ es, u.placed = s.placed ++ es ∧ Rest blkSz chunk s.remaining es)
    ?_ ?_ ?_ ⟨[], by simp⟩ h
  · rintro u v ⟨es, hp, hk, hbk⟩ hl hcs
    cases hcs with
    | flush => exact ⟨es, by rw [placed_flush, hp], hk, hbk⟩
    | @raw take current ht hf htk hlen ha =>
      refine ⟨_, by rw [placed_addChunk ha, hp, append_assoc],
        sameKind_append hk ⟨ht.symm, fun _ => ?_⟩, fun hc => ?_⟩
      · simp only [slice_length hlen]
        omega
      · have hle : take.toNat ≤ u.remaining.toNat := by
          rw [htk, takeBlocks_toNat]
          omega
        have hb := hbk hc
        simp only [blockSum_append, blockSum_cons, blockSum_nil,
          UInt32.toNat_sub_of_le _ _ (UInt32.le_iff_toNat_le.mpr hle)]
        omega
    | fill ht hf ha =>
      refine ⟨_, by rw [placed_addChunk ha, hp, append_assoc],
        sameKind_append hk (sameKind_of_ne_raw ht (show chunkTypeFill ≠ chunkTypeRaw by decide)),
        fun hc => ?_⟩
      simpa using hbk hc
    | dontCare ht hf ha =>
      refine ⟨_, by rw [placed_addChunk ha, hp, append_assoc],
        sameKind_append hk (sameKind_of_ne_raw ht (show chunkTypeDontCare ≠ chunkTypeRaw by decide)),
        fun hc => ?_⟩
      simpa using hbk hc
  · rintro u v ⟨es, hp, hk, hbk⟩ hcs
    cases hcs with
    | crc ht hf ha =>
      exact ⟨_, by rw [placed_addChunk ha, hp, append_assoc],
        sameKind_append hk (sameKind_of_ne_raw ht (show chunkTypeCrc32 ≠ chunkTypeRaw by decide)),
        fun hc => absurd ht hc⟩
  · rintro u ⟨es, hp, hk, hbk⟩ hl
    obtain ⟨hr, hc⟩ := not_or.mp hl
    refine ⟨es, hp, hk, fun h => ?_⟩
    simpa [Classical.not_not.mp hr] using hbk h

def SparseChunk.Writes (c : SparseChunk) : Prop :=
  (c.chunkType = chunkTypeRaw ∨ c.chunkType = chunkTypeFill) ∧ c.chunkBlocks ≠ 0

instance (c : SparseChunk) : Decidable c.Writes :=
  inferInstanceAs (Decidable (_ ∧ _))

theorem chunkCells_none {c : SparseChunk} (h : ¬c.Writes) : ∀ d ∈ chunkCells blkSz c, d = none := by
  intro d hd
  by_cases hw : c.chunkType = chunkTypeRaw ∨ c.chunkType = chunkTypeFill
  · have hz := Classical.not_not.mp fun hz => h ⟨hw, hz⟩
    simp [chunkCells, hz] at hd
  obtain ⟨hr, hf⟩ := not_or.mp hw
  by_cases hdc : c.chunkType = chunkTypeDontCare
  · rw [chunkCells, if_neg hr, if_neg hf, if_pos hdc] at hd
    exact eq_of_mem_replicate hd
  · rw [chunkCells, if_neg hr, if_neg hf, if_neg hdc] at hd
    simp at hd

theorem cellsOf_none (h : ∀ c ∈ cs, ¬c.Writes) : ∀ d ∈ cellsOf blkSz cs, d = none := by
  intro d hd
  obtain ⟨c, hc, hd⟩ := mem_flatMap.mp hd
  exact chunkCells_none (h c hc) d hd

theorem chunkCells_writes {c : SparseChunk} (hb : blkSz ≠ 0) (hw : c.Writes)
    (hlen : c.chunkType = chunkTypeRaw → c.chunkBlocks.toNat * blkSz.toNat ≤ c.payload.length) :
    ∃ d ∈ chunkCells blkSz c, d ≠ none := by
  have hp := Nat.mul_pos (u32_toNat_pos hw.2) (u32_toNat_pos hb)
  rcases hw.1 with ht | ht
  · have hl := hlen ht
    refine ⟨some (c.payload.get ⟨0, by omega⟩), ?_, by simp⟩
    simp only [chunkCells, ht, if_true]
    exact mem_map.mpr ⟨0, mem_range.mpr hp, by simp⟩
  · refine ⟨some (c.payload.getD (0 % 4) 0), ?_, by simp⟩
    rw [chunkCells, if_neg (by rw [ht]; decide), if_pos ht]
    exact mem_map.mpr ⟨0, mem_range.mpr hp, rfl⟩

theorem Recut.writes_cells (h : Recut blkSz chunk es) (hb : blkSz ≠ 0) (hw : chunk.Writes) :
    ∃ d ∈ chunkCells blkSz chunk, d ≠ none := by
  refine chunkCells_writes hb hw fun ht => ?_
  cases h with
  | raw _ he hp hs =>
    have hl := (cellsOf_raw he).2
    rw [hp, hs, length_take] at hl
    omega
  | fill hf => exact absurd (ht.symm.trans hf) (by decide)
  | dontCare hd => exact absurd (ht.symm.trans hd) (by decide)
  | crc hc => exact absurd (ht.symm.trans hc) (by decide)
  | skip _ hz => exact absurd hz hw.2

/-- Chunks leave all cells alone exactly if none of them writes. -/
theorem cellsOf_none_iff {ess : List (List SparseChunk)} (hb : blkSz ≠ 0)
    (h : List.Forall₂ (Recut blkSz) cs ess) :
    (∀ d ∈ cellsOf blkSz cs, d = none) ↔ ∀ c ∈ cs, ¬c.Writes := by
  refine ⟨?_, cellsOf_none⟩
  induction h with
  | nil => simp
  | cons hc _ ih =>
    rw [cellsOf_cons, forall_mem_append, forall_mem_cons]
    rintro ⟨hn, hr⟩
    refine ⟨fun hw => ?_, ih hr⟩
    obtain ⟨d, hd, hne⟩ := hc.writes_cells hb hw
    exact hne (hn d hd)

/-- Of a chunk with blocks left, the loop still writes something exactly if the chunk is RAW or
FILL. -/
theorem Rest.writes_iff {blocks : UInt32} (h : Rest blkSz chunk blocks es) (hb : blkSz ≠ 0)
    (hr : blocks ≠ 0 ∨ chunk.chunkType = chunkTypeCrc32) :
    (∃ d ∈ cellsOf blkSz es, d ≠ none) ↔
      chunk.chunkType = chunkTypeRaw ∨ chunk.chunkType = chunkTypeFill := by
  constructor
  · rintro ⟨d, hd, hne⟩
    by_contra hw
    exact hne (cellsOf_none (fun e he hwe => hw (by rw [← (h.kind e he).1]; exact hwe.1)) d hd)
  · intro hw
    have hc : chunk.chunkType ≠ chunkTypeCrc32 := by
      rcases hw with ht | ht <;> rw [ht] <;> decide
    have hs := h.blocks hc
    have hex : ∃ e ∈ es, e.chunkBlocks ≠ 0 := by
      by_contra ha
      have hz : blockSum es = 0 := by
        clear hs h
        induction es with
        | nil => rfl
        | cons e es ih =>
          have he : e.chunkBlocks = 0 := by
            by_contra hne
            exact ha ⟨e, mem_cons_self, hne⟩
          have htl := ih fun ⟨d, hd, hne⟩ => ha ⟨d, mem_cons_of_mem e hd, hne⟩
          simp [he, htl]
      exact (hr.resolve_right hc) (UInt32.toNat_inj.mp (by rw [← hs, hz]; rfl))
    obtain ⟨e, he, hne⟩ := hex
    obtain ⟨hk, hl⟩ := h.kind e he
    obtain ⟨d, hd, hsm⟩ := chunkCells_writes hb ⟨by rw [hk]; exact hw, hne⟩
      (fun ht => Nat.le_of_eq (hl (hk ▸ ht)).symm)
    exact ⟨d, mem_flatMap.mpr ⟨e, he, hd⟩, hsm⟩

end AdbFastboot
