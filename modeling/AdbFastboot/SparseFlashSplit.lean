import AdbFastboot.SparseFlashPieces

namespace AdbFastboot

open List SplitState

section

variable {blkSz : UInt32} {maxSize used : Nat} {chunk : SparseChunk}

theorem rawRound_decreases {remaining take : UInt32} (hr : remaining ≠ 0)
    (ht : chunk.chunkType = chunkTypeRaw) (hf : Starts blkSz maxSize used chunk)
    (htk : take = takeBlocks blkSz maxSize used remaining) :
    Prod.Lex (· < ·) (· < ·)
      ((remaining - take).toNat, maxSize - (used + 12 + take.toNat * blkSz.toNat))
      (remaining.toNat, maxSize - used) := by
  have hle : take.toNat ≤ remaining.toNat := by rw [htk, takeBlocks_toNat]; omega
  have hs := UInt32.toNat_sub_of_le _ _ (UInt32.le_iff_toNat_le.mpr hle)
  rw [hs]
  by_cases hz : take.toNat = 0
  · have hrm := (emptyTake_not_stuck hr ht hf (by rw [← htk]; exact hz)).1
    rw [hz, Nat.sub_zero]
    exact Prod.Lex.right _ (by omega)
  · exact Prod.Lex.left _ _ (by omega)

/-- The size of a piece of `used` bytes once the blocks left of a chunk are in it, or `none` if
another piece has to be opened for them. -/
def place (blkSz : UInt32) (maxSize : Nat) (chunk : SparseChunk) (used : Nat)
    (remaining : UInt32) : Option Nat :=
  if _hr : remaining = 0 ∧ chunk.chunkType ≠ chunkTypeCrc32 then some used
  else if _hfit : Starts blkSz maxSize used chunk then
    if _ht : chunk.chunkType = chunkTypeRaw then
      place blkSz maxSize chunk
        (used + 12 + (takeBlocks blkSz maxSize used remaining).toNat * blkSz.toNat)
        (remaining - takeBlocks blkSz maxSize used remaining)
    else if chunk.chunkType = chunkTypeDontCare then some (used + 12)
    else some (used + chunk.totalSize)
  else none
termination_by (remaining.toNat, maxSize - used)
decreasing_by
  have hne : chunk.chunkType ≠ chunkTypeCrc32 := by rw [_ht]; decide
  exact rawRound_decreases (fun h => _hr ⟨h, hne⟩) _ht _hfit rfl

theorem place_ne_none_of_done (h : chunk.chunkType ≠ chunkTypeCrc32) :
    place blkSz maxSize chunk used 0 ≠ none := by
  rw [place, dif_pos ⟨rfl, h⟩]
  simp

/-- All that is left to write goes into the piece of `used` bytes. -/
def FitsThrough (blkSz : UInt32) (maxSize : Nat) : Nat → List SparseChunk → Prop
  | _, [] => True
  | used, c :: cs => (∀ d ∈ c :: cs, ¬d.Writes) ∨
    match place blkSz maxSize c used c.chunkBlocks with
    | some next => FitsThrough blkSz maxSize next cs
    | none => False

/-- The same from before the first block on: CRC32 chunks may fill whole pieces there, and the
first chunk with blocks goes into a new piece if it cannot start in the old one. -/
def FitsFirst (blkSz : UInt32) (maxSize : Nat) : Nat → List SparseChunk → Prop
  | _, [] => True
  | used, c :: cs =>
    let start := if Starts blkSz maxSize used c then used else SparseHeader.size
    if c.chunkType = chunkTypeCrc32 then FitsFirst blkSz maxSize (start + c.totalSize) cs
    else if c.chunkBlocks = 0 then FitsFirst blkSz maxSize used cs
    else FitsThrough blkSz maxSize start (c :: cs)

theorem FitsThrough.of_not_writes {cs : List SparseChunk} (h : ∀ c ∈ cs, ¬c.Writes) (used : Nat) :
    FitsThrough blkSz maxSize used cs := by
  cases cs with
  | nil => trivial
  | cons c cs => exact Or.inl h

end

open SparseFile

def SplitState.Early (blkSz : UInt32) (s : SplitState) : Prop :=
  ∀ p ∈ s.splits, cellsOf blkSz p.chunks = []

section

variable {profile : Profile} {blkSz : UInt32} {maxSize : Nat} {chunk : SparseChunk}
  {s t u : SplitState}

theorem early_laterCells (h : s.Early blkSz) : laterCells (s.parts blkSz) = [] := by
  have hp : s.parts blkSz = (s.splits.map fun p => cellsOf blkSz p.chunks)
      ++ [cellsOf blkSz s.current.chunks] := by
    simp [parts]
  rw [hp, laterCells_empty_append (by simpa [SplitState.Early] using h)]
  cases cellsOf blkSz s.current.chunks with
  | nil | cons c cs => rfl

theorem flush_late (he : s.Early blkSz) (hcl : cellsOf blkSz s.current.chunks ≠ [])
    (hlp : Loops chunk s) (hb : blkSz ≠ 0) (h : splitWhile profile blkSz maxSize chunk { s with
      splits := s.splits ++ [s.current], current := SparseFile.new blkSz } = .ok u) :
    u.Late blkSz ∧ ((∃ d ∈ laterCells (u.parts blkSz), d ≠ none) ↔
      chunk.chunkType = chunkTypeRaw ∨ chunk.chunkType = chunkTypeFill) := by
  obtain ⟨more, hm⟩ := splitWhile_splits h
  obtain ⟨es, hp, hr⟩ := splitWhile_rest h
  have hl : SplitState.Late blkSz { s with
      splits := s.splits ++ [s.current], current := SparseFile.new blkSz } :=
    ⟨s.current, by simp, hcl⟩
  have hn : laterCells (parts blkSz { s with
      splits := s.splits ++ [s.current], current := SparseFile.new blkSz }) = [] := by
    have hpr : parts blkSz { s with
        splits := s.splits ++ [s.current], current := SparseFile.new blkSz }
        = (s.splits.map fun p => cellsOf blkSz p.chunks) ++ [cellsOf blkSz s.current.chunks, []] := by
      simp [parts, SparseFile.new]
    rw [hpr, laterCells_empty_append (by simpa [SplitState.Early] using he)]
    cases hc : cellsOf blkSz s.current.chunks with
    | nil => exact absurd hc hcl
    | cons c cs => rfl
  refine ⟨hl.mono hm, ?_⟩
  rw [late_laterCells hl hm hp, hn, nil_append]
  exact hr.writes_iff hb hlp

/-- What became of a chunk that was begun in the first piece with blocks. -/
inductive Placed (blkSz : UInt32) (maxSize : Nat) (chunk : SparseChunk) (s u : SplitState) : Prop
  | inside (hp : place blkSz maxSize chunk s.current.totalSize s.remaining
        = some u.current.totalSize) (hs : u.splits = s.splits)
  | across (hp : place blkSz maxSize chunk s.current.totalSize s.remaining = none)
      (hlate : u.Late blkSz) (hw : (∃ d ∈ laterCells (u.parts blkSz), d ≠ none) ↔
        chunk.chunkType = chunkTypeRaw ∨ chunk.chunkType = chunkTypeFill)

theorem rawRound_cells {take : UInt32} {current : SparseFile} (hb : blkSz ≠ 0)
    (hr : s.remaining ≠ 0) (ht : chunk.chunkType = chunkTypeRaw)
    (hf : Starts blkSz maxSize s.current.totalSize chunk)
    (htk : take = takeBlocks blkSz maxSize s.current.totalSize s.remaining)
    (hs : current.totalSize = s.current.totalSize + 12 + take.toNat * blkSz.toNat)
    {payload : Bytes} (ha : s.current.addChunk profile ⟨chunkTypeRaw, take, payload⟩ = .ok current) :
    cellsOf blkSz current.chunks ≠ [] ∨ Starts blkSz maxSize current.totalSize chunk := by
  by_cases hz : take.toNat = 0
  · have hnx := (emptyTake_not_stuck hr ht hf (by rw [← htk]; exact hz)).2
    rw [hs, hz, Nat.zero_mul, Nat.add_zero]
    exact Or.inr hnx
  refine Or.inl fun hn => ?_
  have hblk := Nat.ne_of_gt (u32_toNat_pos hb)
  rw [(addChunk_eq_ok ha).1, cellsOf_append] at hn
  have hl : take.toNat * blkSz.toNat = 0 := by
    simpa [chunkCells] using congrArg List.length (append_eq_nil_iff.mp hn).2
  exact (Nat.mul_eq_zero.mp hl).elim hz hblk

/-- A chunk is placed in the first piece, or opens another one. -/
theorem splitWhile_placed (he : s.Early blkSz) (hb : blkSz ≠ 0)
    (hcl : cellsOf blkSz s.current.chunks ≠ [] ∨ Starts blkSz maxSize s.current.totalSize chunk)
    (h : splitWhile profile blkSz maxSize chunk s = .ok u) :
    Placed blkSz maxSize chunk s u := by
  induction s using (splitNext_wellFounded profile blkSz maxSize chunk).induction with
  | h s ih =>
    by_cases hl : Loops chunk s
    · have hlf : ¬(s.remaining = 0 ∧ chunk.chunkType ≠ chunkTypeCrc32) := by
        rintro ⟨hr, hc⟩
        exact hl.elim (fun h => h hr) hc
      cases hrd : splitRound profile blkSz maxSize chunk s with
      | error e =>
        rw [splitWhile, dif_pos hl] at h
        split at h <;> simp_all
      | ok turn =>
        have hcs := splitRound_cases hrd
        cases hcs with
        | flush hne hf =>
          rw [splitWhile_again hl hrd] at h
          obtain ⟨hla, hw⟩ := flush_late he (hcl.resolve_right hf) hl hb h
          refine .across ?_ hla hw
          rw [place, dif_neg hlf, dif_neg hf]
        | @raw take current ht hf htk hlen ha =>
          rw [splitWhile_again hl hrd] at h
          have hr := hl.resolve_right (by rw [ht]; decide)
          have hsz : current.totalSize = s.current.totalSize + 12 + take.toNat * blkSz.toNat := by
            rw [addChunk_totalSize ha, SparseChunk.totalSize, slice_length hlen,
              Nat.add_sub_cancel_left, ← Nat.add_assoc]
            rfl
          have hpl : place blkSz maxSize chunk s.current.totalSize s.remaining
              = place blkSz maxSize chunk current.totalSize (s.remaining - take) := by
            rw [place, dif_neg hlf, dif_pos hf, dif_pos ht, ← htk, hsz]
          cases ih _ ⟨hl, hrd⟩ he (rawRound_cells hb hr ht hf htk hsz ha) h with
          | inside hp hs => exact .inside (hpl.trans hp) hs
          | across hp hla hw => exact .across (hpl.trans hp) hla hw
        | fill ht hf ha =>
          rw [splitWhile_again hl hrd,
            splitWhile_leave (by simp [Loops, ht, chunkTypeFill, chunkTypeCrc32])] at h
          cases h
          refine .inside ?_ rfl
          rw [place, dif_neg hlf, dif_pos hf, dif_neg (by rw [ht]; decide),
            if_neg (by rw [ht]; decide), addChunk_totalSize ha]
          rfl
        | dontCare ht hf ha =>
          rw [splitWhile_again hl hrd,
            splitWhile_leave (by simp [Loops, ht, chunkTypeDontCare, chunkTypeCrc32])] at h
          cases h
          refine .inside ?_ rfl
          rw [place, dif_neg hlf, dif_pos hf, dif_neg (by rw [ht]; decide), if_pos ht,
            addChunk_totalSize ha]
          rfl
        | crc ht hf ha =>
          rw [splitWhile_stop hl hrd] at h
          cases h
          refine .inside ?_ rfl
          rw [place, dif_neg hlf, dif_pos hf, dif_neg (by rw [ht]; decide),
            if_neg (by rw [ht]; decide), addChunk_totalSize ha]
          rfl
    · rw [splitWhile_leave hl] at h
      cases h
      refine .inside ?_ rfl
      obtain ⟨hr, hc⟩ := not_or.mp hl
      rw [place, dif_pos ⟨Classical.not_not.mp hr, hc⟩]

/-- Nothing that is written stands behind the first piece with blocks. -/
def SplitState.Good (blkSz : UInt32) (s : SplitState) : Prop :=
  ∀ d ∈ laterCells (s.parts blkSz), d = none

variable {cs : List SparseChunk}

/-- After the first piece all is well exactly if nothing more is written. -/
theorem late_good_iff (hs : s.Late blkSz) (h : splitChunks profile blkSz maxSize cs s = .ok t) :
    t.Good blkSz ↔ s.Good blkSz ∧ ∀ d ∈ cellsOf blkSz cs, d = none := by
  rw [SplitState.Good, splitChunks_late hs h, forall_mem_append]
  rfl

theorem early_good (h : s.Early blkSz) : s.Good blkSz := by
  rw [SplitState.Good, early_laterCells h]
  simp

theorem placed_good_iff {c : SparseChunk} (hb : blkSz ≠ 0) (hr : s.remaining = c.chunkBlocks)
    (hp : Placed blkSz maxSize c s u)
    (ih : u.splits = s.splits → (t.Good blkSz ↔ FitsThrough blkSz maxSize u.current.totalSize cs))
    (h : splitChunks profile blkSz maxSize cs u = .ok t) :
    t.Good blkSz ↔ FitsThrough blkSz maxSize s.current.totalSize (c :: cs) := by
  cases hp with
  | inside hp hs =>
    rw [FitsThrough, ← hr, hp, ih hs]
    constructor
    · exact Or.inr
    · rintro (hn | hf)
      · exact .of_not_writes (fun d hd => hn d (mem_cons_of_mem c hd)) _
      · exact hf
  | across hp hl hw =>
    obtain ⟨ess, _, hc⟩ := splitChunks_recut h
    rw [FitsThrough, ← hr, hp, late_good_iff hl h, cellsOf_none_iff hb hc, forall_mem_cons]
    have hbk (ht : c.chunkType ≠ chunkTypeCrc32) : c.chunkBlocks ≠ 0 := fun hz =>
      place_ne_none_of_done ht (by rw [← hp, hr, hz])
    have hgd : u.Good blkSz ↔ ¬c.Writes := by
      constructor
      · intro hg hwc
        obtain ⟨d, hd, hne⟩ := hw.mpr hwc.1
        exact hne (hg d hd)
      · intro hwc d hd
        by_contra hne
        have ht := hw.mp ⟨d, hd, hne⟩
        refine hwc ⟨ht, hbk ?_⟩
        rcases ht with ht | ht <;> rw [ht] <;> decide
    rw [hgd]
    simp

/-- From within the first piece all is well exactly if what writes fits in it. -/
theorem first_good_iff (hb : blkSz ≠ 0) (he : s.Early blkSz)
    (hc : cellsOf blkSz s.current.chunks ≠ [])
    (h : splitChunks profile blkSz maxSize cs s = .ok t) :
    t.Good blkSz ↔ FitsThrough blkSz maxSize s.current.totalSize cs := by
  induction cs generalizing s with
  | nil =>
    cases h
    simp [FitsThrough, early_good he]
  | cons c cs ih =>
    obtain ⟨u, hu, hr⟩ := bind_eq_ok.mp h
    obtain ⟨es, hp, -⟩ := splitWhile_recut hu
    refine placed_good_iff (s := { s with remaining := c.chunkBlocks, rawOffset := 0 }) hb rfl
      (splitWhile_placed he hb (Or.inl hc) hu) ?_ hr
    intro hs
    refine ih (by rw [SplitState.Early, hs]; exact he) ?_ hr
    have hcur : u.current.chunks = s.current.chunks ++ es := by
      simpa [placed, hs] using hp
    rw [hcur, cellsOf_append]
    exact fun hn => hc (append_eq_nil_iff.mp hn).1

theorem starts_of_empty (hl : Loops chunk s) (hm : s.current.chunks = [])
    (h : splitWhile profile blkSz maxSize chunk s = .ok u) :
    Starts blkSz maxSize s.current.totalSize chunk := by
  rw [splitWhile, dif_pos hl] at h
  split at h
  next => simp at h
  next t hr =>
    cases splitRound_cases hr with
    | crc _ hf => exact hf
  next t hr =>
    cases splitRound_cases hr with
    | flush hne => exact absurd hm hne
    | raw _ hf | fill _ hf | dontCare _ hf => exact hf

theorem splitWhile_opened (he : s.Early blkSz)
    (hc : cellsOf blkSz s.current.chunks = []) (hl : Loops chunk s)
    (h : splitWhile profile blkSz maxSize chunk s = .ok u) :
    ∃ v : SplitState, v.Early blkSz ∧ cellsOf blkSz v.current.chunks = [] ∧
      v.remaining = s.remaining ∧ v.placed = s.placed ∧
      v.current.totalSize = (if Starts blkSz maxSize s.current.totalSize chunk
        then s.current.totalSize else SparseHeader.size) ∧
      Starts blkSz maxSize v.current.totalSize chunk ∧
      splitWhile profile blkSz maxSize chunk v = .ok u := by
  by_cases hf : Starts blkSz maxSize s.current.totalSize chunk
  · exact ⟨s, he, hc, rfl, rfl, (if_pos hf).symm, hf, h⟩
  rw [splitWhile, dif_pos hl] at h
  split at h
  next => simp at h
  next t hr =>
    cases splitRound_cases hr with
    | crc _ hf' => exact absurd hf' hf
  next t hr =>
    have hcs := splitRound_cases hr
    cases hcs with
    | flush hne _ =>
      let v : SplitState := { s with
        splits := s.splits ++ [s.current], current := SparseFile.new blkSz }
      have hv := hl
      refine ⟨v, ?_, rfl, rfl, placed_flush s blkSz, (if_neg hf).symm, starts_of_empty hv rfl h, h⟩
      intro p hp
      rcases mem_append.mp hp with hp | hp
      · exact he p hp
      · obtain rfl := mem_singleton.mp hp
        exact hc
    | raw _ hf' | fill _ hf' | dontCare _ hf' => exact absurd hf' hf

theorem Recut.cells_ne_nil {es : List SparseChunk} (h : Recut blkSz chunk es) (hb : blkSz ≠ 0)
    (ht : chunk.chunkType ≠ chunkTypeCrc32) (hz : chunk.chunkBlocks ≠ 0) :
    chunkCells blkSz chunk ≠ [] := by
  have hs := Nat.ne_of_gt (Nat.mul_pos (u32_toNat_pos hz) (u32_toNat_pos hb))
  have hl : (chunkCells blkSz chunk).length = chunk.chunkBlocks.toNat * blkSz.toNat := by
    cases h with
    | raw h => simp [chunkCells, h]
    | fill h => simp [chunkCells, h, chunkTypeFill, chunkTypeRaw]
    | dontCare h => simp [chunkCells, h, chunkTypeDontCare, chunkTypeFill, chunkTypeRaw]
    | crc h => exact absurd h ht
    | skip _ h => exact absurd h hz
  exact fun hn => hs (by rw [← hl, hn]; rfl)

/-- From an empty piece all is well exactly if what writes fits in the first. -/
theorem lead_good_iff (hb : blkSz ≠ 0) (he : s.Early blkSz)
    (hcl : cellsOf blkSz s.current.chunks = [])
    (h : splitChunks profile blkSz maxSize cs s = .ok t) :
    t.Good blkSz ↔ FitsFirst blkSz maxSize s.current.totalSize cs := by
  induction cs generalizing s with
  | nil =>
    cases h
    simp [FitsFirst, early_good he]
  | cons c cs ih =>
    obtain ⟨u, hu, hrs⟩ := bind_eq_ok.mp h
    obtain ⟨es, hpc, hcut⟩ := splitWhile_recut hu
    simp only [FitsFirst]
    by_cases hsk : c.chunkType ≠ chunkTypeCrc32 ∧ c.chunkBlocks = 0
    · obtain ⟨hc, hz⟩ := hsk
      rw [splitWhile_leave (by simp [Loops, hc, hz])] at hu
      cases hu
      rw [if_neg hc, if_pos hz]
      exact ih (s := { s with remaining := c.chunkBlocks, rawOffset := 0 }) he hcl hrs
    · have hlp : Loops c { s with remaining := c.chunkBlocks, rawOffset := 0 } := by
        by_contra hl
        obtain ⟨hr, hc⟩ := not_or.mp hl
        exact hsk ⟨hc, Classical.not_not.mp hr⟩
      obtain ⟨v, hv, hvc, hvr, hvp, hsz, hf, hvu⟩ :=
        splitWhile_opened (s := { s with remaining := c.chunkBlocks, rawOffset := 0 }) he hcl hlp hu
      have hp := splitWhile_placed hv hb (Or.inr hf) hvu
      have hi (hs : u.splits = v.splits) : cellsOf blkSz u.current.chunks = chunkCells blkSz c := by
        have hcur : u.current.chunks = v.current.chunks ++ es := by
          have huv : u.placed = v.placed ++ es := hpc.trans (by rw [hvp]; rfl)
          simpa [placed, hs] using huv
        rw [hcur, cellsOf_append, hvc, nil_append, hcut.cells]
      by_cases hc : c.chunkType = chunkTypeCrc32
      · rw [if_pos hc]
        have hpl : place blkSz maxSize c v.current.totalSize v.remaining
            = some (v.current.totalSize + c.totalSize) := by
          rw [place, dif_neg (by simp [hc]), dif_pos hf, dif_neg (by rw [hc]; decide),
            if_neg (by rw [hc]; decide)]
        cases hp with
        | inside hp hs =>
          have hcr := Option.some.inj (hp.symm.trans hpl)
          rw [← hsz, ← hcr]
          refine ih (by rw [SplitState.Early, hs]; exact hv) ?_ hrs
          rw [hi hs]
          simp [chunkCells, hc, chunkTypeCrc32, chunkTypeRaw, chunkTypeFill, chunkTypeDontCare]
        | across hp => simp [hpl] at hp
      · have hz : c.chunkBlocks ≠ 0 := fun hz => hsk ⟨hc, hz⟩
        rw [if_neg hc, if_neg hz, ← hsz]
        refine placed_good_iff hb hvr hp (fun hs => ?_) hrs
        refine first_good_iff hb (by rw [SplitState.Early, hs]; exact hv) ?_ hrs
        rw [hi hs]
        exact hcut.cells_ne_nil hb hc hz

end

/-- Flashing the pieces is flashing the file exactly when everything the file writes goes into the
first piece that has blocks: no piece but that one starts where it should. -/
theorem SparseFile.flash_split_iff {profile : Profile} {f : SparseFile} {maxSize : Nat}
    {pieces : List SparseFile} (h : f.split profile maxSize = .ok pieces) :
    (∀ partition, flashAll pieces partition = f.flash partition) ↔
      FitsFirst f.header.blkSz maxSize SparseHeader.size f.chunks := by
  obtain ⟨hb, _, s, hs, hpc⟩ := split_eq_ok h
  obtain ⟨ess, hf, hct⟩ := split_recut h
  have hblk : ∀ p ∈ pieces, p.header.blkSz = f.header.blkSz :=
    fun p hp => (split_headerCut h p hp).blkSz_eq
  have hc : (pieces.map fun p => cellsOf f.header.blkSz p.chunks).flatten
      = cellsOf f.header.blkSz f.chunks := by
    rw [cellsOf_pieces, hf, recuts_cells hct]
  have hl : laterCells (s.parts f.header.blkSz)
      = laterCells (pieces.map fun p => cellsOf f.header.blkSz p.chunks) := by
    rw [hpc]
    split
    next => rfl
    next hm =>
      have hcr := Classical.not_not.mp hm
      rw [SplitState.parts, List.map_append, List.map_singleton, hcr, cellsOf_nil,
        laterCells_append_nil]
  have : Nontrivial UInt8 := ⟨0, 1, by decide⟩
  have hg := lead_good_iff hb (s := ⟨[], SparseFile.new f.header.blkSz, 0, 0⟩)
    (by simp [SplitState.Early]) rfl hs
  rw [show SparseHeader.size = (SparseFile.new f.header.blkSz).totalSize from rfl, ← hg,
    SplitState.Good, hl, ← overlayAll_eq_iff, hc]
  simp [flashAll_eq_overlayAll hblk, flash_eq_overlay]

def twoBlocks : SparseFile := ⟨SparseHeader.new 1 2 1, [⟨chunkTypeRaw, 2, [7, 8]⟩]⟩

def oneBlock (b : UInt8) : SparseFile := ⟨SparseHeader.new 1 1 1, [⟨chunkTypeRaw, 1, [b]⟩]⟩

theorem twoBlocks_split_once : twoBlocks.split .debug 42 = .ok [twoBlocks] := by
  have hr : splitWhile .debug 1 42 ⟨chunkTypeRaw, 2, [7, 8]⟩ ⟨[], SparseFile.new 1, 2, 0⟩
      = .ok ⟨[], twoBlocks, 0, 2⟩ := by
    rw [splitWhile_again (by decide) rfl]
    exact splitWhile_leave (by decide)
  exact split_ok (f := twoBlocks) (by decide) (by decide) (splitChunks_cons hr)

theorem twoBlocks_split_twice : twoBlocks.split .debug 41 = .ok [oneBlock 7, oneBlock 8] := by
  have hr : splitWhile .debug 1 41 ⟨chunkTypeRaw, 2, [7, 8]⟩ ⟨[], SparseFile.new 1, 2, 0⟩
      = .ok ⟨[oneBlock 7], oneBlock 8, 0, 2⟩ := by
    rw [splitWhile_again (by decide) rfl, splitWhile_again (by decide) rfl,
      splitWhile_again (by decide) rfl]
    exact splitWhile_leave (by decide)
  exact split_ok (f := twoBlocks) (by decide) (by decide) (splitChunks_cons hr)

theorem twoBlocks_flash_once : SparseFile.fromRaw .debug [7, 8] 1 = .ok twoBlocks ∧
      twoBlocks.split .debug 42 = .ok [twoBlocks] ∧
      ((∀ partition, flashAll [twoBlocks] partition = twoBlocks.flash partition) ↔
        FitsFirst 1 42 28 twoBlocks.chunks) ∧ FitsFirst 1 42 28 twoBlocks.chunks := by
  refine ⟨by decide, twoBlocks_split_once, flash_split_iff twoBlocks_split_once, ?_⟩
  have hp : place 1 42 ⟨chunkTypeRaw, 2, [7, 8]⟩ 28 2 = some 42 := by
    rw [place, dif_neg (by decide), dif_pos (by decide), dif_pos rfl, place, dif_pos (by decide)]
    rfl
  simp only [FitsFirst, twoBlocks]
  rw [if_neg (by decide), if_neg (by decide), if_pos (by decide), FitsThrough, hp]
  exact Or.inr trivial

/-- With room for one block a piece, both pieces write block 0. -/
theorem twoBlocks_flash_twice : SparseFile.fromRaw .debug [7, 8] 1 = .ok twoBlocks ∧
      twoBlocks.split .debug 41 = .ok [oneBlock 7, oneBlock 8] ∧
      ∃ partition, flashAll [oneBlock 7, oneBlock 8] partition ≠ twoBlocks.flash partition := by
  refine ⟨by decide, twoBlocks_split_twice, fun _ => 0, fun h => ?_⟩
  exact absurd (congrFun h 0) (by decide)

end AdbFastboot
