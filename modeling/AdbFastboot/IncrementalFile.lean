import AdbFastboot.IncrementalServer

namespace AdbFastboot

open List

variable {x : Int}

theorem asUsize_of_nonneg (h : 0 ≤ x) (hx : x < 2 ^ 64) : asUsize x = x.toNat := by
  rw [asUsize, Int.emod_eq_of_lt h hx]

theorem asUsize_natCast {n : Nat} (h : n < 2 ^ 63) : asUsize (n : Int) = n :=
  asUsize_of_nonneg (by omega) (by omega)

theorem asI32_of_fits (h : -2 ^ 31 ≤ x) (hx : x < 2 ^ 31) : asI32 x = x :=
  Int.bmod_eq_of_le (by omega) (by omega)

theorem asI32_le (h : 0 ≤ x) : asI32 x ≤ x := by
  rw [asI32, Int.bmod_def]
  split <;> omega

theorem asI16_of_fits (h : -2 ^ 15 ≤ x) (hx : x < 2 ^ 15) : asI16 x = x :=
  Int.bmod_eq_of_le (by omega) (by omega)

theorem checkedI32_of_fits (h : -2 ^ 31 ≤ x) (hx : x < 2 ^ 31) : checkedI32 x = some x := if_pos ⟨h, hx⟩

theorem checkedI32_eq_some {y : Int} (h : checkedI32 x = some y) : y = x ∧ x < 2 ^ 31 := by
  unfold checkedI32 at h
  split at h
  next hf => exact ⟨(Option.some.inj h).symm, hf.2⟩
  next => cases h

theorem hashesPerBlock_eq : hashesPerBlock = 128 := rfl

namespace ServerFile

variable (f : ServerFile)

def leafCount : Nat := (f.sentBlocks.length + hashesPerBlock - 1) / hashesPerBlock

def leafOffset : Nat := f.sentTreeBlocks.length - f.leafCount

def leafIndex (b : Nat) : Nat := f.leafOffset + b / hashesPerBlock

def blank : ServerFile :=
  { f with
    sentBlocks := List.replicate f.sentBlocks.length false
    sentBlocksCount := 0
    sentTreeBlocks := List.replicate f.sentTreeBlocks.length false }

def markTree (index : Nat) : ServerFile :=
  { f with sentTreeBlocks := f.sentTreeBlocks.set index true }

def markData (b : Nat) : ServerFile :=
  { f with sentBlocks := f.sentBlocks.set b true, sentBlocksCount := f.sentBlocksCount + 1 }

structure Ok : Prop where
  length_lt : f.sentBlocks.length < 2 ^ 31
  tree_lt : f.sentTreeBlocks.length < 2 ^ 63
  count : f.sentBlocksCount = f.sentBlocks.count true
  blocks : 0 < f.sentBlocks.length → numBytesToNumBlocks f.size = f.sentBlocks.length
  noTree : f.source.hasTree = false → f.sentTreeBlocks = []
  leaves : 0 < f.sentTreeBlocks.length → f.leafCount ≤ f.sentTreeBlocks.length
  /-- The levels above the lowest are sent from the root on. -/
  upper : f.sentTreeBlocks[0]? = some false → ∀ k < f.leafOffset,
    f.sentTreeBlocks[k]? = some false

variable {f}

/-- The leaf of a data block lies within the tree. -/
theorem leafIndex_lt (ho : f.Ok) (ht : 0 < f.sentTreeBlocks.length) {b : Nat}
    (hb : b < f.sentBlocks.length) : f.leafIndex b < f.sentTreeBlocks.length := by
  have hl := ho.leaves ht
  have hc : b / hashesPerBlock < f.leafCount := by
    unfold leafCount
    rw [hashesPerBlock_eq]
    omega
  unfold leafIndex leafOffset
  omega

variable {index : Nat}

theorem markTree_self (h : index < f.sentTreeBlocks.length) :
    (f.markTree index).sentTreeBlocks[index]? = some true := getElem?_set_self h

theorem markTree_ne {k : Nat} (h : index ≠ k) :
    (f.markTree index).sentTreeBlocks[k]? = f.sentTreeBlocks[k]? := getElem?_set_ne h

theorem markTree_blank (index : Nat) : (f.markTree index).blank = f.blank := by
  simp [blank, markTree]

theorem markData_blank (b : Nat) : (f.markData b).blank = f.blank := by
  simp [blank, markData]

variable {f' : ServerFile}

section

variable (h : f'.blank = f.blank)
include h

theorem length_of_blank : f'.sentBlocks.length = f.sentBlocks.length := by
  have hl := congrArg (fun f => f.sentBlocks.length) h
  simpa only [blank, length_replicate] using hl

theorem treeLength_of_blank : f'.sentTreeBlocks.length = f.sentTreeBlocks.length := by
  have hl := congrArg (fun f => f.sentTreeBlocks.length) h
  simpa only [blank, length_replicate] using hl

theorem source_of_blank : f'.source = f.source := by
  have hs := congrArg ServerFile.source h
  exact hs

theorem priorityBlocks_of_blank : f'.priorityBlocks = f.priorityBlocks := by
  have hp := congrArg ServerFile.priorityBlocks h
  exact hp

theorem leafOffset_of_blank : f'.leafOffset = f.leafOffset := by
  rw [leafOffset, leafCount, length_of_blank h, treeLength_of_blank h]
  rfl

theorem leafIndex_of_blank (b : Nat) : f'.leafIndex b = f.leafIndex b := by
  rw [leafIndex, leafOffset_of_blank h]
  rfl

end

/-- Marking a tree block whose root is marked keeps the file well formed. -/
theorem Ok.markTree (hf : f.Ok)
    (hr : 0 < index → index < f.leafOffset → f.sentTreeBlocks[0]? = some true) :
    (f.markTree index).Ok := by
  have hl := treeLength_of_blank (markTree_blank (f := f) index)
  refine ⟨hf.length_lt, ?_, hf.count, hf.blocks, ?_, ?_, ?_⟩
  · rw [hl]
    exact hf.tree_lt
  · intro hn
    simp [ServerFile.markTree, hf.noTree hn]
  · rw [hl]
    exact hf.leaves
  · rw [leafOffset_of_blank (markTree_blank index)]
    intro hr' k hk
    simp only [ServerFile.markTree, getElem?_set] at hr' ⊢
    split at hr'
    next => split at hr' <;> cases hr'
    next hne =>
      have hlow : f.leafOffset ≤ index := by
        by_contra hh
        have hs := hr (Nat.pos_of_ne_zero hne) (Nat.not_le.mp hh)
        rw [hs] at hr'
        cases hr'
      rw [if_neg (by omega)]
      exact hf.upper hr' k hk

/-- Marking a data block keeps the file well formed. -/
theorem Ok.markData {b : Nat} (hf : f.Ok) (hu : f.sentBlocks[b]? = some false) :
    (f.markData b).Ok := by
  obtain ⟨hlt, hg⟩ := List.getElem?_eq_some_iff.mp hu
  have hl := length_of_blank (markData_blank (f := f) b)
  refine ⟨?_, hf.tree_lt, ?_, ?_, hf.noTree, ?_, ?_⟩
  · rw [hl]
    exact hf.length_lt
  · simp only [ServerFile.markData, List.count_set hlt, hg, hf.count]
    rfl
  · rw [hl]
    exact hf.blocks
  · rw [leafCount, hl]
    exact hf.leaves
  · rw [leafOffset_of_blank (markData_blank b)]
    exact hf.upper

end ServerFile

/-- A file that is to be served. Its size is an `i64` whose number of blocks is computed without
overflow. -/
structure FileSpec where
  size : Int
  size_le : size ≤ 2 ^ 63 - 4096
  source : BlockSource
  priorityBlocks : List Int32

def FileSpec.file (spec : FileSpec) : ServerFile :=
  ServerFile.new spec.size spec.source spec.priorityBlocks

/-- A tree that is not empty has at least its leaves. -/
theorem treeBlocksAbove_ge {fuel count : Nat} (h : 0 < treeBlocksAbove fuel count) :
    (count + hashesPerBlock - 1) / hashesPerBlock ≤ treeBlocksAbove fuel count := by
  cases fuel with
  | zero => cases h
  | succ fuel =>
    unfold treeBlocksAbove at h ⊢
    split at h
    next hc =>
      rw [if_pos hc]
      exact Nat.le_add_right _ _
    next => cases h

theorem treeBlocksAbove_le (fuel count : Nat) : treeBlocksAbove fuel count ≤ count := by
  induction fuel generalizing count with
  | zero => exact Nat.zero_le _
  | succ fuel ih =>
    unfold treeBlocksAbove
    split
    next hc =>
      have ha := ih ((count + hashesPerBlock - 1) / hashesPerBlock)
      rw [hashesPerBlock_eq] at ha ⊢
      dsimp only
      omega
    next => exact Nat.zero_le _

def blockCount (size : Int) : Nat := (1 + (size - 1).tdiv kBlockSize).toNat

variable {size : Int}

theorem verityTreeBlocksForFile_eq (h : size ≠ 0) :
    verityTreeBlocksForFile size = treeBlocksAbove (blockCount size) (blockCount size) := if_neg h

/-- The blocks of a file, the last one begun included. -/
theorem blockCount_of_pos (h : 0 < size) : (blockCount size : Int) = (size - 1) / 4096 + 1 := by
  have hd : (size - 1).tdiv kBlockSize = (size - 1) / 4096 :=
    Int.tdiv_eq_ediv_of_nonneg (by omega)
  rw [blockCount, hd]
  omega

theorem blockCount_of_nonpos (h : size ≤ 0) : blockCount size ≤ 1 := by
  have hn : (size - 1).tdiv kBlockSize = -(1 - size).tdiv kBlockSize := by
    rw [← Int.neg_tdiv, Int.neg_sub]
  have hd : 0 ≤ (1 - size).tdiv kBlockSize := Int.tdiv_nonneg (by omega) (by decide)
  rw [blockCount, hn]
  omega

theorem numBlocks_eq (h : 0 < size) : numBytesToNumBlocks size = asI32 (blockCount size) := by
  have hc : ((kBlockSize : Nat) : Int) = 4096 := rfl
  rw [numBytesToNumBlocks, if_neg (by omega), blockCount_of_pos h, hc]
  congr 1
  omega

theorem numBlocks_le_blockCount (h : 0 < size) : numBytesToNumBlocks size ≤ blockCount size := by
  rw [numBlocks_eq h]
  exact asI32_le (Int.natCast_nonneg _)

theorem verityTree_pos (h : 0 < verityTreeBlocksForFile size) : 0 < size ∧ 1 < blockCount size := by
  have hs : size ≠ 0 := by
    rintro rfl
    cases h
  rw [verityTreeBlocksForFile_eq hs] at h
  have hm : 1 < blockCount size := by
    by_contra ho
    cases hc : blockCount size with
    | zero =>
      rw [hc] at h
      cases h
    | succ n =>
      rw [hc, treeBlocksAbove, if_neg (by omega)] at h
      cases h
  refine ⟨?_, hm⟩
  by_contra hn
  have hle := blockCount_of_nonpos (Int.not_lt.mp hn)
  omega

namespace FileSpec

variable (spec : FileSpec)

theorem file_blocks_length :
    spec.file.sentBlocks.length = (numBytesToNumBlocks spec.size).toNat := length_replicate

theorem file_tree_length : spec.file.sentTreeBlocks.length
    = if spec.source.hasTree then verityTreeBlocksForFile spec.size else 0 := by
  unfold FileSpec.file ServerFile.new
  split
  next => exact length_replicate
  next => rfl

theorem file_tree : spec.file.sentTreeBlocks = replicate spec.file.sentTreeBlocks.length false := by
  unfold FileSpec.file ServerFile.new
  split
  next => rw [length_replicate]
  next => rfl

/-- The tree of a file has room for its leaves. -/
theorem file_leaves (h : 0 < spec.file.sentTreeBlocks.length) :
    spec.file.leafCount ≤ spec.file.sentTreeBlocks.length := by
  rw [file_tree_length] at h ⊢
  split at h
  next ht =>
    obtain ⟨hp, -⟩ := verityTree_pos h
    have hle := numBlocks_le_blockCount hp
    rw [verityTreeBlocksForFile_eq (by omega)] at h ⊢
    rw [if_pos ht, ServerFile.leafCount, file_blocks_length]
    exact Nat.le_trans (Nat.div_le_div_right (by omega)) (treeBlocksAbove_ge h)
  next => cases h

theorem file_tree_lt : spec.file.sentTreeBlocks.length < 2 ^ 63 := by
  rw [file_tree_length]
  split
  next =>
    by_cases hs : 0 < spec.size
    · have hle := treeBlocksAbove_le (blockCount spec.size) (blockCount spec.size)
      have hc := blockCount_of_pos hs
      have hsz := spec.size_le
      rw [verityTreeBlocksForFile_eq (by omega)]
      omega
    · have hn : ¬ 0 < verityTreeBlocksForFile spec.size := fun h => hs (verityTree_pos h).1
      omega
  next => decide

/-- A file as it is opened is well formed. -/
theorem file_ok : spec.file.Ok where
  length_lt := by
    have hs : numBytesToNumBlocks spec.size < 2 ^ 31 := by
      unfold numBytesToNumBlocks
      split
      next => decide
      next => exact Int.bmod_lt (by decide)
    rw [file_blocks_length]
    omega
  tree_lt := spec.file_tree_lt
  count := by
    show (0 : Int) = ((replicate _ false).count true : Nat)
    rw [count_replicate]
    rfl
  blocks := by
    intro h
    rw [file_blocks_length] at h ⊢
    show numBytesToNumBlocks spec.size = _
    omega
  noTree := by
    intro h
    exact if_neg (Bool.eq_false_iff.mp h)
  leaves := spec.file_leaves
  upper := by
    intro _ k hk
    rw [file_tree, getElem?_replicate, if_pos (Nat.lt_of_lt_of_le hk (Nat.sub_le _ _))]

end FileSpec

end AdbFastboot
