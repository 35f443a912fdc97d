import AdbFastboot.IncrementalFile

namespace AdbFastboot

open List

/-- The hash tree over `count` blocks as its file holds it, the root first: for each block of the
tree the height of its level, the leaves being of height 0. -/
def treeLayout (count : Nat) : List Nat :=
  if 1 < count then
    (treeLayout ((count + 127) / 128)).map (· + 1) ++ replicate ((count + 127) / 128) 0
  else []
termination_by count
decreasing_by omega

/-- The number of blocks of the levels above the leaves. -/
def upperBlocks (count : Nat) : Nat := (treeLayout ((count + 127) / 128)).length

variable {count k : Nat}

theorem treeLayout_of_many (h : 1 < count) : treeLayout count
    = (treeLayout ((count + 127) / 128)).map (· + 1) ++ replicate ((count + 127) / 128) 0 := by
  rw [treeLayout, if_pos h]

/-- A tree is its upper levels and its leaves. -/
theorem treeLayout_length (h : 1 < count) :
    (treeLayout count).length = upperBlocks count + (count + 127) / 128 := by
  simp [treeLayout_of_many h, upperBlocks]

/-- The sum over the levels counts the blocks of the layout. -/
theorem treeBlocksAbove_eq {fuel : Nat} (h : count ≤ fuel + 1) :
    treeBlocksAbove fuel count = (treeLayout count).length := by
  induction fuel generalizing count with
  | zero =>
    rw [treeLayout, if_neg (by omega)]
    rfl
  | succ fuel ih =>
    rw [treeBlocksAbove]
    split
    next hm =>
      have ha := ih (by omega : (count + 127) / 128 ≤ fuel + 1)
      rw [treeLayout_length hm, upperBlocks, ← ha]
      exact Nat.add_comm _ _
    next hf => rw [treeLayout, if_neg hf, length_nil]

/-- The leaves are the blocks behind the upper levels. -/
theorem treeLayout_leaf_iff (h : 1 < count) (hk : k < (treeLayout count).length) :
    (treeLayout count)[k]? = some 0 ↔ upperBlocks count ≤ k := by
  rw [treeLayout_length h] at hk
  rw [treeLayout_of_many h, upperBlocks] at *
  by_cases hl : k < (treeLayout ((count + 127) / 128)).length
  · simp [getElem?_append_left, hl]
  · rw [getElem?_append_right (by simpa using hl), length_map, getElem?_replicate,
      if_pos (by omega)]
    exact iff_of_true rfl (Nat.not_lt.mp hl)

namespace ServerFile

/-- `leaf_nodes_offset` of `send_tree_blocks_for_data_block`. -/
def leafNodesOffset (f : ServerFile) : Int :=
  f.sentTreeBlocks.length - (numBytesToNumBlocks f.size + hashesPerBlock - 1).tdiv hashesPerBlock

def leafIdx (f : ServerFile) (blockIdx : Int) : Nat :=
  asUsize (f.leafNodesOffset + blockIdx.tdiv hashesPerBlock)

variable {s : IncrementalServer} {f : ServerFile} {fileId blockIdx : Int}

/-- The leaf is the first block that is read for a data block. -/
theorem sendTreeBlocksForDataBlock_leafIdx (hf : s.files[asUsize fileId]? = some f)
    (ht : f.source.hasTree = true) (hs : 0 < f.sentTreeBlocks.length)
    (hr : f.source.readTreeBlock s.reads (asI32 (f.leafIdx blockIdx)) = none) :
    s.sendTreeBlocksForDataBlock fileId blockIdx
      = if f.sentTreeBlocks[f.leafIdx blockIdx]? ≠ some false then some (true, s)
        else some (false, s.readOne) := by
  rw [leafIdx, leafNodesOffset] at *
  rw [IncrementalServer.sendTreeBlocksForDataBlock, hf]
  simp [ht, Nat.ne_of_gt hs, IncrementalServer.sendTreeBlock, hf, hr]

/-- What the server takes the tree of a file of `count` blocks to be is what it is. -/
structure Geometry (f : ServerFile) (count : Nat) : Prop where
  total : f.sentTreeBlocks.length = (treeLayout count).length
  leaf : ∀ i < count, f.leafIdx i = upperBlocks count + i / 128
    ∧ (treeLayout count)[f.leafIdx i]? = some 0
  covered : ∀ k, (treeLayout count)[k]? = some 0 → ∃ i < count, f.leafIdx i = k
  /-- The blocks before the first leaf are the higher levels. -/
  upper : f.leafNodesOffset = upperBlocks count ∧ ∀ k < (treeLayout count).length,
    (treeLayout count)[k]? ≠ some 0 ↔ k < f.leafNodesOffset

/-- A tree whose leaves are found where they start is as it should be. -/
theorem geometry_of_offset {f : ServerFile} (h : 1 < count) (hc : count < 2 ^ 52)
    (ht : f.sentTreeBlocks.length = (treeLayout count).length)
    (ho : f.leafNodesOffset = upperBlocks count) : f.Geometry count := by
  have hl := treeLayout_length h
  have hle := treeBlocksAbove_le count count
  rw [treeBlocksAbove_eq (Nat.le_succ _)] at hle
  have hidx : ∀ i < count, f.leafIdx i = upperBlocks count + i / 128 := by
    intro i hi
    have hs : f.leafNodesOffset + (i : Int).tdiv hashesPerBlock
        = ((upperBlocks count + i / 128 : Nat) : Int) := by
      rw [ho]
      rfl
    rw [leafIdx, hs, asUsize_natCast (by omega)]
  refine ⟨ht, fun i hi => ⟨hidx i hi, ?_⟩, fun k hk => ?_, ho, fun k hk => ?_⟩
  · rw [hidx i hi, treeLayout_leaf_iff h (by omega)]
    exact Nat.le_add_right _ _
  · have hlt := (List.getElem?_eq_some_iff.mp hk).1
    have hlow := (treeLayout_leaf_iff h hlt).mp hk
    refine ⟨(k - upperBlocks count) * 128, by omega, ?_⟩
    rw [hidx _ (by omega)]
    omega
  · rw [ne_eq, treeLayout_leaf_iff h hk, ho]
    omega

end ServerFile

/-- The tree of a file of more than one block is what the server takes it to be, exactly if its
blocks can be counted in an `i32`. -/
theorem verity_geometry_iff (spec : FileSpec) (htree : spec.source.hasTree = true)
    (hpos : 0 < spec.size) (hmany : 1 < blockCount spec.size) :
    spec.file.Geometry (blockCount spec.size) ↔ blockCount spec.size < 2 ^ 31 := by
  have hc := blockCount_of_pos hpos
  have hle := spec.size_le
  have ht : spec.file.sentTreeBlocks.length = (treeLayout (blockCount spec.size)).length := by
    rw [spec.file_tree_length, if_pos htree, verityTreeBlocksForFile_eq (by omega),
      treeBlocksAbove_eq (Nat.le_succ _)]
  have hlen := treeLayout_length hmany
  have ho : spec.file.leafNodesOffset = (treeLayout (blockCount spec.size)).length
      - (numBytesToNumBlocks spec.size + 127).tdiv 128 := by
    rw [← ht, ServerFile.leafNodesOffset, Int.add_sub_assoc]
    rfl
  constructor
  · intro h
    by_contra hlr
    have hl : numBytesToNumBlocks spec.size + 127 ≤ blockCount spec.size - 128 := by
      rw [numBlocks_eq hpos, asI32, Int.bmod_def]
      split <;> omega
    have heq := h.upper.1
    have hd := Int.tdiv_le_tdiv (c := 128) (by decide) hl
    rw [Int.tdiv_eq_ediv_of_nonneg (by omega : 0 ≤ (blockCount spec.size : Int) - 128)] at hd
    omega
  · intro hf
    apply ServerFile.geometry_of_offset hmany (by omega) ht
    rw [ho, numBlocks_eq hpos, asI32_of_fits (by omega) (by omega), Int.tdiv_eq_ediv_of_nonneg (by omega)]
    omega

def treeFile (size : Int) (h : size ≤ 2 ^ 63 - 4096) : FileSpec :=
  ⟨size, h, ⟨fun _ _ => none, fun _ _ => none, true⟩, []⟩

theorem verity_geometry_three_leaves : (treeFile (300 * 4096) (by decide)).file.Geometry 300 :=
  (verity_geometry_iff _ rfl (by decide) (by decide)).mpr (by decide)

/-- The leaf of the first block of a file of 2 ^ 31 blocks is taken to be outside the tree. -/
theorem verity_geometry_large : let f := (treeFile (2 ^ 43) (by decide)).file
    1 < blockCount f.size ∧ f.sentTreeBlocks.length ≤ f.leafIdx 0 := by
  intro f
  have ht : f.sentTreeBlocks.length = 16909321 := by
    rw [FileSpec.file_tree_length]
    decide +kernel
  refine ⟨by decide, ?_⟩
  rw [ServerFile.leafIdx, ServerFile.leafNodesOffset, ht]
  decide +kernel

end AdbFastboot
