import Mathlib.Data.Int.Range
import Mathlib.Data.List.Nodup
import AdbFastboot.IncrementalFile

namespace AdbFastboot

open List

/-- Clearing the low bits and shifting them out rounds down. -/
def offsetToBlockIndex (offset : Int) : Int := asI32 (offset / kBlockSize)

/-- Of the sums that fill the new slots the last is the one that may not fit. -/
def appendBlocks (start count : Int) (blocks : List Int) : Option (List Int) :=
  if count = 1 then some (blocks ++ [start])
  else if 1 < count then do
    let last ← checkedI32 (start + (count - 1))
    pure (blocks ++ Int.range start (last + 1))
  else some blocks

/-- The first occurrence of each block is kept. -/
def unduplicate (blocks : List Int) : List Int := blocks.eraseDups

def numBlocksInEocdSearch : Int := 64 * 1024 / kBlockSize + 1

/-- With more blocks than are searched, the differences in the first branch fit. -/
def zipPriorityBlocks (signerBlockOffset fileSize : Int) : Option (List Int) := do
  let signerBlockIndex := offsetToBlockIndex signerBlockOffset
  let lastBlockIndex := offsetToBlockIndex fileSize
  let numPriorityBlocks ← checkedI32 ((← checkedI32 (lastBlockIndex - signerBlockIndex)) + 1)
  let blocks ← if numBlocksInEocdSearch < numPriorityBlocks then do
      let blocks ← appendBlocks (lastBlockIndex - numBlocksInEocdSearch + 1) numBlocksInEocdSearch []
      appendBlocks signerBlockIndex (numPriorityBlocks - numBlocksInEocdSearch) blocks
    else appendBlocks signerBlockIndex numPriorityBlocks []
  appendBlocks 0 1 blocks

/-- A run of blocks below 2 ^ 31 is appended. -/
theorem appendBlocks_eq {start count : Int} (hs : 0 ≤ start) (hp : 0 < count)
    (hf : start + count ≤ 2 ^ 31) (blocks : List Int) :
    appendBlocks start count blocks = some (blocks ++ Int.range start (start + count)) := by
  unfold appendBlocks
  split
  next ho => simp [Int.range, ho]
  rw [if_pos (by omega), checkedI32_of_fits (by omega) (by omega)]
  simp [Int.add_assoc]

theorem eraseDups_of_nodup {xs : List Int} (h : xs.Nodup) : xs.eraseDups = xs := by
  induction xs with
  | nil => rfl
  | cons x xs ih =>
    have hx := nodup_cons.mp h
    rw [eraseDups_cons, filter_eq_self.mpr, ih hx.2]
    intro y hy
    simpa using fun heq : y = x => hx.1 (heq ▸ hy)

theorem intRange_nodup (m n : Int) : (Int.range m n).Nodup :=
  Nodup.map (fun _ _ h => Int.natCast_inj.mp (Int.add_left_cancel h)) nodup_range

/-- If the blocks from `first` to `last` are more than 17, the last 17 come before all others. -/
def LastBefore (first last : Int) (blocks : List Int) : Prop :=
  17 < last - first + 1 →
    ∀ a b, last - 17 < a → a ≤ last → first ≤ b → b ≤ last - 17 → [a, b] <+ blocks

structure ListsOnce (first last : Int) (blocks : List Int) : Prop where
  nodup : blocks.Nodup
  mem_iff : ∀ b, b ∈ blocks ↔ b = 0 ∨ first ≤ b ∧ b ≤ last
  order : LastBefore first last blocks

/-- A run without duplicates, followed by block 0, lists each block once. -/
theorem listsOnce_unduplicate {first last : Int} {run : List Int} (hn : run.Nodup)
    (hm : ∀ b, b ∈ run ↔ first ≤ b ∧ b ≤ last) (ho : LastBefore first last run) :
    ListsOnce first last (unduplicate (run ++ [0])) := by
  have hk : ∃ rest, unduplicate (run ++ [0]) = run ++ rest ∧ rest.Nodup ∧ run.Disjoint rest := by
    rw [unduplicate, eraseDups_append, eraseDups_of_nodup hn, cons_removeAll]
    refine ⟨_, rfl, ?_⟩
    by_cases hz : 0 ∈ run <;> simp [hz, eraseDups_cons]
  obtain ⟨rest, heq, hr, hd⟩ := hk
  refine ⟨?_, fun b => ?_, fun hmn a b h1 h2 h3 h4 => ?_⟩
  · rw [heq]
    exact hn.append hr hd
  · rw [unduplicate, mem_eraseDups, mem_append, hm, mem_singleton, or_comm]
  · rw [heq]
    exact (ho hmn a b h1 h2 h3 h4).trans (sublist_append_left _ _)

/-- The blocks are listed as they should be, exactly if they can be counted in an `i32`. -/
theorem zip_priority_blocks_iff {signerBlockOffset fileSize : Int} (hfits : fileSize / 4096 < 2 ^ 31)
    (hsigner : 0 ≤ signerBlockOffset) (hle : signerBlockOffset ≤ fileSize) :
    (∃ blocks, zipPriorityBlocks signerBlockOffset fileSize = some blocks
        ∧ ListsOnce (signerBlockOffset / 4096) (fileSize / 4096) (unduplicate blocks))
      ↔ ¬(signerBlockOffset < 4096 ∧ fileSize / 4096 = 2 ^ 31 - 1) := by
  have hi : ∀ offset : Int, 0 ≤ offset → offset ≤ fileSize →
      offsetToBlockIndex offset = offset / 4096 := fun offset hp hin => by
    rw [offsetToBlockIndex, show ((kBlockSize : Nat) : Int) = 4096 from rfl]
    exact asI32_of_fits (by omega) (by omega)
  have hs : numBlocksInEocdSearch = 17 := rfl
  rw [zipPriorityBlocks, hi _ hsigner hle, hi fileSize (by omega) (Int.le_refl _), hs,
    checkedI32_of_fits (by omega) (by omega)]
  generalize hf : signerBlockOffset / 4096 = first
  generalize hls : fileSize / 4096 = last at hfits
  simp only [Option.bind_eq_bind, Option.bind_some]
  by_cases ho : last - first + 1 < 2 ^ 31
  · refine iff_of_true ?_ (by omega)
    rw [checkedI32_of_fits (by omega) ho, Option.bind_some]
    split
    next hm =>
      rw [appendBlocks_eq (by omega) (by omega) (by omega), Option.bind_some,
        appendBlocks_eq (by omega) (by omega) (by omega), Option.bind_some]
      refine ⟨_, rfl, listsOnce_unduplicate ?_ (fun b => ?_) fun _ a b h1 h2 h3 h4 => ?_⟩
      · refine (intRange_nodup _ _).append (intRange_nodup _ _) fun b hl he => ?_
        rw [Int.mem_range_iff] at hl he
        omega
      · simp only [nil_append, mem_append, Int.mem_range_iff]
        omega
      · have ha : a ∈ Int.range (last - 17 + 1) (last - 17 + 1 + 17) :=
          Int.mem_range_iff.mpr (by omega)
        have hb : b ∈ Int.range first (first + (last - first + 1 - 17)) :=
          Int.mem_range_iff.mpr (by omega)
        exact (singleton_sublist.mpr ha).append (singleton_sublist.mpr hb)
    next =>
      rw [appendBlocks_eq (by omega) (by omega) (by omega), Option.bind_some]
      refine ⟨_, rfl, listsOnce_unduplicate (intRange_nodup _ _) (fun b => ?_) fun h => by omega⟩
      rw [nil_append, Int.mem_range_iff]
      omega
  · refine iff_of_false ?_ (by omega)
    rw [checkedI32, if_neg (by omega)]
    simp

theorem zip_priority_blocks_hundred :
    ∃ blocks, zipPriorityBlocks (20 * 4096) (100 * 4096) = some blocks
      ∧ ListsOnce 20 100 (unduplicate blocks) :=
  (zip_priority_blocks_iff (by decide) (by decide) (by decide)).mpr (by decide)

/-- The number of blocks from the first to the block 2 ^ 31 - 1 overflows. -/
theorem zip_priority_blocks_overflow : zipPriorityBlocks 0 ((2 ^ 31 - 1) * 4096) = none := by decide

end AdbFastboot
