import AdbFastboot.IncrementalEmit

namespace AdbFastboot

open ServerFile List

namespace ServerFile

/-- Where the root of the tree or a block of its lowest level is sent, the levels above the lowest
are. -/
def Rooted (f : ServerFile) : Prop := ∀ l, l = 0 ∨ f.leafOffset ≤ l →
  f.sentTreeBlocks[l]? = some true → ∀ k < f.leafOffset, f.sentTreeBlocks[k]? = some true

/-- Where a data block is sent, the block of the tree that covers it is. -/
structure Whole (f : ServerFile) : Prop where
  rooted : f.Rooted
  covered : 0 < f.sentTreeBlocks.length → ∀ b, f.sentBlocks[b]? = some true →
    f.sentTreeBlocks[f.leafIndex b]? = some true

theorem Rooted.markData {f : ServerFile} (h : f.Rooted) (b : Nat) : (f.markData b).Rooted := by
  intro l hl
  rw [leafOffset_of_blank (markData_blank b)] at hl ⊢
  exact h l hl

def UpperReads (f : ServerFile) : Prop :=
  ∀ n, ∀ k < f.leafOffset, (f.source.readTreeBlock n (asI32 k)).isSome

end ServerFile

def BlockSource.Reads (source : BlockSource) : Prop :=
  ∀ n k, (source.readDataBlock n k).isSome ∧ (source.readTreeBlock n k).isSome

theorem BlockSource.Reads.upper {f : ServerFile} (h : f.source.Reads) : f.UpperReads :=
  fun n k _ => (h n (asI32 k)).2

namespace IncrementalServer

variable {s s' : IncrementalServer} {i : Nat} {f : ServerFile}

theorem emitBlock_files (fileId blockIdx : Int) (blockType : BlockType)
    (compressionType : CompressionType) (payload : Bytes) (flush : Bool) :
    (s.emitBlock fileId blockIdx blockType compressionType payload flush).files = s.files := by
  have hf := congrArg IncrementalServer.files
    (emitBlock_unwritten s fileId blockIdx blockType compressionType payload flush)
  exact hf

theorem emitTree_files (index : Nat) (data : Bytes) : (s.emitTree i index f data).files
    = s.files.set i (f.markTree index) :=
  congrArg IncrementalServer.files (emitTree_unwritten s i index f data)

variable (compress : Bytes → Bytes)

theorem emitData_files (b : Nat) (data : Bytes) (flush : Bool) :
    (s.emitData compress i b f data flush).files = s.files.set i (f.markData b) :=
  congrArg IncrementalServer.files (emitData_unwritten s compress i b f data flush)

/-- Sending a tree block leaves the other files alone. -/
theorem EmitTree.other {j : Nat} (h : EmitTree i s s') (hj : j ≠ i) : s'.files[j]? = s.files[j]? := by
  cases h with
  | miss => rfl
  | emit => rw [emitTree_files, getElem?_set_ne hj.symm]

theorem EmitTree.blocks (h : EmitTree i s s') : s'.files.map sentBlocks = s.files.map sentBlocks := by
  cases h with
  | miss => rfl
  | emit hfi =>
    rw [emitTree_files]
    exact map_set_same hfi rfl

def EmitTrees (i : Nat) : IncrementalServer → IncrementalServer → Prop :=
  Relation.ReflTransGen (EmitTree i)

namespace EmitTrees

section

variable (h : EmitTrees i s s')
include h

theorem grown : Grown s s' := Grown.of_chain EmitTree.grown h

theorem filesOk (ho : s.FilesOk) : s'.FilesOk := by
  induction h with
  | refl => exact ho
  | tail _ hs ih => exact hs.filesOk ih

theorem other {j : Nat} (hj : j ≠ i) : s'.files[j]? = s.files[j]? := by
  induction h with
  | refl => rfl
  | tail _ hs ih => exact (hs.other hj).trans ih

theorem blocks : s'.files.map sentBlocks = s.files.map sentBlocks := by
  induction h with
  | refl => rfl
  | tail _ hs ih => exact hs.blocks.trans ih

theorem unsent : s'.unsent = s.unsent := by
  have hm := congrArg (map (count false)) h.blocks
  simp only [map_map] at hm
  exact congrArg sum hm

end

theorem emits (compress : Bytes → Bytes) (hi : i < 2 ^ 15) (h : EmitTrees i s s') :
    Emits compress s s' := by
  induction h with
  | refl => exact .refl
  | tail _ hs ih => exact ih.tail (.tree hi hs)

end EmitTrees

theorem sendTreeBlock_none {k : Int} (hi : i < 2 ^ 15) (hfi : s.files[i]? = some f)
    (hr : f.source.readTreeBlock s.reads k = none) :
    s.sendTreeBlock i k = some (false, s.readOne) := by
  unfold sendTreeBlock
  rw [asUsize_natCast (by omega), hfi]
  simp only [Option.bind_eq_bind, Option.bind_some, hr]
  rfl

/-- A tree block that can be read is emitted. -/
theorem sendTreeBlock_some {k : Int} {data : Bytes} (hi : i < 2 ^ 15)
    (hfi : s.files[i]? = some f) (hr : f.source.readTreeBlock s.reads k = some data) :
    s.sendTreeBlock i k = some (true, s.readOne.emitBlock i k .hash .none data false) := by
  unfold sendTreeBlock
  rw [asUsize_natCast (by omega), hfi]
  simp only [Option.bind_eq_bind, Option.bind_some, hr]
  rfl

theorem markTreeSent_emit {index : Nat} {data : Bytes} (hfi : s.files[i]? = some f)
    (hi : index < f.sentTreeBlocks.length) :
    (s.readOne.emitBlock i (asI32 index) .hash .none data false).markTreeSent i index
      = some (s.emitTree i index f data) := by
  have hf : s.readOne.files[i]? = some f := hfi
  unfold markTreeSent
  rw [emitBlock_files, hf]
  simp only [Option.bind_eq_bind, Option.bind_some, if_pos hi]
  rfl

/-- The loop sends the upper levels from the root on, until a read fails. -/
theorem sendUpperTree_spec (hi : i < 2 ^ 15) (todo index : Nat) (hfi : s.files[i]? = some f)
    (hrm : index + todo ≤ f.leafOffset)
    (hu : ∀ k, index ≤ k → k < f.leafOffset → f.sentTreeBlocks[k]? = some false)
    (hrt : 0 < index → f.sentTreeBlocks[0]? = some true) :
    ∃ ok s', sendUpperTree i s todo index = some (ok, s') ∧ EmitTrees i s s' ∧ (f.UpperReads → ok = true)
      ∧ (ok = true → ∀ f', s'.files[i]? = some f' → ∀ k, index ≤ k → k < index + todo →
          f'.sentTreeBlocks[k]? = some true) := by
  induction todo generalizing s f index with
  | zero =>
    refine ⟨true, s, rfl, .refl, fun _ => rfl, ?_⟩
    intro _ f' _ k hk hk'
    omega
  | succ todo ih =>
    have hn := hu index (Nat.le_refl _) (by omega)
    obtain ⟨hlt, -⟩ := List.getElem?_eq_some_iff.mp hn
    cases hrd : f.source.readTreeBlock s.reads (asI32 index) with
    | none =>
      refine ⟨false, s.readOne, ?_, .single (.miss s), ?_, ?_⟩
      · unfold sendUpperTree
        rw [sendTreeBlock_none hi hfi hrd]
        rfl
      · intro hr
        have hs := hr s.reads index (by omega)
        rw [hrd] at hs
        cases hs
      · intro hok
        cases hok
    | some data =>
      have hst : EmitTree i s (s.emitTree i index f data) :=
        .emit hfi hn hrd fun hp _ => hrt hp
      have hfi' : (s.emitTree i index f data).files[i]? = some (f.markTree index) := by
        rw [emitTree_files, List.getElem?_set_self (List.getElem?_eq_some_iff.mp hfi).1]
      have ho := leafOffset_of_blank (markTree_blank (f := f) index)
      obtain ⟨ok, s', hrun, he, hok, hset⟩ := ih (index + 1) hfi' (by rw [ho]; omega)
        (by
          rw [ho]
          intro k hk hk'
          rw [markTree_ne (by omega)]
          exact hu k (by omega) hk')
        (by
          intro _
          by_cases hz : index = 0
          · subst hz
            exact markTree_self hlt
          · exact set_true_of_true _ (hrt (Nat.pos_of_ne_zero hz)))
      have hup : f.UpperReads → (f.markTree index).UpperReads := by
        intro hr n k hk
        rw [ho] at hk
        exact hr n k hk
      refine ⟨ok, s', ?_, .head hst he, fun hr => hok (hup hr), ?_⟩
      · unfold sendUpperTree
        rw [sendTreeBlock_some hi hfi hrd, asUsize_natCast (by omega)]
        simp only [Option.bind_eq_bind, Option.bind_some, markTreeSent_emit hfi hlt]
        exact hrun
      · intro ha f' hf' k hk hk'
        by_cases hft : k = index
        · subst hft
          exact he.grown.sentTree hfi' hf' (markTree_self hlt)
        · exact hset ha f' hf' k (by omega) (by omega)

variable {b : Nat}

theorem leafCount_eq (hf : f.Ok) (hb : b < f.sentBlocks.length) :
    (numBytesToNumBlocks f.size + hashesPerBlock - 1).tdiv hashesPerBlock = f.leafCount := by
  rw [hf.blocks (by omega), hashesPerBlock_eq, Int.tdiv_eq_ediv_of_nonneg (by omega),
    leafCount, hashesPerBlock_eq]
  omega

theorem leafOffset_eq (hf : f.Ok) (ht : 0 < f.sentTreeBlocks.length) :
    (f.sentTreeBlocks.length : Int) - f.leafCount = f.leafOffset := by
  have hl := hf.leaves ht
  rw [leafOffset]
  omega

/-- The casts of the leaf index do not change it. -/
theorem leafIndex_eq (hf : f.Ok) (ht : 0 < f.sentTreeBlocks.length) (hb : b < f.sentBlocks.length) :
    asUsize ((f.leafOffset : Int) + (b : Int).tdiv hashesPerBlock) = f.leafIndex b := by
  have hlt := leafIndex_lt hf ht hb
  have htr := hf.tree_lt
  exact asUsize_natCast (by unfold leafIndex at hlt; omega)

/-- Nothing is sent for a leaf that is marked. -/
theorem sendTreeBlocksForDataBlock_eq (hf : f.Ok) (hi : i < 2 ^ 15) (hfi : s.files[i]? = some f)
    (hb : b < f.sentBlocks.length) :
    s.sendTreeBlocksForDataBlock i b = if f.sentTreeBlocks[f.leafIndex b]? ≠ some false then some (true, s)
        else (do
          let (ok, s) ← s.sendTreeBlock i (asI32 (f.leafIndex b))
          if !ok then return (false, s)
          let s ← s.markTreeSent i (f.leafIndex b)
          if f.leafOffset = 0 then return (true, s)
          let file ← s.files[i]?
          if ← file.sentTreeBlocks[0]? then return (true, s)
          sendUpperTree i s f.leafOffset 0) := by
  have hidx : asUsize (i : Int) = i := asUsize_natCast (by omega)
  unfold sendTreeBlocksForDataBlock
  simp only [hidx, hfi]
  by_cases ht : 0 < f.sentTreeBlocks.length
  · have htr : f.source.hasTree = true := by
      by_contra hno
      rw [hf.noTree (Bool.eq_false_iff.mpr hno)] at ht
      cases ht
    have hu : asUsize (f.leafOffset : Int) = f.leafOffset := by
      have hlt := hf.tree_lt
      exact asUsize_natCast (Nat.lt_of_le_of_lt (Nat.sub_le _ _) hlt)
    simp only [htr, Bool.not_true, Bool.false_eq_true, if_false, leafCount_eq hf hb,
      leafOffset_eq hf ht, leafIndex_eq hf ht hb, if_neg (show ¬ (f.sentTreeBlocks.length : Int) ≤ 0
        by omega), hu, Int.natCast_eq_zero]
  · have hn : f.sentTreeBlocks = [] := eq_nil_of_length_eq_zero (by omega)
    cases htr : f.source.hasTree <;> simp [hn]

/-- The blocks on the path of a data block are sent, or a read has failed. -/
theorem sendTreeBlocksForDataBlock_spec (hok : s.FilesOk) (hi : i < 2 ^ 15)
    (hfi : s.files[i]? = some f) (hb : b < f.sentBlocks.length) :
    ∃ ok s', s.sendTreeBlocksForDataBlock i b = some (ok, s') ∧ EmitTrees i s s'
      ∧ (f.source.Reads → ok = true)
      ∧ (∀ f', s'.files[i]? = some f' → ok = true → 0 < f.sentTreeBlocks.length →
          f'.sentTreeBlocks[f.leafIndex b]? = some true)
      ∧ (∀ f', s'.files[i]? = some f' → ok = true ∨ f.UpperReads → f.Rooted → f'.Rooted) := by
  have hf := hok f (mem_of_getElem? hfi)
  rw [sendTreeBlocksForDataBlock_eq hf hi hfi hb]
  by_cases hu : f.sentTreeBlocks[f.leafIndex b]? = some false
  · have hlt := (List.getElem?_eq_some_iff.mp hu).1
    have hbl : f.leafOffset ≤ f.leafIndex b := Nat.le_add_right _ _
    rw [if_neg (not_not_intro hu)]
    cases hr : f.source.readTreeBlock s.reads (asI32 (f.leafIndex b)) with
    | none =>
      rw [sendTreeBlock_none hi hfi hr]
      refine ⟨false, s.readOne, rfl, .single (.miss s), ?_, ?_, ?_⟩
      · intro hrs
        have hsm := (hrs s.reads (asI32 (f.leafIndex b))).2
        rw [hr] at hsm
        cases hsm
      · intro f' _ hfl
        cases hfl
      · intro f' hf' _
        cases hfi.symm.trans hf'
        exact id
    | some data =>
      have hs : EmitTree i s (s.emitTree i (f.leafIndex b) f data) :=
        .emit hfi hu hr fun _ hab => absurd hbl (Nat.not_le.mpr hab)
      have hfi' : (s.emitTree i (f.leafIndex b) f data).files[i]?
          = some (f.markTree (f.leafIndex b)) := by
        rw [emitTree_files, List.getElem?_set_self (List.getElem?_eq_some_iff.mp hfi).1]
      have ho := leafOffset_of_blank
        (markTree_blank (f := f) (f.leafIndex b))
      have hl := markTree_self hlt
      rw [sendTreeBlock_some hi hfi hr]
      simp only [Option.bind_eq_bind, Option.bind_some, markTreeSent_emit hfi hlt, Bool.not_true,
        Bool.false_eq_true, if_false, hfi']
      by_cases hz : f.leafOffset = 0
      · refine ⟨true, _, if_pos hz, .single hs, fun _ => rfl, ?_, ?_⟩
        · intro f' hf' _ _
          cases hfi'.symm.trans hf'
          exact hl
        · intro f' hf' _ _ l _ _ k hk
          cases hfi'.symm.trans hf'
          rw [ho, hz] at hk
          cases hk
      · have hro : (f.markTree (f.leafIndex b)).sentTreeBlocks[0]? = f.sentTreeBlocks[0]? :=
          markTree_ne (by omega)
        rw [if_neg hz, hro, List.getElem?_eq_getElem (by omega)]
        cases hsn : f.sentTreeBlocks[0] with
        | true =>
          refine ⟨true, _, rfl, .single hs, fun _ => rfl, ?_, ?_⟩
          · intro f' hf' _ _
            cases hfi'.symm.trans hf'
            exact hl
          · intro f' hf' _ hrt l _ _ k hk
            cases hfi'.symm.trans hf'
            rw [ho] at hk
            refine set_true_of_true _ (hrt 0 (.inl rfl) ?_ k hk)
            rw [List.getElem?_eq_getElem (by omega), hsn]
        | false =>
          have hup := hf.upper (by rw [List.getElem?_eq_getElem (by omega), hsn])
          obtain ⟨ok, s', hrun, he, hrs, hset⟩ := sendUpperTree_spec hi f.leafOffset 0 hfi'
            (by rw [ho]; omega)
            (by
              rw [ho]
              intro k _ hk
              rw [markTree_ne (by omega)]
              exact hup k hk)
            (fun hp => absurd hp (Nat.lt_irrefl 0))
          have ha : f.UpperReads → ok = true := by
            intro hup
            refine hrs ?_
            intro n k hk
            rw [ho] at hk
            exact hup n k hk
          refine ⟨ok, s', hrun, .head hs he, fun h => ha h.upper, ?_, ?_⟩
          · intro f' hf' _ _
            exact he.grown.sentTree hfi' hf' hl
          · intro f' hf' hw _ l _ _ k hk
            obtain ⟨g, hg, hbn⟩ := he.grown.file hfi'
            cases hf'.symm.trans hg
            rw [leafOffset_of_blank hbn, ho] at hk
            exact hset (hw.elim id ha) f' hf' k (Nat.zero_le _) (by omega)
  · rw [if_pos hu]
    refine ⟨true, s, rfl, .refl, fun _ => rfl, ?_, ?_⟩
    · intro f' hf' _ ht
      cases hfi.symm.trans hf'
      have hlt := leafIndex_lt hf ht hb
      rw [List.getElem?_eq_getElem hlt] at hu ⊢
      simpa using hu
    · intro f' hf' _
      cases hfi.symm.trans hf'
      exact id

theorem sum_set_add {l : List Nat} {i a : Nat} (a' : Nat) (h : l[i]? = some a) :
    (l.set i a').sum + a = l.sum + a' := by
  induction l generalizing i with
  | nil => cases h
  | cons n l ih =>
    cases i with
    | zero =>
      cases h
      simp only [set_cons_zero, sum_cons]
      omega
    | succ i =>
      have hr := ih h
      simp only [set_cons_succ, sum_cons]
      omega

/-- Each data block emitted leaves one less unsent. -/
theorem emitData_unsent (data : Bytes) (flush : Bool) (hfi : s.files[i]? = some f)
    (hu : f.sentBlocks[b]? = some false) :
    (s.emitData compress i b f data flush).unsent + 1 = s.unsent := by
  obtain ⟨hlt, hg⟩ := List.getElem?_eq_some_iff.mp hu
  have hp : 0 < f.sentBlocks.count false := by
    rw [count_pos_iff, ← hg]
    exact getElem_mem hlt
  have hc : (f.markData b).sentBlocks.count false + 1 = f.sentBlocks.count false := by
    simp only [markData, count_set hlt, hg]
    simp only [beq_self_eq_true, if_true, Bool.true_beq, Bool.false_eq_true, if_false]
    omega
  have hs := sum_set_add (l := s.files.map fun f => f.sentBlocks.count false)
    ((f.markData b).sentBlocks.count false) (by rw [List.getElem?_map, hfi]; rfl)
  dsimp only at hs
  unfold unsent
  rw [emitData_files, map_set]
  omega

theorem markSent_count (compressionType : CompressionType) (hf : f.Ok)
    (hfi : s.files[i]? = some f) (hu : f.sentBlocks[b]? = some false) :
    (s.countPacked compressionType).markSent i b
      = some ((s.countPacked compressionType).setFile i (f.markData b)) := by
  have hfs : (s.countPacked compressionType).files = s.files := by
    cases compressionType <;> rfl
  have hlt := (List.getElem?_eq_some_iff.mp hu).1
  have hm := hf.markData hu
  have hle : (f.markData b).sentBlocks.count true ≤ (f.markData b).sentBlocks.length :=
    count_le_length
  have hn : f.sentBlocksCount + 1 = (f.markData b).sentBlocks.count true := hm.count
  have hs := hm.length_lt
  unfold markSent
  rw [hfs, hfi]
  simp only [Option.bind_eq_bind, Option.bind_some, if_pos hlt,
    checkedI32_of_fits (x := f.sentBlocksCount + 1) (by omega) (by omega)]
  rfl

inductive DataOut (compress : Bytes → Bytes) (i : Nat) (b : Int)
    (s : IncrementalServer) : SendResult → IncrementalServer → Prop where
  | skipped (h : ∀ f, s.files[i]? = some f → 0 ≤ b → b.toNat < f.sentBlocks.length →
      f.sentBlocks[b.toNat]? = some true) : DataOut compress i b s .skipped s
  | failed {f : ServerFile} {s' : IncrementalServer} (hfile : s.files[i]? = some f)
      (htrees : EmitTrees i s s') (hfail : ¬ f.source.Reads)
      (hrooted : ∀ f', s'.files[i]? = some f' → f.UpperReads → f.Rooted → f'.Rooted) :
      DataOut compress i b s .error s'
  | sent {f f₁ : ServerFile} {s₁ : IncrementalServer} {n : Nat} {data : Bytes} (flush : Bool)
      (hb : b = n) (hfile : s.files[i]? = some f) (htrees : EmitTrees i s s₁)
      (hfile₁ : s₁.files[i]? = some f₁) (hunsent : f₁.sentBlocks[n]? = some false)
      (hread : f₁.source.readDataBlock s₁.reads n = some data)
      (hleaf : 0 < f.sentTreeBlocks.length → f₁.sentTreeBlocks[f.leafIndex n]? = some true)
      (hrooted : f.Rooted → f₁.Rooted) :
      DataOut compress i b s .sent (s₁.emitData compress i n f₁ data flush)

theorem EmitTrees.file (h : EmitTrees i s s') (hfi : s.files[i]? = some f) :
    ∃ f', s'.files[i]? = some f' ∧ f'.blank = f.blank ∧ f'.sentBlocks = f.sentBlocks := by
  obtain ⟨f', hfi', hb⟩ := h.grown.file hfi
  have hm := congrArg (·[i]?) h.blocks
  simp only [getElem?_map, hfi, hfi', Option.map_some, Option.some.injEq] at hm
  exact ⟨f', hfi', hb, hm⟩

namespace DataOut

variable {compress : Bytes → Bytes} {b : Int} {result : SendResult}

theorem emits (hi : i < 2 ^ 15) (h : DataOut compress i b s result s') : Emits compress s s' := by
  cases h with
  | skipped => exact .refl
  | failed _ ht => exact ht.emits compress hi
  | sent flush _ _ ht hfile1 hu hr =>
    exact (ht.emits compress hi).tail (.data hi hfile1 hu hr)

/-- Only a block that was sent is counted off. -/
theorem unsent (h : DataOut compress i b s result s') :
    s'.unsent + (if result = .sent then 1 else 0) = s.unsent := by
  cases h with
  | skipped => rfl
  | failed _ ht => exact ht.unsent
  | sent flush _ _ ht hfile1 hu hr =>
    rw [if_pos rfl, emitData_unsent compress _ flush hfile1 hu, ht.unsent]

theorem other (h : DataOut compress i b s result s') {j : Nat} (hj : j ≠ i) :
    s'.files[j]? = s.files[j]? := by
  cases h with
  | skipped => rfl
  | failed _ ht => exact ht.other hj
  | sent _ _ _ ht =>
    rw [emitData_files, getElem?_set_ne hj.symm]
    exact ht.other hj

variable {f' : ServerFile}

variable (h : DataOut compress i b s result s') (hfi : s.files[i]? = some f)
  (hfi' : s'.files[i]? = some f')
include h hfi hfi'

theorem marked (hr : f.source.Reads) (hp : 0 ≤ b) (hlt : b.toNat < f.sentBlocks.length) :
    f'.sentBlocks[b.toNat]? = some true := by
  cases h with
  | skipped h =>
    cases hfi.symm.trans hfi'
    exact h f hfi hp hlt
  | failed hf _ hfl =>
    cases hfi.symm.trans hf
    exact absurd hr hfl
  | sent _ hb _ _ hfile1 hu =>
    subst hb
    rw [emitData_files, List.getElem?_set_self (List.getElem?_eq_some_iff.mp hfile1).1] at hfi'
    cases hfi'
    exact List.getElem?_set_self (List.getElem?_eq_some_iff.mp hu).1

theorem rooted (hu : f.UpperReads) (hr : f.Rooted) : f'.Rooted := by
  cases h with
  | skipped =>
    cases hfi.symm.trans hfi'
    exact hr
  | failed hf _ _ hk =>
    cases hfi.symm.trans hf
    exact hk f' hfi' hu hr
  | sent _ _ hf _ hfile1 _ _ _ hk =>
    cases hfi.symm.trans hf
    rw [emitData_files, List.getElem?_set_self (List.getElem?_eq_some_iff.mp hfile1).1] at hfi'
    cases hfi'
    exact (hk hr).markData _

theorem whole (hr : f.source.Reads) (hw : f.Whole) : f'.Whole := by
  refine ⟨h.rooted hfi hfi' hr.upper hw.rooted, ?_⟩
  cases h with
  | skipped =>
    cases hfi.symm.trans hfi'
    exact hw.covered
  | failed hf _ hfl =>
    cases hfi.symm.trans hf
    exact absurd hr hfl
  | @sent f0 f1 s1 n data flush hb hf htr hfile1 hu hrd hl hkp =>
    cases hfi.symm.trans hf
    obtain ⟨g, hg, hbl, hbk⟩ := htr.file hfi
    cases hfile1.symm.trans hg
    rw [emitData_files, List.getElem?_set_self (List.getElem?_eq_some_iff.mp hfile1).1] at hfi'
    cases hfi'
    have hbl' := (markData_blank n).trans hbl
    intro ht k hk
    rw [treeLength_of_blank hbl'] at ht
    rw [leafIndex_of_blank hbl']
    by_cases heq : n = k
    · subst heq
      exact hl ht
    have ho : f.sentBlocks[k]? = some true := by
      rw [← hbk]
      simpa only [markData, List.getElem?_set_ne heq] using hk
    exact htr.grown.sentTree hfi hfile1 (hw.covered ht k ho)

end DataOut

/-- A data block in range is sent behind its tree blocks, or skipped. -/
theorem sendDataBlock_spec (ho : s.FilesOk) (hi : i < 2 ^ 15) {b : Int} (hb : b < 2 ^ 31) (flush : Bool) :
    ∃ result s', s.sendDataBlock compress i b flush = some (result, s')
      ∧ DataOut compress i b s result s' := by
  have hidx : asUsize (i : Int) = i := asUsize_natCast (by omega)
  unfold sendDataBlock
  rw [hidx]
  cases hfi : s.files[i]? with
  | none =>
    refine ⟨.skipped, s, rfl, .skipped ?_⟩
    intro f hf
    rw [hfi] at hf
    cases hf
  | some f =>
    by_cases hs : b < 0 ∨ f.sentBlocks.length ≤ asUsize b
    · refine ⟨.skipped, s, if_pos hs, .skipped ?_⟩
      intro f' hf' hp hlt
      cases hfi.symm.trans hf'
      have hc := asUsize_of_nonneg hp (by omega)
      omega
    obtain ⟨n, rfl⟩ := Int.eq_ofNat_of_zero_le (Int.not_lt.mp (not_or.mp hs).1)
    have hc : asUsize (n : Int) = n := asUsize_natCast (by omega)
    rw [hc] at hs
    have hlt : n < f.sentBlocks.length := by omega
    simp only [hc, if_neg hs]
    cases hfl : f.sentBlocks[n]? with
    | none => exact absurd (getElem?_eq_none_iff.mp hfl) (by omega)
    | some sent =>
      cases sent with
      | true =>
        refine ⟨.skipped, s, rfl, .skipped ?_⟩
        intro f' hf' _ _
        cases hfi.symm.trans hf'
        exact hfl
      | false =>
        obtain ⟨ok, s1, ht, he, hrs, hl, hr⟩ :=
          sendTreeBlocksForDataBlock_spec ho hi hfi hlt
        obtain ⟨f1, hfile1, hbl, hbk⟩ := he.file hfi
        have hsr := source_of_blank hbl
        simp only [Option.bind_eq_bind, Option.bind_some, Bool.false_eq_true, if_false, ht]
        cases ok with
        | false =>
          refine ⟨.error, s1, rfl, .failed hfi he ?_ ?_⟩
          · intro ha
            cases hrs ha
          · intro f' hf' hup
            exact hr f' hf' (.inr hup)
        | true =>
          simp only [Bool.not_true, Bool.false_eq_true, if_false, hfile1, Option.bind_some]
          cases hrd : f1.source.readDataBlock s1.reads n with
          | none =>
            refine ⟨.error, s1.readOne, rfl, .failed hfi (he.tail (.miss s1)) ?_ ?_⟩
            · intro ha
              have hsm := (ha s1.reads n).1
              rw [← hsr, hrd] at hsm
              cases hsm
            · intro f' hf' _
              exact hr f' hf' (.inl rfl)
          | some data =>
            have hu : f1.sentBlocks[n]? = some false := by rw [hbk, hfl]
            have hf1 := he.filesOk ho f1 (mem_of_getElem? hfile1)
            have hm := markSent_count (packBlock compress data).1 hf1
              (show s1.readOne.files[i]? = some f1 from hfile1) hu
            simp only [hm, Option.bind_some]
            exact ⟨.sent, s1.emitData compress i n f1 data flush, rfl,
              .sent flush rfl hfi he hfile1 hu hrd (hl f1 hfile1 rfl) (hr f1 hfile1 (.inl rfl))⟩

/-- A data block is sent, with its tree, or the queue changes. -/
inductive Work (compress : Bytes → Bytes) :
    IncrementalServer → IncrementalServer → Prop where
  | send {s s' : IncrementalServer} {i : Nat} {b : Int} {result : SendResult} (hi : i < 2 ^ 15)
      (h : DataOut compress i b s result s') : Work compress s s'
  | requeue (s : IncrementalServer) (q : List PrefetchState) :
      Work compress s { s with prefetches := q }

def Works (compress : Bytes → Bytes) : IncrementalServer → IncrementalServer → Prop :=
  Relation.ReflTransGen (Work compress)

variable {compress : Bytes → Bytes}

theorem Work.grown (h : Work compress s s') : Grown s s' := by
  cases h with
  | send hi h => exact (h.emits hi).grown
  | requeue q => exact .requeue s q

theorem Work.filesOk (h : Work compress s s') (ho : s.FilesOk) : s'.FilesOk := by
  cases h with
  | send hi h => exact (h.emits hi).filesOk ho
  | requeue q => exact ho

theorem Works.grown (h : Works compress s s') : Grown s s' := Grown.of_chain Work.grown h

theorem Works.filesOk (h : Works compress s s') (ho : s.FilesOk) : s'.FilesOk := by
  induction h with
  | refl => exact ho
  | tail _ hs ih => exact hs.filesOk ih

end IncrementalServer

end AdbFastboot
