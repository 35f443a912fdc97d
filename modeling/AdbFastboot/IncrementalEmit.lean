import AdbFastboot.IncrementalFile
import Mathlib.Logic.Relation

namespace AdbFastboot

open IncrementalServer

theorem map_set_same {α β : Type} {g : α → β} {l : List α} {i : Nat} {a a' : α}
    (h : l[i]? = some a) (hg : g a' = g a) : (l.set i a').map g = l.map g := by
  rw [List.map_set, hg]
  apply List.ext_getElem?
  intro j
  rw [List.getElem?_set]
  split
  next hj =>
    subst hj
    rw [List.length_map, List.getElem?_map, h, if_pos (List.getElem?_eq_some_iff.mp h).1]
    rfl
  next => rfl

theorem set_true_of_true {l : List Bool} (i : Nat) {j : Nat} (h : l[j]? = some true) :
    (l.set i true)[j]? = some true := by
  rw [List.getElem?_set]
  split
  next hj =>
    subst hj
    rw [if_pos (List.getElem?_eq_some_iff.mp h).1]
  next => exact h

namespace IncrementalServer

section Emission

variable (s : IncrementalServer)

def unwritten : IncrementalServer :=
  { s with pending := [], output := [], compressedBlocks := 0, uncompressedBlocks := 0,
           sentSize := 0, reads := 0, emitted := [] }

theorem flush_unwritten : s.flush.unwritten = s.unwritten := by
  unfold flush
  split <;> rfl

theorem send_unwritten (data : Bytes) (flush : Bool) :
    (s.send data flush).unwritten = s.unwritten := by
  unfold send
  dsimp only
  split
  next => exact flush_unwritten _
  next => rfl

theorem emitBlock_unwritten (fileId blockIdx : Int) (blockType : BlockType)
    (compressionType : CompressionType) (payload : Bytes) (flush : Bool) :
    (s.emitBlock fileId blockIdx blockType compressionType payload flush).unwritten
      = s.unwritten := send_unwritten (s.record _) _ flush

theorem countPacked_unwritten (compressionType : CompressionType) :
    (s.countPacked compressionType).unwritten = s.unwritten := by
  cases compressionType <;> rfl

def emitTree (i index : Nat) (f : ServerFile) (data : Bytes) : IncrementalServer :=
  (s.readOne.emitBlock i (asI32 index) .hash .none data false).setFile i (f.markTree index)

def emitData (compress : Bytes → Bytes) (i b : Nat) (f : ServerFile)
    (data : Bytes) (flush : Bool) : IncrementalServer :=
  let packed := packBlock compress data
  ((s.readOne.countPacked packed.1).setFile i (f.markData b)).emitBlock i b .data packed.1
    packed.2 flush

theorem emitTree_unwritten (i index : Nat) (f : ServerFile) (data : Bytes) :
    (s.emitTree i index f data).unwritten = s.unwritten.setFile i (f.markTree index) :=
  congrArg (setFile · i _) (emitBlock_unwritten s.readOne _ _ _ _ _ false)

/-- Emitting a data block changes nothing but its mark and the output. -/
theorem emitData_unwritten (compress : Bytes → Bytes) (i b : Nat) (f : ServerFile)
    (data : Bytes) (flush : Bool) :
    (s.emitData compress i b f data flush).unwritten = s.unwritten.setFile i (f.markData b) :=
  (emitBlock_unwritten _ _ _ _ _ _ flush).trans 
    (congrArg (setFile · i _) (countPacked_unwritten s.readOne _))

end Emission

/-- A read fails, or a block of the tree of file `i` goes out for the first time. Above the lowest
level, the root is the first. -/
inductive EmitTree (i : Nat) : IncrementalServer → IncrementalServer → Prop where
  | miss (s : IncrementalServer) : EmitTree i s s.readOne
  | emit {s : IncrementalServer} {f : ServerFile} {index : Nat} {data : Bytes}
      (hfile : s.files[i]? = some f) (hunsent : f.sentTreeBlocks[index]? = some false)
      (hread : f.source.readTreeBlock s.reads (asI32 index) = some data)
      (hroot : 0 < index → index < f.leafOffset → f.sentTreeBlocks[0]? = some true) :
      EmitTree i s (s.emitTree i index f data)

inductive Emit (compress : Bytes → Bytes) :
    IncrementalServer → IncrementalServer → Prop where
  | tree {s s' : IncrementalServer} {i : Nat} (hi : i < 2 ^ 15) (h : EmitTree i s s') :
      Emit compress s s'
  | data {s : IncrementalServer} {i b : Nat} {f : ServerFile} {data : Bytes} {flush : Bool}
      (hi : i < 2 ^ 15) (hfile : s.files[i]? = some f) (hunsent : f.sentBlocks[b]? = some false)
      (hread : f.source.readDataBlock s.reads b = some data) :
      Emit compress s (s.emitData compress i b f data flush)

/-- What stays and what grows while blocks go out and the queue changes. -/
structure Grown (s s' : IncrementalServer) : Prop where
  rest : s'.unwritten = { s.unwritten with files := s'.files, prefetches := s'.prefetches }
  blank : s'.files.map ServerFile.blank = s.files.map ServerFile.blank
  sent : ∀ {i : Nat} {f f' : ServerFile}, s.files[i]? = some f → s'.files[i]? = some f' →
    ∀ {b : Nat}, f.sentBlocks[b]? = some true → f'.sentBlocks[b]? = some true
  sentTree : ∀ {i : Nat} {f f' : ServerFile}, s.files[i]? = some f → s'.files[i]? = some f' →
    ∀ {k : Nat}, f.sentTreeBlocks[k]? = some true → f'.sentTreeBlocks[k]? = some true

namespace Grown

variable {s s' s'' : IncrementalServer}

theorem refl (s : IncrementalServer) : Grown s s where
  rest := rfl
  blank := rfl
  sent h h' := by
    cases h.symm.trans h'
    exact id
  sentTree h h' := by
    cases h.symm.trans h'
    exact id

/-- A file keeps all but its marks while the server works. -/
theorem file (h : Grown s s') {i : Nat} {f : ServerFile} (hf : s.files[i]? = some f) :
    ∃ f', s'.files[i]? = some f' ∧ f'.blank = f.blank := by
  have hm := congrArg (·[i]?) h.blank
  simp only [List.getElem?_map, hf, Option.map_some, Option.map_eq_some_iff] at hm
  exact hm

theorem file_back (h : Grown s s') {i : Nat} {f' : ServerFile} (hf' : s'.files[i]? = some f') :
    ∃ f, s.files[i]? = some f ∧ f'.blank = f.blank := by
  have hm := congrArg (·[i]?) h.blank
  simp only [List.getElem?_map, hf', Option.map_some] at hm
  obtain ⟨f, hf, hb⟩ := Option.map_eq_some_iff.mp hm.symm
  exact ⟨f, hf, hb.symm⟩

theorem trans (h : Grown s s') (h' : Grown s' s'') : Grown s s'' where
  rest := by rw [h'.rest, h.rest]
  blank := h'.blank.trans h.blank
  sent hf hf'' := by
    obtain ⟨f', hf', -⟩ := h.file hf
    intro b hb
    exact h'.sent hf' hf'' (h.sent hf hf' hb)
  sentTree hf hf'' := by
    obtain ⟨f', hf', -⟩ := h.file hf
    intro k hk
    exact h'.sentTree hf' hf'' (h.sentTree hf hf' hk)

/-- Marking a block of one file is progress of the server. -/
theorem of_setFile {i : Nat} {f f' : ServerFile} (hr : s'.unwritten = s.unwritten.setFile i f')
    (hf : s.files[i]? = some f) (hb : f'.blank = f.blank)
    (hs : ∀ {b : Nat}, f.sentBlocks[b]? = some true → f'.sentBlocks[b]? = some true)
    (ht : ∀ {k : Nat}, f.sentTreeBlocks[k]? = some true → f'.sentTreeBlocks[k]? = some true) :
    Grown s s' := by
  have hfs : s'.files = s.files.set i f' := congrArg files hr
  have hfg {P : ServerFile → Prop} (hP : P f → P f') {j : Nat} {g g' : ServerFile}
      (hg : s.files[j]? = some g) (hg' : s'.files[j]? = some g') : P g → P g' := by
    rw [hfs, List.getElem?_set] at hg'
    split at hg'
    next hj =>
      subst hj
      cases hf.symm.trans hg
      rw [if_pos (List.getElem?_eq_some_iff.mp hf).1] at hg'
      cases hg'
      exact hP
    next =>
      cases hg.symm.trans hg'
      exact id
  have hq : s'.prefetches = s.prefetches := by
    change s'.unwritten.prefetches = _
    rw [hr]
    rfl
  constructor
  · rw [hr, hfs, hq]
    rfl
  · rw [hfs]
    exact map_set_same hf hb
  · intro j g g' hg hg' b
    exact hfg (P := fun f => f.sentBlocks[b]? = some true) hs hg hg'
  · intro j g g' hg hg' k
    exact hfg (P := fun f => f.sentTreeBlocks[k]? = some true) ht hg hg'

theorem of_unwritten (h : s'.unwritten = s.unwritten) : Grown s s' := by
  have hf : s'.files = s.files := by
    change s'.unwritten.files = _
    rw [h]
    rfl
  have hq : s'.prefetches = s.prefetches := by
    change s'.unwritten.prefetches = _
    rw [h]
    rfl
  constructor
  · rw [h, hf, hq]
    rfl
  · rw [hf]
  · rw [hf]
    exact (refl s).sent
  · rw [hf]
    exact (refl s).sentTree

theorem requeue (s : IncrementalServer) (q : List PrefetchState) : Grown s { s with prefetches := q } where
  rest := rfl
  blank := rfl
  sent h h' := (refl s).sent h h'
  sentTree h h' := (refl s).sentTree h h'

end Grown

variable {s s' : IncrementalServer} {compress : Bytes → Bytes}

theorem EmitTree.grown {i : Nat} (h : EmitTree i s s') : Grown s s' := by
  cases h with
  | miss => exact .of_unwritten rfl
  | emit hf hu hr hrt =>
    exact Grown.of_setFile (emitTree_unwritten _ _ _ _ _) hf (ServerFile.markTree_blank _) id
      (set_true_of_true _)

theorem Emit.grown (h : Emit compress s s') : Grown s s' := by
  cases h with
  | tree hi h => exact h.grown
  | data hi hf hu hr =>
    exact Grown.of_setFile (emitData_unwritten _ _ _ _ _ _ _) hf (ServerFile.markData_blank _)
      (set_true_of_true _) id

/-- What each of its parts grows, a chain grows. -/
theorem Grown.of_chain {r : IncrementalServer → IncrementalServer → Prop}
    (hr : ∀ {s s'}, r s s' → Grown s s') (h : Relation.ReflTransGen r s s') : Grown s s' := by
  induction h with
  | refl => exact Grown.refl _
  | tail _ hs ih => exact ih.trans (hr hs)

def FilesOk (s : IncrementalServer) : Prop := ∀ f ∈ s.files, f.Ok

def unsent (s : IncrementalServer) : Nat := (s.files.map fun f => f.sentBlocks.count false).sum

theorem FilesOk.setFile {i : Nat} {f : ServerFile} (h : s.FilesOk)
    (hr : s'.unwritten = s.unwritten.setFile i f) (hf : f.Ok) : s'.FilesOk := by
  have hfs : s'.files = s.files.set i f := congrArg files hr
  intro g hg
  rw [hfs] at hg
  obtain hg | rfl := List.mem_or_eq_of_mem_set hg
  · exact h g hg
  · exact hf

theorem EmitTree.filesOk {i : Nat} (h : EmitTree i s s') (ho : s.FilesOk) : s'.FilesOk := by
  cases h with
  | miss => exact ho
  | @emit f index data hfl hu hrd hr =>
    have hf := ho f (List.mem_of_getElem? hfl)
    exact ho.setFile (emitTree_unwritten s _ _ _ _) (hf.markTree hr)

/-- Emitting a block keeps the files well formed. -/
theorem Emit.filesOk (h : Emit compress s s') (ho : s.FilesOk) : s'.FilesOk := by
  cases h with
  | tree hi h => exact h.filesOk ho
  | @data i b f data flush hi hfl hu hr =>
    have hf := ho f (List.mem_of_getElem? hfl)
    exact ho.setFile (emitData_unwritten s compress _ _ _ _ _) (hf.markData hu)

theorem Emit.prefetches (h : Emit compress s s') : s'.prefetches = s.prefetches := by
  cases h with
  | @tree s' i hi h =>
    cases h with
    | miss => rfl
    | @emit f index data hf hu hr hrt =>
      have hq := congrArg prefetches (emitTree_unwritten s i index f data)
      exact hq
  | @data i b f data flush hi hf hu hr =>
    have hq :=
      congrArg prefetches (emitData_unwritten s compress i b f data flush)
    exact hq

def Emits (compress : Bytes → Bytes) : IncrementalServer → IncrementalServer → Prop :=
  Relation.ReflTransGen (Emit compress)

namespace Emits

variable {compress : Bytes → Bytes} {s s' : IncrementalServer}

variable (h : Emits compress s s')
include h

theorem grown : Grown s s' := Grown.of_chain Emit.grown h

theorem filesOk (ho : s.FilesOk) : s'.FilesOk := by
  induction h with
  | refl => exact ho
  | tail _ hs ih => exact hs.filesOk ih

theorem prefetches : s'.prefetches = s.prefetches := by
  induction h with
  | refl => rfl
  | tail _ hs ih => exact hs.prefetches.trans ih

end Emits

end IncrementalServer

end AdbFastboot
