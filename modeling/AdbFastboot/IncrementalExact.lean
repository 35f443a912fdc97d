import AdbFastboot.IncrementalOrder
import AdbFastboot.IncrementalDecode
import Mathlib.Data.List.Nodup

namespace AdbFastboot

open List ServerFile Response

def Response.key (r : Response) : Int × BlockType × Int :=
  (r.header.fileId, r.header.blockType, r.header.blockIdx)

def Response.done : Response := ⟨ResponseHeader.doneMarker, []⟩

def Response.content (decompress : Bytes → Option Bytes) (r : Response) : Option Bytes :=
  match r.header.compressionType with
  | .none => some r.payload
  | .lz4 => decompress r.payload

theorem nodup_map_concat {α β : Type} {g : α → β} {l : List α} {x : α} (h : (l.map g).Nodup)
    (hx : g x ∉ l.map g) : ((l ++ [x]).map g).Nodup := by
  rw [map_append, nodup_append]
  refine ⟨h, nodup_singleton _, ?_⟩
  intro y hy z hz heq
  rw [heq, mem_singleton.mp hz] at hy
  exact hx hy

namespace IncrementalServer

variable {compress : Bytes → Bytes} {s s' : IncrementalServer} {i : Nat} {f : ServerFile}

/-- A response is the one for a marked block of a file, with what a read of that block gave. -/
inductive FromFile (compress : Bytes → Bytes) (s : IncrementalServer) : Response → Prop where
  | data {i b n : Nat} {f : ServerFile} {data : Bytes} (hi : i < 2 ^ 15)
      (hfile : s.files[i]? = some f) (hsent : f.sentBlocks[b]? = some true)
      (hread : f.source.readDataBlock n b = some data) :
      FromFile compress s (dataResponse compress i b data)
  | tree {i k n : Nat} {f : ServerFile} {data : Bytes} (hi : i < 2 ^ 15)
      (hfile : s.files[i]? = some f) (hsent : f.sentTreeBlocks[k]? = some true)
      (hread : f.source.readTreeBlock n (asI32 k) = some data) :
      FromFile compress s (treeResponse i k data)

def DataRecorded (s : IncrementalServer) : Prop := ∀ i f (b : Nat), s.files[i]? = some f →
  f.sentBlocks[b]? = some true → ∃ r ∈ s.emitted, r.IsBlock i .data b

/-- Before the marker stand all data blocks of all files. -/
def DoneLast (s : IncrementalServer) : Prop := ∀ front back,
  s.emitted = front ++ done :: back → ∀ i f (b : Nat), s.files[i]? = some f →
    b < f.sentBlocks.length → ∃ r ∈ front, r.IsBlock i .data b

structure Exact (compress : Bytes → Bytes) (s : IncrementalServer) : Prop where
  small : ∀ f ∈ s.files, f.sentTreeBlocks.length ≤ 2 ^ 31
  from_file : ∀ r ∈ s.emitted, r = .done ∨ FromFile compress s r
  tree : s.TreeRecorded
  data : s.DataRecorded
  once : (s.emitted.map key).Nodup
  done : s.doneSent = true ∨ .done ∉ s.emitted
  last : s.DoneLast

variable {r : Response}

theorem FromFile.congr (h : FromFile compress s r) (hf : s'.files = s.files) :
    FromFile compress s' r := by
  cases h with
  | data hi hfile hs hr => exact .data hi (hf ▸ hfile) hs hr
  | tree hi hfile hs hr => exact .tree hi (hf ▸ hfile) hs hr

/-- A response stays one of its file while the server works. -/
theorem FromFile.grown (h : FromFile compress s r) (hg : Grown s s') : FromFile compress s' r := by
  cases h with
  | data hi hfile hs hr =>
    obtain ⟨f', hfile', hb⟩ := hg.file hfile
    rw [← source_of_blank hb] at hr
    exact .data hi hfile' (hg.sent hfile hfile' hs) hr
  | tree hi hfile hs hr =>
    obtain ⟨f', hfile', hb⟩ := hg.file hfile
    rw [← source_of_blank hb] at hr
    exact .tree hi hfile' (hg.sentTree hfile hfile' hs) hr

theorem FromFile.ne_done (h : FromFile compress s r) : r ≠ .done := by
  intro hr
  have hi := congrArg (fun r => r.header.fileId) hr
  cases h with
  | @data i b n f data | @tree i k n f data =>
    have hc : (i : Int) = -1 := hi
    omega

theorem dataResponse_key (b : Nat) (data : Bytes) :
    (dataResponse compress i b data).key = ((i : Int), .data, (b : Int)) := rfl

theorem treeResponse_key (k : Nat) (data : Bytes) :
    (treeResponse i k data).key = ((i : Int), .hash, asI32 k) := by
  simp [key, treeResponse]

section

variable (h : s.Exact compress) (hfile : s.files[i]? = some f)
include h hfile

/-- A data block that is not marked has not been emitted. -/
theorem Exact.fresh_data {b : Nat} (hu : f.sentBlocks[b]? = some false) :
    ((i : Int), BlockType.data, (b : Int)) ∉ s.emitted.map key := by
  intro hm
  obtain ⟨r, hr, hk⟩ := mem_map.mp hm
  obtain rfl | hf := h.from_file r hr
  · have hid : (-1 : Int) = i := congrArg Prod.fst hk
    omega
  cases hf with
  | @data j b' n g data hi hg hs hrd =>
    obtain ⟨hj, hb⟩ := Prod.mk.inj hk
    cases Int.natCast_inj.mp hj
    cases Int.natCast_inj.mp (Prod.mk.inj hb).2
    cases hfile.symm.trans hg
    rw [hu] at hs
    cases hs
  | tree =>
    cases (Prod.mk.inj (Prod.mk.inj hk).2).1

theorem Exact.fresh_tree {k : Nat} (hu : f.sentTreeBlocks[k]? = some false) :
    ((i : Int), BlockType.hash, asI32 k) ∉ s.emitted.map key := by
  intro hm
  obtain ⟨r, hr, hkey⟩ := mem_map.mp hm
  obtain rfl | hf := h.from_file r hr
  · have hid : (-1 : Int) = i := congrArg Prod.fst hkey
    omega
  cases hf with
  | data =>
    cases (Prod.mk.inj (Prod.mk.inj hkey).2).1
  | @tree j k' n g data hi hg hs hrd =>
    rw [treeResponse_key] at hkey
    obtain ⟨hj, hk⟩ := Prod.mk.inj hkey
    cases Int.natCast_inj.mp hj
    cases hfile.symm.trans hg
    have hsm := h.small f (mem_of_getElem? hfile)
    have hlt := (List.getElem?_eq_some_iff.mp hu).1
    have hlt' := (List.getElem?_eq_some_iff.mp hs).1
    have hix := (Prod.mk.inj hk).2
    rw [asI32_of_fits (by omega) (by omega), asI32_of_fits (by omega) (by omega)] at hix
    cases Int.natCast_inj.mp hix
    rw [hu] at hs
    cases hs

end

theorem Exact.congr (h : s.Exact compress) (hf : s'.files = s.files)
    (he : s'.emitted = s.emitted) (hd : s'.doneSent = s.doneSent) : s'.Exact compress where
  small := by
    rw [hf]
    exact h.small
  from_file := by
    rw [he]
    exact fun r hr => (h.from_file r hr).imp_right fun hfr => hfr.congr hf
  tree := h.tree.congr hf he
  data := by
    unfold DataRecorded
    rw [hf, he]
    exact h.data
  once := by
    rw [he]
    exact h.once
  done := by
    rw [he, hd]
    exact h.done
  last := by
    unfold DoneLast
    rw [hf, he]
    exact h.last

theorem Grown.doneSent (h : Grown s s') : s'.doneSent = s.doneSent := by
  have hr := congrArg IncrementalServer.doneSent h.rest
  exact hr

/-- A new response with its mark keeps the record exact. -/
theorem Exact.append (h : s.Exact compress) (hg : Grown s s')
    (he : s'.emitted = s.emitted ++ [r]) (hfm : FromFile compress s' r)
    (hfr : r.key ∉ s.emitted.map key) (ht : s'.TreeRecorded)
    (hd : s'.DataRecorded) : s'.Exact compress where
  small := by
    intro f' hf'
    obtain ⟨i, hfile'⟩ := mem_iff_getElem?.mp hf'
    obtain ⟨f, hfile, hbl⟩ := hg.file_back hfile'
    rw [treeLength_of_blank hbl]
    exact h.small f (mem_of_getElem? hfile)
  from_file := by
    rw [he]
    intro r' hr'
    obtain ho | hn := mem_append.mp hr'
    · exact (h.from_file r' ho).imp_right fun hr => hr.grown hg
    · rw [mem_singleton.mp hn]
      exact .inr hfm
  tree := ht
  data := hd
  once := by
    rw [he]
    exact nodup_map_concat h.once hfr
  done := by
    rw [hg.doneSent, he]
    refine h.done.imp_right ?_
    intro hnot hm
    obtain ho | hn := mem_append.mp hm
    · exact hnot ho
    · exact hfm.ne_done (mem_singleton.mp hn).symm
  last := by
    intro front back hs i f' b hfile' hb
    rw [he] at hs
    obtain ⟨back', ho⟩ | ⟨front', -, hn⟩ := append_split hs
    · obtain ⟨f, hfile, hbl⟩ := hg.file_back hfile'
      rw [length_of_blank hbl] at hb
      exact h.last front back' ho i f b hfile hb
    have hm : Response.done ∈ [r] := by
      rw [hn]
      exact mem_append_right _ mem_cons_self
    exact absurd (mem_singleton.mp hm).symm hfm.ne_done

theorem EmitTree.exact (hi : i < 2 ^ 15) (h : EmitTree i s s') (hs : s.Exact compress) :
    s'.Exact compress := by
  have hg := h.grown
  have ht := h.treeRecorded hs.tree
  cases h with
  | miss => exact hs.congr rfl rfl rfl
  | @emit f index data hfile hu hrd hrt =>
    have hlt := (List.getElem?_eq_some_iff.mp hu).1
    have hfile' : (s.emitTree i index f data).files[i]? = some (f.markTree index) := by
      rw [emitTree_files, List.getElem?_set_self (List.getElem?_eq_some_iff.mp hfile).1]
    refine hs.append hg (emitTree_emitted index data)
      (.tree hi hfile' (markTree_self hlt) hrd) ?_ ht ?_
    · rw [treeResponse_key]
      exact hs.fresh_tree hfile hu
    · intro j g b hg' hb
      rw [emitTree_files] at hg'
      rw [emitTree_emitted]
      obtain ⟨r, hr, hbk⟩ : ∃ r ∈ s.emitted, r.IsBlock j .data b := by
        obtain ⟨rfl, rfl⟩ | ⟨-, hg'⟩ := getElem?_set_cases hg'
        · exact hs.data j f b hfile hb
        · exact hs.data j g b hg' hb
      exact ⟨r, mem_append_left _ hr, hbk⟩

theorem dataResponse_isBlock (b : Nat) (data : Bytes) :
    (dataResponse compress i b data).IsBlock i .data b := by
  simp [Response.IsBlock, dataResponse]

/-- Emitting a block that was not marked keeps the record exact. -/
theorem Emit.exact (h : Emit compress s s') (hs : s.Exact compress) : s'.Exact compress := by
  have hg := h.grown
  cases h with
  | tree hi h => exact h.exact hi hs
  | @data i b f data flush hi hfile hu hrd =>
    have hlt := (List.getElem?_eq_some_iff.mp hu).1
    have hfile' : (s.emitData compress i b f data flush).files[i]? = some (f.markData b) := by
      rw [emitData_files, List.getElem?_set_self (List.getElem?_eq_some_iff.mp hfile).1]
    refine hs.append hg (emitData_emitted b data flush)
      (.data hi hfile' (List.getElem?_set_self hlt) hrd) ?_ (emitData_treeRecorded hfile hs.tree) ?_
    · rw [dataResponse_key]
      exact hs.fresh_data hfile hu
    · intro j g b' hg' hb'
      rw [emitData_files] at hg'
      rw [emitData_emitted]
      obtain ⟨rfl, rfl⟩ | ⟨-, hg'⟩ := getElem?_set_cases hg'
      · by_cases hsm : b = b'
        · subst hsm
          exact ⟨dataResponse compress j b data, mem_append_right _ mem_cons_self,
            dataResponse_isBlock b data⟩
        have ho : f.sentBlocks[b']? = some true := by
          simpa only [markData, List.getElem?_set_ne hsm] using hb'
        obtain ⟨r, hr, hbk⟩ := hs.data j f b' hfile ho
        exact ⟨r, mem_append_left _ hr, hbk⟩
      · obtain ⟨r, hr, hbk⟩ := hs.data j g b' hg' hb'
        exact ⟨r, mem_append_left _ hr, hbk⟩

theorem Emits.exact (h : Emits compress s s') (hs : s.Exact compress) : s'.Exact compress := by
  induction h with
  | refl => exact hs
  | tail _ hst ih => exact hst.exact ih

/-- When all files count as sent, every block is marked. -/
theorem allFilesSent_marked (ho : s.FilesOk) (ha : s.allFilesSent = true)
    (hfile : s.files[i]? = some f) {b : Nat} (hb : b < f.sentBlocks.length) :
    f.sentBlocks[b]? = some true := by
  have hm := mem_of_getElem? hfile
  have hf := ho f hm
  have hc := of_decide_eq_true (all_eq_true.mp ha f hm)
  have hl := hf.length_lt
  rw [asI32_of_fits (by omega) (by omega), hf.count] at hc
  have he := count_eq_length.mp (Int.natCast_inj.mp hc)
  rw [getElem?_eq_getElem hb, ← he _ (getElem_mem hb)]

theorem Exact.sendDone (hok : s.FilesOk) (h : s.Exact compress) (hft : s.doneSent = false)
    (ha : s.allFilesSent = true) : ({ s.sendDone with doneSent := true }).Exact compress := by
  have hn : Response.done ∉ s.emitted := by
    obtain hs | hn := h.done
    · rw [hft] at hs
      cases hs
    · exact hn
  have hf := sendDone_files s
  have he := sendDone_emitted s
  refine ⟨?_, ?_, ?_, ?_, ?_, .inl rfl, ?_⟩
  · rw [hf]
    exact h.small
  · rw [he]
    intro r hr
    obtain ho | hnew := mem_append.mp hr
    · exact (h.from_file r ho).imp_right fun hfr => hfr.congr hf
    · exact .inl (mem_singleton.mp hnew)
  · intro i f k hfile hk
    rw [hf] at hfile
    rw [he]
    obtain ⟨r, hr, hbk⟩ := h.tree i f k hfile hk
    exact ⟨r, mem_append_left _ hr, hbk⟩
  · intro i f b hfile hb
    rw [hf] at hfile
    rw [he]
    obtain ⟨r, hr, hbk⟩ := h.data i f b hfile hb
    exact ⟨r, mem_append_left _ hr, hbk⟩
  · rw [he]
    refine nodup_map_concat h.once ?_
    intro hm
    obtain ⟨r, hr, hrk⟩ := mem_map.mp hm
    obtain rfl | hfr := h.from_file r hr
    · exact hn hr
    cases hfr with
    | @data i | @tree i =>
      have hi : (i : Int) = -1 := congrArg Prod.fst hrk
      omega
  · intro front back hsp i f b hfile hb
    rw [hf] at hfile
    rw [he] at hsp
    have hmr := allFilesSent_marked hok ha hfile hb
    obtain ⟨r, hr, hbk⟩ := h.data i f b hfile hmr
    obtain ⟨back', ho⟩ | ⟨front', rfl, hnew⟩ := append_split hsp
    · exact absurd (by rw [ho]; exact mem_append_right _ mem_cons_self) hn
    · exact ⟨r, mem_append_left _ hr, hbk⟩

theorem Act.filesOk (h : Act compress s s') (ho : s.FilesOk) : s'.FilesOk := by
  cases h with
  | send hi h => exact (h.emits hi).filesOk ho
  | flush =>
    unfold FilesOk
    rw [flush_files]
    exact ho
  | done =>
    dsimp only
    rw [sendDone_files]
    exact ho
  | keep => exact ho

/-- Whatever the server does, no block is emitted twice. -/
theorem Act.exact (h : Act compress s s') (ho : s.FilesOk) (hs : s.Exact compress) :
    s'.Exact compress := by
  cases h with
  | send hi h => exact (h.emits hi).exact hs
  | flush =>
    have hd := congrArg IncrementalServer.doneSent (flush_unwritten s)
    exact hs.congr (flush_files s) (flush_emitted s) hd
  | done hf ha => exact hs.sendDone ho hf ha
  | keep => exact hs.congr rfl rfl rfl

theorem Act.blank (h : Act compress s s') : s'.files.map blank = s.files.map blank := by
  cases h with
  | send hi h => exact (h.emits hi).grown.blank
  | flush => rw [flush_files]
  | done =>
    rw [sendDone_files]
  | keep => rfl

theorem Act.whole (h : Act compress s s') (hr : s.AllReads) (hs : ∀ f ∈ s.files, f.Whole) :
    ∀ f ∈ s'.files, f.Whole := by
  cases h with
  | @send _ i b result hi h =>
    intro f' hf'
    obtain ⟨j, hfile'⟩ := mem_iff_getElem?.mp hf'
    obtain ⟨f, hfile, -⟩ := (h.emits hi).grown.file_back hfile'
    have hm := mem_of_getElem? hfile
    by_cases hj : j = i
    · subst hj
      exact h.whole hfile hfile' (hr f hm) (hs f hm)
    · rw [h.other hj] at hfile'
      exact hs f' (mem_of_getElem? hfile')
  | flush =>
    rw [flush_files]
    exact hs
  | done =>
    rw [sendDone_files]
    exact hs
  | keep => exact hs

end IncrementalServer

end AdbFastboot
