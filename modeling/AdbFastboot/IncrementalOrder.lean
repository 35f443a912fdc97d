import AdbFastboot.IncrementalStream

namespace AdbFastboot

open ServerFile ResponseHeader List

def Response.IsBlock (r : Response) (i : Nat) (blockType : BlockType) (index : Int) : Prop :=
  r.header.fileId = i ∧ r.header.blockType = blockType ∧ r.header.blockIdx = index

theorem append_split {α : Type} {xs ys front back : List α} {x : α} (h : xs ++ ys = front ++ x :: back) :
    (∃ back', xs = front ++ x :: back') ∨ ∃ front', front = xs ++ front' ∧ ys = front' ++ x :: back := by
  obtain ⟨m, hf, hy⟩ | ⟨m, hx, hr⟩ := append_eq_append_iff.mp h
  · exact .inr ⟨m, hf, hy⟩
  cases m with
  | nil =>
    refine .inr ⟨[], ?_, hr.symm⟩
    rw [hx]
    simp
  | cons y m =>
    cases hr
    exact .inl ⟨m, hx⟩

namespace IncrementalServer

variable {compress : Bytes → Bytes} {s s' : IncrementalServer} {i : Nat} {f : ServerFile}

theorem flush_emitted (s : IncrementalServer) : s.flush.emitted = s.emitted := by
  unfold flush
  split <;> rfl

theorem send_emitted (s : IncrementalServer) (data : Bytes) (flush : Bool) :
    (s.send data flush).emitted = s.emitted := by
  unfold send
  dsimp only
  split
  next => exact flush_emitted _
  next => rfl

def treeResponse (i index : Nat) (data : Bytes) : Response :=
  ⟨⟨i, .hash, .none, asI32 index, asI16 data.length⟩, data⟩

theorem treeResponse_isBlock (i index : Nat) (data : Bytes) :
    (treeResponse i index data).IsBlock i .hash (asI32 index) := by
  simp [Response.IsBlock, treeResponse]

def dataResponse (compress : Bytes → Bytes) (i b : Nat) (data : Bytes) : Response :=
  let packed := packBlock compress data
  ⟨⟨i, .data, packed.1, b, asI16 packed.2.length⟩, packed.2⟩

theorem emitTree_emitted (index : Nat) (data : Bytes) :
    (s.emitTree i index f data).emitted = s.emitted ++ [treeResponse i index data] :=
  send_emitted (s.readOne.record _) _ false

theorem emitData_emitted (b : Nat) (data : Bytes) (flush : Bool) :
    (s.emitData compress i b f data flush).emitted = s.emitted ++ [dataResponse compress i b data] := by
  have hs : (s.readOne.countPacked (packBlock compress data).1).emitted = s.emitted := by
    cases (packBlock compress data).1 <;> rfl
  have hsn := send_emitted
    (((s.readOne.countPacked (packBlock compress data).1).setFile i (f.markData b)).record
      (dataResponse compress i b data)) (dataResponse compress i b data).encode flush
  refine hsn.trans ?_
  show (s.readOne.countPacked (packBlock compress data).1).emitted ++ _ = _
  rw [hs]

def TreeRecorded (s : IncrementalServer) : Prop := ∀ i f (k : Nat), s.files[i]? = some f →
  f.sentTreeBlocks[k]? = some true → ∃ r ∈ s.emitted, r.IsBlock i .hash (asI32 k)

/-- Before a data block stand the block of the lowest level of the tree that covers it and all blocks
above that level. -/
def HashesFirst (s : IncrementalServer) : Prop := ∀ front r back, s.emitted = front ++ r :: back →
  ∀ i f (b : Nat), s.files[i]? = some f → r.IsBlock i .data b → 0 < f.sentTreeBlocks.length →
    (∃ h ∈ front, h.IsBlock i .hash (asI32 (f.leafIndex b)))
      ∧ ∀ k : Nat, k < f.leafOffset → ∃ h ∈ front, h.IsBlock i .hash (asI32 k)

theorem TreeRecorded.congr (h : s.TreeRecorded) (hf : s'.files = s.files)
    (he : s'.emitted = s.emitted) : s'.TreeRecorded := by
  unfold TreeRecorded
  rw [hf, he]
  exact h

theorem HashesFirst.congr (h : s.HashesFirst) (hf : s'.files = s.files)
    (he : s'.emitted = s.emitted) : s'.HashesFirst := by
  unfold HashesFirst
  rw [hf, he]
  exact h

theorem getElem?_set_cases {α : Type} {l : List α} {i j : Nat} {x y : α} (h : (l.set i x)[j]? = some y) :
    j = i ∧ y = x ∨ j ≠ i ∧ l[j]? = some y := by
  rw [getElem?_set] at h
  split at h
  next hi =>
    split at h
    next => exact .inl ⟨hi.symm, (Option.some.inj h).symm⟩
    next => cases h
  next hi => exact .inr ⟨fun hj => hi hj.symm, h⟩

/-- Every tree block that is marked has been emitted. -/
theorem EmitTree.treeRecorded (h : EmitTree i s s') (hs : s.TreeRecorded) : s'.TreeRecorded := by
  cases h with
  | miss => exact hs.congr rfl rfl
  | @emit f index data hf hu hrd hrt =>
    intro j g k hg hk
    rw [emitTree_files] at hg
    rw [emitTree_emitted]
    obtain ⟨rfl, rfl⟩ | ⟨-, hg⟩ := getElem?_set_cases hg
    · by_cases hi : index = k
      · subst hi
        exact ⟨treeResponse j index data, mem_append_right _ mem_cons_self,
          treeResponse_isBlock j index data⟩
      · rw [markTree_ne hi] at hk
        obtain ⟨r, hr, hb⟩ := hs j f k hf hk
        exact ⟨r, mem_append_left _ hr, hb⟩
    · obtain ⟨r, hr, hb⟩ := hs j g k hg hk
      exact ⟨r, mem_append_left _ hr, hb⟩

theorem EmitTrees.treeRecorded (h : EmitTrees i s s') (hs : s.TreeRecorded) : s'.TreeRecorded := by
  induction h with
  | refl => exact hs
  | tail _ hst ih => exact hst.treeRecorded ih

theorem emitData_treeRecorded {b : Nat} {data : Bytes} {flush : Bool}
    (hf : s.files[i]? = some f) (hs : s.TreeRecorded) :
    (s.emitData compress i b f data flush).TreeRecorded := by
  intro j g k hg hk
  rw [emitData_files] at hg
  rw [emitData_emitted]
  obtain ⟨r, hr, hb⟩ : ∃ r ∈ s.emitted, r.IsBlock j .hash (asI32 k) := by
    obtain ⟨rfl, rfl⟩ | ⟨-, hg⟩ := getElem?_set_cases hg
    · exact hs j f k hf hk
    · exact hs j g k hg hk
  exact ⟨r, mem_append_left _ hr, hb⟩

/-- Sending tree blocks emits hashes only. -/
theorem EmitTrees.emitted (h : EmitTrees i s s') :
    ∃ hashes, s'.emitted = s.emitted ++ hashes ∧ ∀ r ∈ hashes, r.header.blockType = .hash := by
  induction h with
  | refl => exact ⟨[], (append_nil _).symm, by simp⟩
  | tail _ hs ih =>
    obtain ⟨hashes, he, hh⟩ := ih
    cases hs with
    | miss => exact ⟨hashes, he, hh⟩
    | @emit f index data =>
      refine ⟨hashes ++ [treeResponse i index data], ?_, ?_⟩
      · rw [emitTree_emitted, he, append_assoc]
      · intro r hr
        obtain hr | hr := mem_append.mp hr
        · exact hh r hr
        · rw [mem_singleton.mp hr]
          rfl

/-- Responses whose hashes came before them keep the order. -/
theorem HashesFirst.append {more : List Response} (h : s.HashesFirst) (hg : Grown s s')
    (he : s'.emitted = s.emitted ++ more)
    (hm : ∀ front r back, more = front ++ r :: back → ∀ i f (b : Nat), s'.files[i]? = some f →
      r.IsBlock i .data b → 0 < f.sentTreeBlocks.length →
        (∃ h ∈ s.emitted, h.IsBlock i .hash (asI32 (f.leafIndex b)))
          ∧ ∀ k : Nat, k < f.leafOffset → ∃ h ∈ s.emitted, h.IsBlock i .hash (asI32 k)) :
    s'.HashesFirst := by
  intro front r back hs i f' b hf' hbk ht
  rw [he] at hs
  obtain ⟨back', ho⟩ | ⟨front', rfl, hn⟩ := append_split hs
  · obtain ⟨f, hf, hb⟩ := hg.file_back hf'
    rw [treeLength_of_blank hb] at ht
    rw [leafIndex_of_blank hb, leafOffset_of_blank hb]
    exact h front r back' ho i f b hf hbk ht
  · obtain ⟨⟨l, hl, hlf⟩, hur⟩ := hm front' r back hn i f' b hf' hbk ht
    refine ⟨⟨l, mem_append_left _ hl, hlf⟩, ?_⟩
    intro k hk
    obtain ⟨u, hu, hup⟩ := hur k hk
    exact ⟨u, mem_append_left _ hu, hup⟩

theorem EmitTrees.hashesFirst (h : EmitTrees i s s') (hs : s.HashesFirst) : s'.HashesFirst := by
  obtain ⟨hashes, he, hh⟩ := h.emitted
  refine hs.append h.grown he ?_
  intro front r back hsp j f b _ hb
  have ht := hh r (by rw [hsp]; exact mem_append_right _ mem_cons_self)
  rw [hb.2.1] at ht
  cases ht

structure HashesAhead (s : IncrementalServer) : Prop where
  upper : ∀ f ∈ s.files, f.UpperReads
  rooted : ∀ f ∈ s.files, f.Rooted
  recorded : s.TreeRecorded
  first : s.HashesFirst

theorem HashesAhead.congr (h : s.HashesAhead) (hf : s'.files = s.files)
    (he : s'.emitted = s.emitted) : s'.HashesAhead where
  upper := by
    rw [hf]
    exact h.upper
  rooted := by
    rw [hf]
    exact h.rooted
  recorded := h.recorded.congr hf he
  first := h.first.congr hf he

theorem UpperReads.of_blank {f' : ServerFile} (h : f.UpperReads) (hb : f'.blank = f.blank) :
    f'.UpperReads := by
  intro n k hk
  rw [leafOffset_of_blank hb] at hk
  rw [source_of_blank hb]
  exact h n k hk

/-- A data block goes out only behind the hashes on its path. -/
theorem DataOut.hashesAhead {b : Int} {result : SendResult} (hi : i < 2 ^ 15)
    (h : DataOut compress i b s result s') (hs : s.HashesAhead) : s'.HashesAhead := by
  have hg := (h.emits hi).grown
  refine ⟨?_, ?_, ?_, ?_⟩
  · intro f' hf'
    obtain ⟨j, hfl'⟩ := mem_iff_getElem?.mp hf'
    obtain ⟨f, hfl, hbl⟩ := hg.file_back hfl'
    exact UpperReads.of_blank (hs.upper f (mem_of_getElem? hfl)) hbl
  · intro f' hf'
    obtain ⟨j, hfl'⟩ := mem_iff_getElem?.mp hf'
    obtain ⟨f, hfl, hbl⟩ := hg.file_back hfl'
    have hm := mem_of_getElem? hfl
    by_cases hj : j = i
    · subst hj
      exact h.rooted hfl hfl' (hs.upper f hm) (hs.rooted f hm)
    · rw [h.other hj] at hfl'
      exact hs.rooted f' (mem_of_getElem? hfl')
  · cases h with
    | skipped => exact hs.recorded
    | failed _ htr => exact htr.treeRecorded hs.recorded
    | sent flush _ _ htr hfl1 =>
      exact emitData_treeRecorded hfl1 (htr.treeRecorded hs.recorded)
  · cases h with
    | skipped => exact hs.first
    | failed _ htr => exact htr.hashesFirst hs.first
    | @sent f f1 s1 n data flush hb hfl htr hfl1 hu hrd hlf hrt =>
      obtain ⟨g, hg1, hbl, -⟩ := htr.file hfl
      cases hfl1.symm.trans hg1
      have hrec := htr.treeRecorded hs.recorded
      have hro := hrt (hs.rooted f (mem_of_getElem? hfl))
      have hd : Grown s1 (s1.emitData compress i n f1 data flush) :=
        (Emit.data hi hfl1 hu hrd).grown
      refine (htr.hashesFirst hs.first).append hd (emitData_emitted n data flush) ?_
      intro front r back hsp j f' b' hfl' hbk ht
      obtain ⟨rfl, hr⟩ : front = [] ∧ dataResponse compress i n data = r := by
        cases front with
        | nil => exact ⟨rfl, (List.cons.inj hsp).1⟩
        | cons x front =>
          have hl := congrArg List.length hsp
          simp only [length_append, length_cons, length_nil] at hl
          omega
      subst hr
      obtain ⟨hid, -, hidx⟩ := hbk
      have hj := Int.natCast_inj.mp hid.symm
      have hn := Int.natCast_inj.mp hidx.symm
      subst hj hn
      rw [emitData_files, List.getElem?_set_self (List.getElem?_eq_some_iff.mp hfl1).1] at hfl'
      cases hfl'
      have hbl' := (markData_blank (f := f1) b').trans hbl
      rw [leafIndex_of_blank hbl', leafOffset_of_blank hbl']
      rw [treeLength_of_blank hbl'] at ht
      have hset := hlf ht
      refine ⟨hrec j f1 _ hfl1 hset, ?_⟩
      intro k hk
      refine hrec j f1 k hfl1 (hro (f.leafIndex b') (.inr ?_) hset k ?_)
      · rw [leafOffset_of_blank hbl]
        exact Nat.le_add_right _ _
      · rw [leafOffset_of_blank hbl]
        exact hk

theorem flush_files (s : IncrementalServer) : s.flush.files = s.files := by
  unfold flush
  split <;> rfl

theorem sendDone_files (s : IncrementalServer) : s.sendDone.files = s.files := by
  have hs := congrArg IncrementalServer.files
    (send_unwritten (s.record ⟨doneMarker, []⟩) doneMarker.encode true)
  exact hs

theorem sendDone_emitted (s : IncrementalServer) : s.sendDone.emitted = s.emitted ++ [⟨doneMarker, []⟩] :=
  send_emitted (s.record ⟨doneMarker, []⟩) _ true

/-- Whatever the server does, hashes stay ahead of their data. -/
theorem Act.hashesAhead (h : Act compress s s') (hs : s.HashesAhead) : s'.HashesAhead := by
  cases h with
  | send hi h => exact h.hashesAhead hi hs
  | flush => exact hs.congr (flush_files s) (flush_emitted s)
  | keep => exact hs.congr rfl rfl
  | done =>
    have hd : s.sendDone.HashesAhead := by
      have hfs := sendDone_files s
      refine ⟨by rw [hfs]; exact hs.upper, by rw [hfs]; exact hs.rooted, ?_, ?_⟩
      · intro i f k hf hk
        rw [hfs] at hf
        rw [sendDone_emitted]
        obtain ⟨r, hr, hb⟩ := hs.recorded i f k hf hk
        exact ⟨r, mem_append_left _ hr, hb⟩
      · intro front r back hsp i f b hf hb
        rw [hfs] at hf
        rw [sendDone_emitted] at hsp
        obtain ⟨back', ho⟩ | ⟨front', -, hn⟩ := append_split hsp
        · exact hs.first front r back' ho i f b hf hb
        have hr : r = ⟨doneMarker, []⟩ := by
          have hm : r ∈ [(⟨doneMarker, []⟩ : Response)] := by
            rw [hn]
            exact mem_append_right _ mem_cons_self
          exact mem_singleton.mp hm
        subst hr
        have hid : (-1 : Int) = i := hb.1
        omega
    exact hd.congr rfl rfl

end IncrementalServer

namespace IncrementalSession

variable {compress : Bytes → Bytes} {t t' : IncrementalSession} {a : IncrementalStep}

theorem Stepped.hashesAhead (h : Stepped compress t a t') (hs : t.server.HashesAhead) :
    t'.server.HashesAhead := by
  obtain ⟨-, ha⟩ | rfl := h.acts
  · exact ha.invariant IncrementalServer.Act.hashesAhead hs
  · exact hs.congr (IncrementalServer.flush_files _) (IncrementalServer.flush_emitted _)

structure Ordered (t : IncrementalSession) : Prop where
  serving : t.server.Serving
  streams : t.Streams
  ahead : t.server.HashesAhead

/-- Every step keeps the stream in order. -/
theorem Stepped.ordered (h : Stepped compress t a t') (hs : t.Ordered) : t'.Ordered :=
  ⟨h.serving hs.serving, h.streams hs.streams, h.hashesAhead hs.ahead⟩

theorem start_hashesAhead {specs : List FileSpec} (hup : ∀ spec ∈ specs, spec.file.UpperReads) :
    (start specs).server.HashesAhead := by
  have hu : ∀ f ∈ specs.map FileSpec.file, ∀ k : Nat, f.sentTreeBlocks[k]? ≠ some true := by
    intro f hf k
    obtain ⟨spec, -, rfl⟩ := mem_map.mp hf
    rw [spec.file_tree, getElem?_replicate]
    split <;> simp
  refine ⟨?_, ?_, ?_, ?_⟩
  · intro f hf
    obtain ⟨spec, hs, rfl⟩ := mem_map.mp hf
    exact hup spec hs
  · intro f hf l _ hl
    exact absurd hl (hu f hf l)
  · intro i f k hfl hk
    exact absurd hk (hu f (mem_of_getElem? hfl) k)
  · intro front r back hsp
    exact absurd hsp.symm (append_ne_nil_of_right_ne_nil _ (cons_ne_nil _ _))

/-- If no read of a block above the lowest level of a tree fails, then the blocks that the server has
written, which are those in its chunks, have every data block behind its hashes. -/
theorem hashes_precede_data (compress : List UInt8 → List UInt8) {specs : List FileSpec}
    (hupper : ∀ spec ∈ specs, spec.file.UpperReads) {as : List IncrementalStep}
    (hrun : runSteps (step compress) (start specs) as = some t) :
    t.Streams ∧ t.server.HashesFirst := by
  have hi := runSteps_keeps (fun hs h => (step_stepped hs.serving h).ordered hs)
    ⟨start_serving specs, start_streams specs, start_hashesAhead hupper⟩ hrun
  exact ⟨hi.streams, hi.ahead.first⟩

def spec129 (fails : Nat → Bool) : FileSpec where
  size := 129 * 4096
  size_le := by decide
  source := ⟨fun _ _ => some [7], fun n _ => if fails n then none else some [9], true⟩
  priorityBlocks := []

theorem hashes_precede_data_whole : ∃ t, runSteps (step id) (start [spec129 fun _ => false])
    [.handleRequest ⟨1, 0, 0⟩, .handleRequest ⟨1, 0, 1⟩] = some t
      ∧ t.Streams ∧ t.server.HashesFirst := by
  have hs : (runSteps (step id) (start [spec129 fun _ => false])
      [.handleRequest ⟨1, 0, 0⟩, .handleRequest ⟨1, 0, 1⟩]).isSome := by decide +kernel
  obtain ⟨t, hr⟩ := Option.isSome_iff_exists.mp hs
  have hu : ∀ spec ∈ [spec129 fun _ => false], spec.file.UpperReads := by
    intro spec hsp n k _
    rw [mem_singleton.mp hsp]
    rfl
  exact ⟨t, hr, hashes_precede_data id hu hr⟩

/-- The root is read after the first block of the lowest level, in vain, and not again: the next data
block goes out without it. -/
theorem hashes_precede_data_not : ¬ ∀ t, runSteps (step id) (start [spec129 (· == 1)])
    [.handleRequest ⟨1, 0, 0⟩, .handleRequest ⟨1, 0, 1⟩] = some t → t.server.HashesFirst := by
  intro ha
  have he : (runSteps (step id) (start [spec129 (· == 1)])
      [.handleRequest ⟨1, 0, 0⟩, .handleRequest ⟨1, 0, 1⟩]).map (fun t => t.server.emitted)
        = some [⟨⟨0, .hash, .none, 1, 1⟩, [9]⟩, ⟨⟨0, .data, .lz4, 1, 1⟩, [7]⟩] := by
    decide +kernel
  have hfl : (runSteps (step id) (start [spec129 (· == 1)])
      [.handleRequest ⟨1, 0, 0⟩, .handleRequest ⟨1, 0, 1⟩]).map
        (fun t => (t.server.files.map fun f => (f.sentTreeBlocks.length, f.leafOffset)))
          = some [(3, 1)] := by
    decide +kernel
  obtain ⟨t, hrun, ho⟩ := Option.map_eq_some_iff.mp he
  rw [hrun] at hfl
  have hfs := Option.some.inj hfl
  obtain ⟨f, hm, hf⟩ := map_eq_singleton_iff.mp hfs
  have hft := ha t hrun [_] _ [] ho 0 f 1 (by rw [hm]; rfl) ⟨rfl, rfl, rfl⟩
    (by rw [(Prod.mk.inj hf).1]; decide)
  obtain ⟨r, hr, hb⟩ := hft.2 0 (by rw [(Prod.mk.inj hf).2]; decide)
  rw [mem_singleton.mp hr] at hb
  exact absurd hb.2.2 (by decide)

end IncrementalSession

end AdbFastboot
