import AdbFastboot.IncrementalExact

namespace AdbFastboot

open ServerFile List FileSpec

namespace IncrementalServer

variable {compress : Bytes → Bytes} {s s' : IncrementalServer} {i : Nat} {f : ServerFile}

/-- Every data block of a file that was asked for as a whole is sent or ahead. -/
def Covers (s : IncrementalServer) : Prop := ∀ id ∈ s.prefetchedFiles, ∀ i : Nat, id.toInt = i →
  ∀ f, s.files[i]? = some f → ∀ b < f.sentBlocks.length, s.Sent i b ∨ s.Ahead i b

theorem Covers.congr (h : s.Covers) (hfs : s'.files = s.files)
    (hq : s'.prefetches = s.prefetches) (hp : s'.prefetchedFiles = s.prefetchedFiles) :
    s'.Covers := by
  intro id hid i hi f hf b hb
  rw [hp] at hid
  rw [hfs] at hf
  unfold Sent Ahead
  rw [hfs, hq]
  exact h id hid i hi f hf b hb

theorem Covers.grown (h : s.Covers) (hg : Grown s s')
    (hk : ∀ i b, s.Sent i b ∨ s.Ahead i b → s'.Sent i b ∨ s'.Ahead i b) : s'.Covers := by
  intro id hid i hi f' hf' b hb
  rw [hg.prefetchedFiles] at hid
  obtain ⟨f, hf, hbl⟩ := hg.file_back hf'
  rw [length_of_blank hbl] at hb
  exact hk i b (h id hid i hi f hf b hb)

theorem Covers.of_unwritten (h : s.Covers) (hs : s'.unwritten = s.unwritten) : s'.Covers := by
  have h' : s'.unwritten.Covers := by
    rw [hs]
    exact h.congr rfl rfl rfl
  exact h'.congr rfl rfl rfl

theorem Covers.awaiting (h : s.Covers) (incoming : Bytes) : (s.awaiting incoming).Covers := by
  have hd : s.notifyDone.unwritten.Covers := by
    rw [notifyDone_unwritten]
    exact h.congr rfl rfl rfl
  have hd' := hd.congr rfl rfl rfl
  exact (hd'.of_unwritten (flushIfBlocking_unwritten s.notifyDone)).congr rfl rfl rfl

theorem Ahead.of_queue {b : Nat} (h : s.Ahead i b) (hq : ∀ p ∈ s.prefetches, p ∈ s'.prefetches) :
    s'.Ahead i b := by
  obtain ⟨p, hp, hr⟩ := h
  exact ⟨p, hq p hp, hr⟩

/-- A queued prefetch of a whole file has every block of it ahead. -/
theorem full_ahead (hf : f.Ok) {b : Nat} (hb : b < f.sentBlocks.length)
    (hp : .full i f ∈ s.prefetches) : s.Ahead i b := by
  have hl := hf.length_lt
  refine ⟨_, hp, rfl, Int.natCast_nonneg b, ?_⟩
  show (b : Int) < min (min (0 + asI32 f.sentBlocks.length) (2 ^ 31 - 1)) (asI32 f.sentBlocks.length)
  rw [asI32_of_fits (by omega) (by omega)]
  omega

/-- A handled request keeps every prefetched block sent or ahead in the queue. -/
theorem Covers.handled {request : RequestCommand} (hs : s.Serving) (hc : s.Covers)
    (h : Handled compress s request s') : s'.Covers := by
  cases h with
  | ignored => exact hc
  | destroyed | complete => exact hc.congr rfl rfl rfl
  | unsent hi h =>
    refine hc.grown (h.emits hi).grown ?_
    rintro i b (hsn | ha)
    · exact .inl (hsn.grown (h.emits hi).grown)
    · exact .inr (ha.of_queue fun p hp => (h.emits hi).prefetches ▸ hp)
  | @missing i b f s1 hi h hf hb =>
    have hg := (h.emits hi).grown.trans (.requeue s1 (.new i f (b + 1) 7 :: s1.prefetches))
    refine hc.grown hg ?_
    rintro j b' (hsn | ha)
    · exact .inl (hsn.grown hg)
    · exact .inr (ha.of_queue fun p hp =>
        mem_cons_of_mem _ ((h.emits hi).prefetches ▸ hp))
  | @prefetch i f hid hf =>
    intro id hm j hj g hg b hb
    obtain rfl | hm := mem_cons.mp hm
    · cases Int.natCast_inj.mp (hid.symm.trans hj)
      cases hf.symm.trans hg
      exact .inr (full_ahead (hs.files f (mem_of_getElem? hf)) hb
        (mem_append_right _ mem_cons_self))
    · obtain hsn | ha := hc id hm j hj g hg b hb
      · exact .inl hsn
      · exact .inr (ha.of_queue fun p hp => mem_append_left _ hp)

/-- Prefetching keeps every prefetched block sent or ahead in the queue. -/
theorem Covers.loop {budget : Int} (hr : s.AllReads) (hc : s.Covers)
    (h : LoopOut compress s budget s') : s'.Covers :=
  hc.grown h.works.grown fun i b => h.covers hr i b

end IncrementalServer

namespace FileSpec

def numBlocks (spec : FileSpec) : Nat := ((spec.size + 4095) / 4096).toNat

def numTreeBlocks (spec : FileSpec) : Nat :=
  if spec.source.hasTree then verityTreeBlocksForFile spec.size else 0

variable {spec : FileSpec}

theorem file_blank (spec : FileSpec) : spec.file.blank = spec.file := by
  have ht := spec.file_tree
  have hb : spec.file.sentBlocks = replicate spec.file.sentBlocks.length false := by
    rw [file_blocks_length]
    rfl
  unfold ServerFile.blank
  rw [← ht, ← hb]
  rfl

variable (h : spec.size ≤ 2 ^ 43 - 4096)
include h

theorem file_numBlocks : spec.file.sentBlocks.length = spec.numBlocks := by
  rw [file_blocks_length, numBlocks, numBytesToNumBlocks]
  have hc : ((kBlockSize : Nat) : Int) = 4096 := rfl
  rw [hc]
  split
  next => omega
  rw [asI32_of_fits (by omega) (by omega)]
  omega

theorem file_tree_small : spec.file.sentTreeBlocks.length ≤ 2 ^ 31 := by
  rw [file_tree_length]
  split
  next =>
    by_cases hp : 0 < verityTreeBlocksForFile spec.size
    · obtain ⟨hsize, -⟩ := verityTree_pos hp
      have hle := treeBlocksAbove_le (blockCount spec.size) (blockCount spec.size)
      have hc := blockCount_of_pos hsize
      rw [verityTreeBlocksForFile_eq (by omega)]
      omega
    · omega
  next => omega

theorem file_tree_blocks (ht : 0 < spec.file.sentTreeBlocks.length) : 0 < spec.file.sentBlocks.length := by
  rw [file_tree_length] at ht
  split at ht
  next =>
    obtain ⟨hsize, -⟩ := verityTree_pos ht
    rw [file_numBlocks h, numBlocks]
    omega
  next => cases ht

end FileSpec

def BlockSource.ReadsBlocks (source : BlockSource) : Prop := ∀ n k,
  (∃ data, source.readDataBlock n k = some data ∧ data.length ≤ kBlockSize)
    ∧ ∃ data, source.readTreeBlock n k = some data ∧ data.length ≤ kBlockSize

theorem BlockSource.ReadsBlocks.reads {source : BlockSource} (h : source.ReadsBlocks) : source.Reads := by
  intro n k
  obtain ⟨⟨data, hd, -⟩, tree, ht, -⟩ := h n k
  rw [hd, ht]
  exact ⟨rfl, rfl⟩

namespace IncrementalServer

variable {compress : Bytes → Bytes} {specs : List FileSpec} {s s' : IncrementalServer}

structure SoundFiles (compress : Bytes → Bytes) (specs : List FileSpec)
    (s : IncrementalServer) : Prop where
  blank : s.files.map ServerFile.blank = specs.map FileSpec.file
  ok : s.FilesOk
  reads : s.AllReads
  exact : s.Exact compress
  whole : ∀ f ∈ s.files, f.Whole

theorem SoundFiles.congr (h : s.SoundFiles compress specs) (hf : s'.files = s.files)
    (he : s'.emitted = s.emitted) (hd : s'.doneSent = s.doneSent) :
    s'.SoundFiles compress specs where
  blank := by
    rw [hf]
    exact h.blank
  ok := by
    unfold FilesOk
    rw [hf]
    exact h.ok
  reads := by
    unfold AllReads
    rw [hf]
    exact h.reads
  exact := h.exact.congr hf he hd
  whole := by
    rw [hf]
    exact h.whole

theorem Act.soundFiles (h : Act compress s s') (hs : s.SoundFiles compress specs) :
    s'.SoundFiles compress specs where
  blank := h.blank.trans hs.blank
  ok := h.filesOk hs.ok
  reads := hs.reads.of_blank h.blank
  exact := h.exact hs.ok hs.exact
  whole := h.whole hs.reads hs.whole

/-- Each file that is served is that of its specification, but for the marks. -/
theorem SoundFiles.spec (h : s.SoundFiles compress specs) {i : Nat} {f : ServerFile}
    (hf : s.files[i]? = some f) :
    ∃ spec, specs[i]? = some spec ∧ f.blank = spec.file.blank := by
  have hm := congrArg (·[i]?) h.blank
  simp only [getElem?_map, hf, Option.map_some] at hm
  obtain ⟨spec, hs, hb⟩ := Option.map_eq_some_iff.mp hm.symm
  exact ⟨spec, hs, hb.symm.trans spec.file_blank.symm⟩

theorem SoundFiles.file (h : s.SoundFiles compress specs) {i : Nat} {spec : FileSpec}
    (hs : specs[i]? = some spec) : ∃ f, s.files[i]? = some f ∧ f.blank = spec.file.blank := by
  have hm := congrArg (·[i]?) h.blank
  simp only [getElem?_map, hs, Option.map_some] at hm
  obtain ⟨f, hf, hb⟩ := Option.map_eq_some_iff.mp hm
  exact ⟨f, hf, hb.trans spec.file_blank.symm⟩

end IncrementalServer

/-- With all data blocks of a file its whole tree has been sent. -/
theorem ServerFile.Whole.tree_sent {f : ServerFile} (h : f.Whole) (hf : f.Ok)
    (hbk : 0 < f.sentTreeBlocks.length → 0 < f.sentBlocks.length)
    (hs : ∀ b < f.sentBlocks.length, f.sentBlocks[b]? = some true) {k : Nat}
    (hk : k < f.sentTreeBlocks.length) : f.sentTreeBlocks[k]? = some true := by
  have ht : 0 < f.sentTreeBlocks.length := by omega
  have hft := hbk ht
  by_cases hlow : f.leafOffset ≤ k
  · have hb : (k - f.leafOffset) * hashesPerBlock < f.sentBlocks.length := by
      have hlv := hf.leaves ht
      unfold leafOffset leafCount at *
      rw [hashesPerBlock_eq] at *
      omega
    have hc := h.covered ht _ (hs _ hb)
    have hi : f.leafIndex ((k - f.leafOffset) * hashesPerBlock) = k := by
      rw [leafIndex, Nat.mul_div_cancel _ (by decide)]
      omega
    rwa [hi] at hc
  · have hl := h.covered ht 0 (hs 0 hft)
    exact h.rooted _ (.inr (Nat.le_add_right _ _)) hl k (Nat.not_le.mp hlow)

namespace IncrementalSession

open IncrementalServer

variable {compress : Bytes → Bytes} {specs : List FileSpec} {t t' : IncrementalSession}
  {a : IncrementalStep}

structure Sound (compress : Bytes → Bytes) (specs : List FileSpec)
    (t : IncrementalSession) : Prop where
  serving : t.server.Serving
  streams : t.Streams
  files : t.server.SoundFiles compress specs
  covers : t.server.Covers

theorem Stepped.covers (h : Stepped compress t a t') (hs : t.server.Serving)
    (hrs : t.server.AllReads) (hc : t.server.Covers) : t'.server.Covers := by
  have ha : ∀ incoming, (t.server.awaiting incoming).AllReads := by
    intro incoming f hf
    rw [awaiting_files] at hf
    exact hrs f hf
  cases h with
  | feed data => exact hc.congr rfl rfl rfl
  | @idle forward incoming s' ht h =>
    exact Covers.loop (ha incoming) (hc.awaiting incoming) h
  | @served request forward incoming s1 s' ht hh h1 h =>
    have hrs1 := h1.acts.invariant (fun hact hr => hr.of_blank hact.blank) (ha incoming)
    exact Covers.loop hrs1 (Covers.handled (hs.awaiting incoming) (hc.awaiting incoming) h1) h
  | handleRequest _ h => exact Covers.handled hs hc h
  | runPrefetching h => exact hc.loop hrs h
  | drainOutput => exact (hc.of_unwritten (flush_unwritten _)).congr rfl rfl rfl

/-- Every step keeps the session sound. -/
theorem Stepped.sound (h : Stepped compress t a t') (hs : Sound compress specs t) :
    Sound compress specs t' := by
  refine ⟨h.serving hs.serving, h.streams hs.streams, ?_, h.covers hs.serving hs.files.reads hs.covers⟩
  obtain ⟨-, ha⟩ | rfl := h.acts
  · exact ha.invariant Act.soundFiles hs.files
  · exact (Act.soundFiles (.flush t.server) hs.files).congr rfl rfl rfl

theorem start_sound (hsize : ∀ spec ∈ specs, spec.size ≤ 2 ^ 43 - 4096)
    (hrs : ∀ spec ∈ specs, spec.source.ReadsBlocks) : Sound compress specs (start specs) := by
  have hfs : ∀ f ∈ (start specs).server.files, ∃ spec ∈ specs, spec.file = f := by
    intro f hf
    exact mem_map.mp hf
  have ht : ∀ f ∈ (start specs).server.files, ∀ k : Nat, f.sentTreeBlocks[k]? ≠ some true := by
    intro f hf k
    obtain ⟨spec, -, rfl⟩ := hfs f hf
    rw [spec.file_tree, getElem?_replicate]
    split <;> simp
  have hd : ∀ f ∈ (start specs).server.files, ∀ b : Nat, f.sentBlocks[b]? ≠ some true := by
    intro f hf b
    obtain ⟨spec, -, rfl⟩ := hfs f hf
    show (replicate _ false)[b]? ≠ some true
    rw [getElem?_replicate]
    split <;> simp
  refine ⟨start_serving specs, start_streams specs, ⟨?_, (start_serving specs).files, ?_,
    ⟨?_, ?_, ?_, ?_, nodup_nil, .inr ?_, ?_⟩, ?_⟩, ?_⟩
  · show (specs.map file).map ServerFile.blank = _
    rw [map_map]
    exact map_congr_left fun spec _ => spec.file_blank
  · intro f hf
    obtain ⟨spec, hs, rfl⟩ := hfs f hf
    exact (hrs spec hs).reads
  · intro f hf
    obtain ⟨spec, hs, rfl⟩ := hfs f hf
    exact file_tree_small (hsize spec hs)
  · intro r hr
    cases hr
  · intro i f k hfl hk
    exact absurd hk (ht f (mem_of_getElem? hfl) k)
  · intro i f b hfl hb
    exact absurd hb (hd f (mem_of_getElem? hfl) b)
  · exact not_mem_nil
  · intro front back hsp
    exact absurd hsp.symm (append_ne_nil_of_right_ne_nil _ (cons_ne_nil _ _))
  · intro f hf
    constructor
    · intro l _ hl
      exact absurd hl (ht f hf l)
    · intro _ b hb
      exact absurd hb (hd f hf b)
  · intro id hi
    cases hi

variable {data : Bytes}

theorem packBlock_length (h : data.length ≤ kBlockSize) : (packBlock compress data).2.length < 2 ^ 15 := by
  have hm : compressedSizeMax = 3891 := rfl
  have hb : kBlockSize = 4096 := rfl
  unfold packBlock
  dsimp only
  split
  next hs =>
    show (compress data).length < 2 ^ 15
    omega
  show data.length < 2 ^ 15
  omega

theorem dataResponse_fits {i b : Nat} (hi : i < 2 ^ 15) (hb : b < 2 ^ 31)
    (hle : data.length ≤ kBlockSize) : (dataResponse compress i b data).Fits := by
  have hs : (packBlock compress data).2.length < 2 ^ 15 := packBlock_length hle
  constructor
  · dsimp [dataResponse]
    omega
  · dsimp [dataResponse]
    omega
  · dsimp [dataResponse]
    exact asI16_of_fits (by omega) (by omega)
  · exact hs

theorem treeResponse_fits {i k : Nat} (hi : i < 2 ^ 15) (hk : k < 2 ^ 31)
    (hle : data.length ≤ kBlockSize) : (treeResponse i k data).Fits := by
  have hb : kBlockSize = 4096 := rfl
  have hix : asI32 k = k := asI32_of_fits (by omega) (by omega)
  constructor
  · dsimp [treeResponse]
    omega
  · dsimp [treeResponse]
    omega
  · dsimp [treeResponse]
    exact asI16_of_fits (by omega) (by omega)
  · dsimp [treeResponse]
    omega

/-- Every response of a session fits the fields of its header. -/
theorem Sound.fits (h : Sound compress specs t)
    (hrs : ∀ spec ∈ specs, spec.source.ReadsBlocks) {r : Response}
    (hr : r ∈ t.server.emitted) : r.Fits := by
  obtain rfl | hfr := h.files.exact.from_file r hr
  · exact ⟨by decide, by decide, rfl, by decide⟩
  cases hfr with
  | @data i b n f data hi hfl hs hrd =>
    obtain ⟨spec, hsp, hbl⟩ := h.files.spec hfl
    have hf := h.files.ok f (mem_of_getElem? hfl)
    have hl := hf.length_lt
    have hb := (List.getElem?_eq_some_iff.mp hs).1
    rw [source_of_blank hbl] at hrd
    obtain ⟨data', hrd', hle⟩ := (hrs spec (mem_of_getElem? hsp) n b).1
    cases hrd.symm.trans hrd'
    exact dataResponse_fits hi (by omega) hle
  | @tree i k n f data hi hfl hs hrd =>
    obtain ⟨spec, hsp, hbl⟩ := h.files.spec hfl
    have hsm := h.files.exact.small f (mem_of_getElem? hfl)
    have hk := (List.getElem?_eq_some_iff.mp hs).1
    rw [source_of_blank hbl] at hrd
    obtain ⟨data', hrd', hle⟩ := (hrs spec (mem_of_getElem? hsp) n (asI32 k)).2
    cases hrd.symm.trans hrd'
    exact treeResponse_fits hi (by omega) hle

/-- A block of the stream holds what a read of that block of its file gave. -/
def OwnBytes (decompress : Bytes → Option Bytes) (specs : List FileSpec) (r : Response) : Prop :=
  ∃ i spec n data, specs[i]? = some spec ∧ r.content decompress = some data
    ∧ ((∃ b : Nat, b < spec.numBlocks ∧ r.IsBlock i .data b
          ∧ spec.source.readDataBlock n b = some data)
        ∨ ∃ k : Nat, k < spec.numTreeBlocks ∧ r.IsBlock i .hash k
          ∧ spec.source.readTreeBlock n k = some data)

structure StreamExact (decompress : Bytes → Option Bytes) (specs : List FileSpec)
    (t : IncrementalSession) (blocks : List Response) : Prop where
  decoded : decodeStream t.drained = some blocks
  once : (blocks.map Response.key).Nodup
  own : ∀ r ∈ blocks, r = .done ∨ OwnBytes decompress specs r
  counts : ∀ f ∈ t.server.files, f.sentBlocksCount = f.sentBlocks.count true
  done_once : blocks.count .done ≤ 1
  done_last : ∀ front back, blocks = front ++ .done :: back → ∀ i spec, specs[i]? = some spec →
    ∀ b : Nat, b < spec.numBlocks → ∃ r ∈ front, r.IsBlock i .data b

variable {decompress : Bytes → Option Bytes} {request : RequestCommand}

/-- A data response carries its block, compressed or not. -/
theorem dataResponse_content (hlz4 : ∀ data, decompress (compress data) = some data) (i b : Nat)
    (data : Bytes) : (dataResponse compress i b data).content decompress = some data := by
  unfold Response.content dataResponse packBlock
  dsimp only
  split
  next hn =>
    split at hn
    next => cases hn
    next hl => rw [if_neg hl]
  next hp =>
    split at hp
    next hs =>
      rw [if_pos hs]
      exact hlz4 data
    next => cases hp

section

variable (h : Sound compress specs t) (hsize : ∀ spec ∈ specs, spec.size ≤ 2 ^ 43 - 4096)
include h hsize

/-- Every response but the marker carries bytes of the file it names. -/
theorem Sound.own (hl : ∀ data, decompress (compress data) = some data) {r : Response}
    (hr : r ∈ t.server.emitted) : r = .done ∨ OwnBytes decompress specs r := by
  refine (h.files.exact.from_file r hr).imp_right ?_
  intro hfr
  cases hfr with
  | @data i b n f data hi hf hsn hrd =>
    obtain ⟨spec, hs, hbl⟩ := h.files.spec hf
    have hb := (List.getElem?_eq_some_iff.mp hsn).1
    rw [source_of_blank hbl] at hrd
    rw [length_of_blank hbl, file_numBlocks (hsize spec (mem_of_getElem? hs))] at hb
    exact ⟨i, spec, n, data, hs, dataResponse_content hl i b data,
      .inl ⟨b, hb, dataResponse_isBlock b data, hrd⟩⟩
  | @tree i k n f data hi hf hsn hrd =>
    obtain ⟨spec, hs, hbl⟩ := h.files.spec hf
    have hsm := h.files.exact.small f (mem_of_getElem? hf)
    have hk := (List.getElem?_eq_some_iff.mp hsn).1
    have hix : asI32 k = k := asI32_of_fits (by omega) (by omega)
    have hbk := treeResponse_isBlock i k data
    rw [hix] at hrd hbk
    rw [source_of_blank hbl] at hrd
    rw [treeLength_of_blank hbl, file_tree_length] at hk
    exact ⟨i, spec, n, data, hs, rfl, .inr ⟨k, hk, hbk, hrd⟩⟩

/-- The stream of a sound session decodes to exactly what was emitted. -/
theorem Sound.stream (hrs : ∀ spec ∈ specs, spec.source.ReadsBlocks)
    (hl : ∀ data, decompress (compress data) = some data) :
    ∃ blocks, StreamExact decompress specs t blocks := by
  obtain ⟨before, chunks, tail, hfr⟩ := h.streams
  have he : t.server.emitted = before.flatten ++ (chunks.flatten ++ tail) := by
    rw [hfr.emitted, append_assoc]
  have hm : ∀ r ∈ before.flatten, r ∈ t.server.emitted := by
    intro r hr
    rw [he]
    exact mem_append_left _ hr
  have ho : (before.flatten.map Response.key).Nodup := by
    have ha := h.files.exact.once
    rw [he, map_append] at ha
    exact (nodup_append.mp ha).1
  refine ⟨before.flatten, ?_, ho, fun r hr => h.own hsize hl (hm r hr), ?_, ?_, ?_⟩
  · rw [hfr.drained]
    refine decodeStream_encode (fun c hc => hfr.cut c (mem_append_left _ hc)) ?_
    intro c hc r hr
    exact h.fits hrs (hm r (mem_flatten.mpr ⟨c, hc, hr⟩))
  · intro f hf
    exact (h.files.ok f hf).count
  · exact nodup_iff_count_le_one.mp (List.Nodup.of_map _ ho) _
  · intro front back hsp i spec hs b hb
    obtain ⟨f, hfl, hbl⟩ := h.files.file hs
    refine h.files.exact.last front (back ++ (chunks.flatten ++ tail)) ?_ i f b hfl ?_
    · rw [he, hsp, append_assoc]
      rfl
    · rw [length_of_blank hbl, file_numBlocks (hsize spec (mem_of_getElem? hs))]
      exact hb

end

theorem Stepped.prefetchedFiles (h : Stepped compress t a t') {id : Int16}
    (hid : id ∈ t.server.prefetchedFiles) : id ∈ t'.server.prefetchedFiles := by
  have ha : ∀ incoming, id ∈ (t.server.awaiting incoming).prefetchedFiles := by
    intro incoming
    have hf := congrArg IncrementalServer.prefetchedFiles
      (flushIfBlocking_unwritten t.server.notifyDone)
    have hd := congrArg IncrementalServer.prefetchedFiles (notifyDone_unwritten t.server)
    exact (hf.trans hd).symm ▸ hid
  have hh : ∀ {s s' : IncrementalServer} {request : RequestCommand},
      Handled compress s request s' → id ∈ s.prefetchedFiles → id ∈ s'.prefetchedFiles := by
    intro s s' request h hid
    cases h with
    | ignored | destroyed | complete => exact hid
    | unsent hi h | missing hi h => exact (h.emits hi).grown.prefetchedFiles ▸ hid
    | prefetch => exact mem_cons_of_mem _ hid
  cases h with
  | feed data => exact hid
  | idle _ h => exact h.works.grown.prefetchedFiles ▸ ha _
  | served _ _ h1 h => exact h.works.grown.prefetchedFiles ▸ hh h1 (ha _)
  | handleRequest _ h => exact hh h hid
  | runPrefetching h => exact h.works.grown.prefetchedFiles ▸ hid
  | drainOutput =>
    have hf := congrArg IncrementalServer.prefetchedFiles (flush_unwritten t.server)
    exact hf.symm ▸ hid

/-- Enough turns of prefetching empty the queue. -/
theorem prefetch_ends {m : Nat} (h : Sound compress specs t) (hm : t.server.unsent ≤ m) :
    ∃ n t', runSteps (step compress) t (List.replicate n .runPrefetching) = some t'
      ∧ Sound compress specs t' ∧ t'.server.prefetches = []
      ∧ t'.server.prefetchedFiles = t.server.prefetchedFiles := by
  induction m using Nat.strong_induction_on generalizing t with
  | _ m ih =>
    obtain ⟨s1, hl, ho⟩ := runPrefetching_spec compress h.serving.files h.serving.queue
    have hst : t.step compress .runPrefetching = some { t with server := s1 } := by
      rw [step, hl]
      rfl
    have hs := (Stepped.runPrefetching ho).sound h
    have hp := ho.works.grown.prefetchedFiles
    obtain hmt | hsp := ho.ends
    · refine ⟨1, { t with server := s1 }, ?_, hs, hmt, hp⟩
      rw [replicate_one, runSteps, hst]
      rfl
    obtain ⟨n, t', hr, hs', hmt, hp'⟩ := ih s1.unsent (by omega) hs (Nat.le_refl _)
    refine ⟨n + 1, t', ?_, hs', hmt, hp'.trans hp⟩
    rw [replicate_succ, runSteps, hst]
    exact hr

def AllSent (t : IncrementalSession) (i : Nat) (spec : FileSpec) : Prop :=
  (∀ b : Nat, b < spec.numBlocks → ∃ r ∈ t.server.emitted, r.IsBlock i .data b)
    ∧ ∀ k : Nat, k < spec.numTreeBlocks → ∃ r ∈ t.server.emitted, r.IsBlock i .hash k

/-- With an empty queue a prefetched file has been sent whole. -/
theorem Sound.allSent (h : Sound compress specs t) (hsize : ∀ spec ∈ specs, spec.size ≤ 2 ^ 43 - 4096)
    (hmt : t.server.prefetches = []) {id : Int16} (hid : id ∈ t.server.prefetchedFiles) {i : Nat}
    (hi : id.toInt = i) {spec : FileSpec} (hsp : specs[i]? = some spec) : t.AllSent i spec := by
  obtain ⟨f, hf, hbl⟩ := h.files.file hsp
  have hft := hsize spec (mem_of_getElem? hsp)
  have hm := mem_of_getElem? hf
  have hl : f.sentBlocks.length = spec.numBlocks := by
    rw [length_of_blank hbl, file_numBlocks hft]
  have hs : ∀ b < f.sentBlocks.length, f.sentBlocks[b]? = some true := by
    intro b hb
    obtain ⟨g, hg, hfg⟩ | ⟨p, hp, -⟩ := h.covers id hid i hi f hf b hb
    · cases hf.symm.trans hg
      exact hfg
    · rw [hmt] at hp
      cases hp
  constructor
  · intro b hb
    exact h.files.exact.data i f b hf (hs b (by omega))
  · intro k hk
    have ht : f.sentTreeBlocks.length = spec.numTreeBlocks := by
      rw [treeLength_of_blank hbl, file_tree_length]
      rfl
    have hsm := h.files.exact.small f hm
    have hbk : 0 < f.sentTreeBlocks.length → 0 < f.sentBlocks.length := by
      rw [treeLength_of_blank hbl, length_of_blank hbl]
      exact file_tree_blocks hft
    have hfg := (h.files.whole f hm).tree_sent (h.files.ok f hm) hbk hs (k := k) (by omega)
    have hr := h.files.exact.tree i f k hf hfg
    rwa [asI32_of_fits (by omega) (by omega)] at hr

def Requested (compress : Bytes → Bytes) (t : IncrementalSession)
    (as : List IncrementalStep) (request : RequestCommand) : Prop :=
  ∃ front a back t₁, as = front ++ a :: back ∧ runSteps (step compress) t front = some t₁
    ∧ t₁.request? a = some request

theorem handled_prefetch {s s' : IncrementalServer} (hs : s.Serving)
    (h : s.handleRequest compress request = some s')
    (ht : request.requestType.toInt = prefetch) (hp : 0 ≤ request.fileId.toInt) :
    request.fileId ∈ s'.prefetchedFiles := by
  have hsm : (s.handleRequest compress request).isSome := by
    rw [h]
    rfl
  have hi := (handleRequest_isSome_iff compress hs request).mp hsm ht
  obtain ⟨s1, h1, -, hm⟩ := (handlePrefetch_spec compress hs request ht).1 hi
  cases h1.symm.trans h
  exact hm hp

theorem Stepped.prefetched (h : Stepped compress t a t') (hs : t.server.Serving)
    (hr : t.request? a = some request) (hty : request.requestType.toInt = prefetch)
    (hp : 0 ≤ request.fileId.toInt) : request.fileId ∈ t'.server.prefetchedFiles := by
  cases h with
  | feed data => cases hr
  | idle ht _ =>
    rw [request?, ht] at hr
    cases hr
  | served ht hh _ h =>
    rw [request?, ht] at hr
    cases hr
    exact h.works.grown.prefetchedFiles ▸ handled_prefetch (hs.awaiting _) hh hty hp
  | handleRequest hh _ =>
    cases hr
    exact handled_prefetch hs hh hty hp
  | runPrefetching h | drainOutput => cases hr

/-- A file asked for in a run counts as prefetched from then on. -/
theorem Requested.prefetched {as : List IncrementalStep} (h : Requested compress t as request)
    (hs : t.server.Serving) (hr : runSteps (step compress) t as = some t')
    (ht : request.requestType.toInt = prefetch) (hp : 0 ≤ request.fileId.toInt) :
    request.fileId ∈ t'.server.prefetchedFiles := by
  obtain ⟨front, a, back, t1, rfl, hf, hrq⟩ := h
  rw [runSteps_append, hf, Option.bind_some, runSteps] at hr
  obtain ⟨t2, hst, hb⟩ := Option.bind_eq_some_iff.mp hr
  have hs1 := runSteps_keeps (fun hs h => (step_stepped hs h).serving hs) hs hf
  have ho := step_stepped hs1 hst
  have hk : ∀ {t t' : IncrementalSession} {a : IncrementalStep},
      t.server.Serving ∧ request.fileId ∈ t.server.prefetchedFiles → t.step compress a = some t' →
        t'.server.Serving ∧ request.fileId ∈ t'.server.prefetchedFiles := by
    intro t t' a h hst
    have ho := step_stepped h.1 hst
    exact ⟨ho.serving h.1, ho.prefetchedFiles h.2⟩
  exact (runSteps_keeps hk ⟨ho.serving hs1, ho.prefetched hs1 hrq ht hp⟩ hb).2

/-- The stream decodes to blocks of the files, each at most once, and with a prefetch to all of a
file. -/
theorem stream_exact {compress : List UInt8 → List UInt8}
    {decompress : List UInt8 → Option (List UInt8)}
    (hlz4 : ∀ data, decompress (compress data) = some data) {specs : List FileSpec}
    (hsize : ∀ spec ∈ specs, spec.size ≤ 2 ^ 43 - 4096)
    (hreads : ∀ spec ∈ specs, spec.source.ReadsBlocks) {as : List IncrementalStep}
    (hmeet : StepsMeet (step compress) RequestInRange (start specs) as) :
    ∃ t, runSteps (step compress) (start specs) as = some t
      ∧ (∃ blocks, StreamExact decompress specs t blocks)
      ∧ ∀ request, Requested compress (start specs) as request →
          request.requestType.toInt = prefetch → 0 ≤ request.fileId.toInt →
            ∃ i spec n t', request.fileId.toInt = (i : Nat) ∧ specs[i]? = some spec
              ∧ runSteps (step compress) t (List.replicate n .runPrefetching) = some t'
              ∧ t'.Streams ∧ t'.AllSent i spec := by
  have hso := (runSteps_isSome (start_serving specs) as).mpr hmeet
  obtain ⟨t, hr⟩ := Option.isSome_iff_exists.mp hso
  have hsn :=
    runSteps_keeps (fun hs h => (step_stepped hs.serving h).sound hs) (start_sound hsize hreads) hr
  refine ⟨t, hr, hsn.stream hsize hreads hlz4, ?_⟩
  intro request hrq ht hp
  have hid := hrq.prefetched (start_serving specs) hr ht hp
  have hlt := (hsn.serving.prefetched _ hid).2
  obtain ⟨i, hi⟩ := Int.eq_ofNat_of_zero_le hp
  have hf : i < t.server.files.length := by omega
  obtain ⟨spec, hsp, -⟩ := hsn.files.spec (getElem?_eq_getElem hf)
  obtain ⟨n, t', hm, hsn', hmt, hsm⟩ := prefetch_ends hsn (Nat.le_refl _)
  rw [← hsm] at hid
  exact ⟨i, spec, n, t', hi, hsp, hm, hsn'.streams, hsn'.allSent hsize hmt hid hi hsp⟩

def plainSpec (size : Int) (h : size ≤ 2 ^ 63 - 4096) (hasTree : Bool) : FileSpec where
  size := size
  size_le := h
  source := ⟨fun _ _ => some [7], fun _ _ => some [9], hasTree⟩
  priorityBlocks := []

theorem plainSpec_readsBlocks {size : Int} (h : size ≤ 2 ^ 63 - 4096) (hasTree : Bool) :
    (plainSpec size h hasTree).source.ReadsBlocks := fun _ _ =>
  ⟨⟨[7], rfl, by decide⟩, ⟨[9], rfl, by decide⟩⟩

theorem stream_exact_prefetched : ∃ t, runSteps (step id) (start [plainSpec 5000 (by decide) true])
    [.handleRequest ⟨2, 0, 0⟩, .serveStep, .drainOutput] = some t
      ∧ (∃ blocks, StreamExact some [plainSpec 5000 (by decide) true] t blocks)
      ∧ ∀ request, Requested id (start [plainSpec 5000 (by decide) true])
          [.handleRequest ⟨2, 0, 0⟩, .serveStep, .drainOutput] request →
          request.requestType.toInt = prefetch → 0 ≤ request.fileId.toInt →
            ∃ i spec n t', request.fileId.toInt = (i : Nat)
              ∧ [plainSpec 5000 (by decide) true][i]? = some spec
              ∧ runSteps (step id) t (List.replicate n .runPrefetching) = some t'
              ∧ t'.Streams ∧ t'.AllSent i spec := by
  have hsm : (runSteps (step id) (start [plainSpec 5000 (by decide) true])
      [.handleRequest ⟨2, 0, 0⟩, .serveStep, .drainOutput]).isSome := by decide +kernel
  refine stream_exact (fun _ => rfl) ?_ ?_ ((runSteps_isSome (start_serving _) _).mp hsm)
  · intro spec hs
    rw [mem_singleton.mp hs]
    decide
  · intro spec hs
    rw [mem_singleton.mp hs]
    exact plainSpec_readsBlocks _ _

/-- The count of the blocks is `2 ^ 31`, which is negative in an `i32`: the file is served without
blocks, and is done at once. -/
theorem stream_exact_not : (plainSpec (2 ^ 43 - 1) (by decide) false).size < 2 ^ 43
    ∧ (plainSpec (2 ^ 43 - 1) (by decide) false).source.ReadsBlocks
    ∧ StepsMeet (step id) RequestInRange (start [plainSpec (2 ^ 43 - 1) (by decide) false])
        [.serveStep, .drainOutput]
    ∧ ¬ ∀ t, runSteps (step id) (start [plainSpec (2 ^ 43 - 1) (by decide) false])
        [.serveStep, .drainOutput] = some t →
          ∃ blocks, StreamExact some [plainSpec (2 ^ 43 - 1) (by decide) false] t blocks := by
  have hd : (runSteps (step id) (start [plainSpec (2 ^ 43 - 1) (by decide) false])
      [.serveStep, .drainOutput]).map (fun t => decodeStream t.drained) = some (some [.done]) := by
    decide +kernel
  have hs : (runSteps (step id) (start [plainSpec (2 ^ 43 - 1) (by decide) false])
      [.serveStep, .drainOutput]).isSome := by decide +kernel
  refine ⟨by decide, plainSpec_readsBlocks _ _, (runSteps_isSome (start_serving _) _).mp hs, ?_⟩
  intro ha
  obtain ⟨t, hrun, hb⟩ := Option.map_eq_some_iff.mp hd
  obtain ⟨blocks, hexact⟩ := ha t hrun
  cases hexact.decoded.symm.trans hb
  obtain ⟨r, hr, -⟩ := hexact.done_last [] [] rfl 0 _ rfl 0 (by decide)
  cases hr

end IncrementalSession

end AdbFastboot
