import AdbFastboot.IncrementalQueue

namespace AdbFastboot

open IncrementalServer List

namespace IncrementalServer

variable {compress : Bytes → Bytes} {s s' : IncrementalServer}

variable {incoming : Bytes}

/-- The search for the magic ends, and stays within the buffer. -/
theorem findMagic_isSome {bsize : Int} (hle : bsize ≤ incoming.length) (hlt : bsize < 2 ^ 31)
    {turns : Nat} {bcur : Int} (hp : 0 ≤ bcur) (hf : bcur + 4 < 2 ^ 31)
    (ht : bsize - 4 - bcur < turns) (hm : 0 < turns) :
    (findMagic incoming bsize turns bcur).isSome := by
  induction turns generalizing bcur with
  | zero => cases hm
  | succ turns ih =>
    unfold findMagic
    rw [checkedI32_of_fits (by omega) hf]
    simp only [Option.bind_eq_bind, Option.bind_some]
    split
    next hi =>
      rw [asUsize_of_nonneg hp (by omega), if_pos (by omega)]
      split
      next => rfl
      rw [checkedI32_of_fits (by omega) (by omega)]
      exact ih (by omega) (by omega) (by omega) (by omega)
    next => rfl

theorem takeRequest_isSome (incoming : Bytes) : (takeRequest incoming).isSome := by
  have hsz : asI32 incoming.length ≤ incoming.length := asI32_le (Int.natCast_nonneg _)
  have hs : asI32 incoming.length < 2 ^ 31 := Int.bmod_lt (by decide)
  have hf : (findMagic incoming (asI32 incoming.length) (incoming.length + 1) 0).isSome :=
    findMagic_isSome hsz hs (Int.le_refl 0) (by decide) (by omega) (Nat.succ_pos _)
  obtain ⟨found, hf⟩ := Option.isSome_iff_exists.mp hf
  unfold takeRequest
  rw [hf]
  simp only [Option.bind_eq_bind, Option.bind_some]
  split <;> rfl

structure Serving (s : IncrementalServer) : Prop where
  files : s.FilesOk
  queue : s.QueueOk
  prefetched : ∀ id ∈ s.prefetchedFiles, 0 ≤ id.toInt ∧ id.toInt < s.files.length

inductive Handled (compress : Bytes → Bytes) (s : IncrementalServer)
    (request : RequestCommand) : IncrementalServer → Prop where
  | ignored : Handled compress s request s
  | destroyed : Handled compress s request { s with destroyed := true }
  | complete : Handled compress s request { s with servingComplete := true }
  | unsent {i : Nat} {b : Int} {result : SendResult} {s' : IncrementalServer} (hi : i < 2 ^ 15)
      (h : DataOut compress i b s result s') : Handled compress s request s'
  | missing {i b : Nat} {f : ServerFile} {s' : IncrementalServer} (hi : i < 2 ^ 15)
      (h : DataOut compress i b s .sent s') (hfile : s'.files[i]? = some f)
      (hb : b < f.sentBlocks.length) :
      Handled compress s request
        { s' with prefetches := .new i f (b + 1) 7 :: s'.prefetches }
  | prefetch {i : Nat} {f : ServerFile} (hid : request.fileId.toInt = i)
      (hfile : s.files[i]? = some f) :
      Handled compress s request
        { s with
          prefetchedFiles := request.fileId :: s.prefetchedFiles
          prefetches := s.prefetches ++ [.full i f] }

def PrefetchInRange (s : IncrementalServer) (request : RequestCommand) : Prop :=
  request.requestType.toInt = prefetch → request.fileId.toInt < s.files.length

theorem fileId_eq {id : Int16} (h : 0 ≤ id.toInt) : ∃ i : Nat, i < 2 ^ 15 ∧ id.toInt = i := by
  obtain ⟨i, hi⟩ := Int.eq_ofNat_of_zero_le h
  have hlt := Int16.toInt_lt id
  exact ⟨i, by omega, hi⟩

/-- A request for a missing block is handled whatever it names. -/
theorem handleMissing_spec (compress : Bytes → Bytes) (hs : s.Serving)
    (request : RequestCommand) (ht : request.requestType.toInt = blockMissing) :
    ∃ s', s.handleRequest compress request = some s' ∧ Handled compress s request s' := by
  unfold handleRequest
  rw [if_neg (by rw [ht]; decide), if_neg (by rw [ht]; decide), if_pos ht]
  by_cases hsk : request.fileId.toInt < 0 ∨ s.files.length ≤ asUsize request.fileId.toInt
      ∨ request.blockIdx.toInt < 0
  · exact ⟨s, if_pos hsk, .ignored⟩
  obtain ⟨i, hi, hid⟩ := fileId_eq (Int.not_lt.mp (not_or.mp hsk).1)
  have hidx : asUsize (i : Int) = i := asUsize_natCast (by omega)
  have hblk := Int32.toInt_lt request.blockIdx
  obtain ⟨b, hb⟩ := Int.eq_ofNat_of_zero_le (Int.not_lt.mp (not_or.mp (not_or.mp hsk).2).2)
  rw [hid, hidx, hb] at hsk
  have hlt : i < s.files.length := by omega
  obtain ⟨f, hf⟩ : ∃ f, s.files[i]? = some f := ⟨_, getElem?_eq_getElem hlt⟩
  have hbd : asUsize (b : Int) = b := asUsize_natCast (by omega)
  simp only [hid, hidx, hb, hbd, if_neg hsk, hf, Option.bind_eq_bind, Option.bind_some]
  by_cases hp : f.sentBlocks.length ≤ b
  · exact ⟨s, if_pos hp, .ignored⟩
  obtain ⟨result, s1, hsd, ho⟩ := sendDataBlock_spec compress hs.files hi (b := b) (by omega) true
  simp only [if_neg hp, hsd, Option.bind_some]
  by_cases hsn : result = .sent
  · subst hsn
    obtain ⟨f1, hf1, hbl⟩ := (ho.emits hi).grown.file hf
    have hl := ServerFile.length_of_blank hbl
    have hsm := (hs.files f (mem_of_getElem? hf)).length_lt
    have hst : checkedI32 ((b : Int) + 1) = some ((b : Int) + 1) :=
      checkedI32_of_fits (by omega) (by omega)
    simp only [hf1, hst, if_true, Option.bind_some]
    exact ⟨_, rfl, .missing hi ho hf1 (by omega)⟩
  · simp only [if_neg hsn]
    exact ⟨s1, rfl, .unsent hi ho⟩

/-- A prefetch is handled if its file id is below the number of files. -/
theorem handlePrefetch_spec (compress : Bytes → Bytes) (hs : s.Serving)
    (request : RequestCommand) (ht : request.requestType.toInt = prefetch) :
    (request.fileId.toInt < s.files.length → ∃ s', s.handleRequest compress request = some s'
        ∧ Handled compress s request s'
        ∧ (0 ≤ request.fileId.toInt → request.fileId ∈ s'.prefetchedFiles))
      ∧ (s.files.length ≤ request.fileId.toInt → s.handleRequest compress request = none) := by
  unfold handleRequest
  rw [if_neg (by rw [ht]; decide), if_neg (by rw [ht]; decide),
    if_neg (by rw [ht]; decide), if_pos ht]
  by_cases hn : request.fileId.toInt < 0
  · refine ⟨fun _ => ⟨s, if_pos hn, .ignored, fun h => absurd h (Int.not_le.mpr hn)⟩, ?_⟩
    intro hp
    omega
  obtain ⟨i, hi, hid⟩ := fileId_eq (Int.not_lt.mp hn)
  have hidx : asUsize (i : Int) = i := asUsize_natCast (by omega)
  rw [if_neg hn]
  by_cases hd : request.fileId ∈ s.prefetchedFiles
  · refine ⟨fun _ => ⟨s, if_pos hd, .ignored, fun _ => hd⟩, ?_⟩
    intro hp
    have hin := (hs.prefetched _ hd).2
    omega
  · rw [if_neg hd, hid, hidx]
    constructor
    · intro hlt
      have hf : s.files[i]? = some (s.files.get ⟨i, by omega⟩) :=
        getElem?_eq_getElem (by omega)
      simp only [hf, Option.bind_eq_bind, Option.bind_some]
      exact ⟨_, rfl, .prefetch hid hf, fun _ => mem_cons_self⟩
    · intro hp
      rw [getElem?_eq_none_iff.mpr (by omega)]
      rfl

variable {request : RequestCommand}

theorem handleRequest_spec (compress : Bytes → Bytes) (hs : s.Serving)
    (hi : s.PrefetchInRange request) :
    ∃ s', s.handleRequest compress request = some s' ∧ Handled compress s request s' := by
  by_cases hp : request.requestType.toInt = prefetch
  · obtain ⟨s', hr, ho, -⟩ := (handlePrefetch_spec compress hs request hp).1 (hi hp)
    exact ⟨s', hr, ho⟩
  by_cases hm : request.requestType.toInt = blockMissing
  · exact handleMissing_spec compress hs request hm
  unfold handleRequest
  split
  next => exact ⟨_, rfl, .destroyed⟩
  split
  next => exact ⟨_, rfl, .complete⟩
  next => exact ⟨_, rfl, .ignored⟩

/-- A request panics only as a prefetch with a file id out of range. -/
theorem handleRequest_isSome_iff (compress : Bytes → Bytes) (hs : s.Serving)
    (request : RequestCommand) :
    (s.handleRequest compress request).isSome ↔ s.PrefetchInRange request := by
  constructor
  · intro hsm ht
    by_contra hp
    rw [(handlePrefetch_spec compress hs request ht).2 (Int.not_lt.mp hp)] at hsm
    cases hsm
  · intro hi
    obtain ⟨s', hr, -⟩ := handleRequest_spec compress hs hi
    rw [hr]
    rfl

/-- A prefetch as it is queued stays within its file. -/
theorem PrefetchOk.new {i : Nat} {f : ServerFile} {start : Int} (count : Int) (hi : i < 2 ^ 15)
    (hp : 0 ≤ start) (hft : start < 2 ^ 31) (hf : f.Ok) (hfl : s.files[i]? = some f) :
    s.PrefetchOk (.new i f start count) := by
  have hl : asI32 f.sentBlocks.length = f.sentBlocks.length :=
    asI32_of_fits (by omega) (by have := hf.length_lt; omega)
  refine ⟨hi, hp, hft, f, hfl, ?_⟩
  show min (min (start + count) (2 ^ 31 - 1)) (asI32 f.sentBlocks.length) ≤ _
  rw [hl]
  exact Int.min_le_right _ _

theorem Grown.files_length (h : Grown s s') : s'.files.length = s.files.length := by
  have hm := congrArg List.length h.blank
  simpa only [length_map] using hm

theorem Grown.prefetchedFiles (h : Grown s s') : s'.prefetchedFiles = s.prefetchedFiles := by
  have hr := congrArg IncrementalServer.prefetchedFiles h.rest
  exact hr

theorem Serving.congr (hs : s.Serving) (hf : s'.files = s.files)
    (hq : s'.prefetches = s.prefetches) (hpre : s'.prefetchedFiles = s.prefetchedFiles) :
    s'.Serving where
  files := by
    unfold FilesOk
    rw [hf]
    exact hs.files
  queue := by
    intro p hp
    rw [hq] at hp
    exact (hs.queue p hp).of_files hf
  prefetched := by
    rw [hpre, hf]
    exact hs.prefetched

theorem Serving.grown (hs : s.Serving) (hg : Grown s s') (ho : s'.FilesOk) (hq : s'.QueueOk) :
    s'.Serving where
  files := ho
  queue := hq
  prefetched := by
    rw [hg.prefetchedFiles, hg.files_length]
    exact hs.prefetched

theorem QueueOk.emits (hq : s.QueueOk) (h : Emits compress s s') : s'.QueueOk := by
  intro p hp
  rw [h.prefetches] at hp
  exact (hq p hp).grown h.grown

/-- A handled request keeps the server in service. -/
theorem Serving.handled (hs : s.Serving) (h : Handled compress s request s') : s'.Serving := by
  cases h with
  | ignored => exact hs
  | destroyed | complete => exact hs.congr rfl rfl rfl
  | unsent hi h =>
    exact hs.grown (h.emits hi).grown ((h.emits hi).filesOk hs.files) (hs.queue.emits (h.emits hi))
  | @missing i b f s1 hi h hfl hb =>
    have he := h.emits hi
    have ho := he.filesOk hs.files
    have hf := ho f (List.mem_of_getElem? hfl)
    refine hs.grown (he.grown.trans (.requeue s1 _)) ho ?_
    intro p hp
    obtain rfl | hp := List.mem_cons.mp hp
    · exact .new 7 hi (by omega) (by have := hf.length_lt; omega) hf hfl
    · exact (hs.queue.emits he p hp).of_files rfl
  | @prefetch i f hid hfl =>
    have hlt := (List.getElem?_eq_some_iff.mp hfl).1
    have hsm := Int16.toInt_lt request.fileId
    refine ⟨hs.files, ?_, ?_⟩
    · intro p hp
      obtain hp | hp := List.mem_append.mp hp
      · exact (hs.queue p hp).of_files rfl
      · obtain rfl := List.mem_singleton.mp hp
        exact .new _ (by omega) (Int.le_refl 0) (by decide)
          (hs.files f (List.mem_of_getElem? hfl)) hfl
    · intro id hm
      obtain rfl | hm := List.mem_cons.mp hm
      · show 0 ≤ request.fileId.toInt ∧ request.fileId.toInt < s.files.length
        omega
      · exact hs.prefetched id hm

theorem Serving.of_unwritten (hs : s.Serving) (h : s'.unwritten = s.unwritten) : s'.Serving := by
  have hs' : s'.unwritten.Serving := by
    rw [h]
    exact hs.congr rfl rfl rfl
  exact hs'.congr rfl rfl rfl

theorem Serving.loop {budget : Int} (hs : s.Serving) (h : LoopOut compress s budget s') :
    s'.Serving := hs.grown h.works.grown (h.works.filesOk hs.files) h.queue

theorem notifyDone_unwritten (s : IncrementalServer) :
    s.notifyDone.unwritten = { s.unwritten with doneSent := s.notifyDone.doneSent } := by
  unfold notifyDone
  split
  next =>
    have hs := send_unwritten (s.record ⟨ResponseHeader.doneMarker, []⟩)
      ResponseHeader.doneMarker.encode true
    change { s.sendDone.unwritten with doneSent := true } = _
    rw [sendDone, hs]
    rfl
  next => rfl

theorem flushIfBlocking_unwritten (s : IncrementalServer) : s.flushIfBlocking.unwritten = s.unwritten := by
  unfold flushIfBlocking
  split
  next => exact flush_unwritten s
  next => rfl

theorem Serving.notifyDone (hs : s.Serving) : s.notifyDone.Serving := by
  have hs' : s.notifyDone.unwritten.Serving := by
    rw [notifyDone_unwritten]
    exact hs.congr rfl rfl rfl
  exact hs'.congr rfl rfl rfl

def awaiting (s : IncrementalServer) (incoming : Bytes) : IncrementalServer :=
  { s.notifyDone.flushIfBlocking with incoming := incoming }

theorem Serving.awaiting (hs : s.Serving) (incoming : Bytes) : (s.awaiting incoming).Serving := by
  have hs' := hs.notifyDone.of_unwritten (flushIfBlocking_unwritten s.notifyDone)
  exact hs'.congr rfl rfl rfl

theorem awaiting_files (s : IncrementalServer) (incoming : Bytes) :
    (s.awaiting incoming).files = s.files := by
  have hf := congrArg files (flushIfBlocking_unwritten s.notifyDone)
  have hd := congrArg files (notifyDone_unwritten s)
  exact hf.trans hd

theorem serveStep_incoming (s : IncrementalServer) :
    s.notifyDone.flushIfBlocking.incoming = s.incoming := by
  have hf := congrArg incoming (flushIfBlocking_unwritten s.notifyDone)
  have hd := congrArg incoming (notifyDone_unwritten s)
  exact hf.trans hd

variable {forward : Bytes}

theorem serveStep_of_none (ht : takeRequest s.incoming = some (none, forward, incoming)) :
    s.serveStep compress = ((s.awaiting incoming).runPrefetching compress).map fun s' =>
          (forward, !s'.destroyed, s') := by
  unfold serveStep
  dsimp only
  rw [serveStep_incoming, ht, Option.map_eq_bind]
  rfl

theorem serveStep_of_some (ht : takeRequest s.incoming = some (some request, forward, incoming)) :
    s.serveStep compress = ((s.awaiting incoming).handleRequest compress request).bind fun s1 =>
          (s1.runPrefetching compress).map fun s' => (forward, !s'.destroyed, s') := by
  unfold serveStep
  dsimp only
  rw [serveStep_incoming, ht]
  simp only [Option.map_eq_bind]
  rfl

end IncrementalServer

structure IncrementalSession where
  server : IncrementalServer
  drained : Bytes

inductive IncrementalStep where
  | feed (data : Bytes)
  | serveStep
  | handleRequest (request : RequestCommand)
  | runPrefetching
  | drainOutput

namespace IncrementalSession

def start (specs : List FileSpec) : IncrementalSession :=
  ⟨IncrementalServer.new (specs.map FileSpec.file), []⟩

def step (compress : Bytes → Bytes) (t : IncrementalSession) :
    IncrementalStep → Option IncrementalSession
  | .feed data => some { t with server := t.server.feed data }
  | .serveStep => (t.server.serveStep compress).map fun r => { t with server := r.2.2 }
  | .handleRequest request =>
    (t.server.handleRequest compress request).map fun s => { t with server := s }
  | .runPrefetching => (t.server.runPrefetching compress).map fun s => { t with server := s }
  | .drainOutput =>
    some ⟨t.server.drainOutput.2, t.drained ++ t.server.drainOutput.1⟩

def request? (t : IncrementalSession) : IncrementalStep → Option RequestCommand
  | .serveStep => (takeRequest t.server.incoming).bind (·.1)
  | .handleRequest request => some request
  | _ => none

def RequestInRange (t : IncrementalSession) (a : IncrementalStep) : Prop :=
  ∀ request, t.request? a = some request → t.server.PrefetchInRange request

inductive Stepped (compress : Bytes → Bytes) (t : IncrementalSession) :
    IncrementalStep → IncrementalSession → Prop where
  | feed (data : Bytes) : Stepped compress t (.feed data) { t with server := t.server.feed data }
  | idle {forward incoming : Bytes} {s' : IncrementalServer}
      (htake : takeRequest t.server.incoming = some (none, forward, incoming))
      (h : IncrementalServer.LoopOut compress (t.server.awaiting incoming) 128 s') :
      Stepped compress t .serveStep { t with server := s' }
  | served {request : RequestCommand} {forward incoming : Bytes} {s₁ s' : IncrementalServer}
      (htake : takeRequest t.server.incoming
        = some (some request, forward, incoming))
      (hhandle : (t.server.awaiting incoming).handleRequest compress request = some s₁)
      (h₁ : IncrementalServer.Handled compress (t.server.awaiting incoming) request s₁)
      (h : IncrementalServer.LoopOut compress s₁ 128 s') :
      Stepped compress t .serveStep { t with server := s' }
  | handleRequest {request : RequestCommand} {s' : IncrementalServer}
      (hhandle : t.server.handleRequest compress request = some s')
      (h : IncrementalServer.Handled compress t.server request s') :
      Stepped compress t (.handleRequest request) { t with server := s' }
  | runPrefetching {s' : IncrementalServer}
      (h : IncrementalServer.LoopOut compress t.server 128 s') :
      Stepped compress t .runPrefetching { t with server := s' }
  | drainOutput : Stepped compress t .drainOutput
      ⟨t.server.drainOutput.2, t.drained ++ t.server.drainOutput.1⟩

variable {compress : Bytes → Bytes} {t t' : IncrementalSession} {a : IncrementalStep}

open IncrementalServer

/-- `serve_step` handles the request it finds, and prefetches. -/
theorem serveStep_spec (hs : t.server.Serving) (hi : t.RequestInRange .serveStep) :
    ∃ t', t.step compress .serveStep = some t' ∧ Stepped compress t .serveStep t' := by
  obtain ⟨⟨request, forward, incoming⟩, ht⟩ :=
    Option.isSome_iff_exists.mp (takeRequest_isSome t.server.incoming)
  have hs0 := hs.awaiting incoming
  cases request with
  | none =>
    obtain ⟨s', hl, ho⟩ := runPrefetching_spec compress hs0.files hs0.queue
    refine ⟨_, ?_, .idle ht ho⟩
    rw [step, serveStep_of_none ht, hl]
    rfl
  | some request =>
    have hr : (t.server.awaiting incoming).PrefetchInRange request := by
      unfold PrefetchInRange
      rw [awaiting_files]
      refine hi request ?_
      rw [request?, ht]
      rfl
    obtain ⟨s1, hh, h1⟩ := handleRequest_spec compress hs0 hr
    have hs1 := hs0.handled h1
    obtain ⟨s', hl, ho⟩ := runPrefetching_spec compress hs1.files hs1.queue
    refine ⟨_, ?_, .served ht hh h1 ho⟩
    rw [step, serveStep_of_some ht, hh, Option.bind_some, hl]
    rfl

/-- A step whose request is in range returns. -/
theorem step_spec (compress : Bytes → Bytes) (hs : t.server.Serving) (hi : t.RequestInRange a) :
    ∃ t', t.step compress a = some t' ∧ Stepped compress t a t' := by
  cases a with
  | feed data => exact ⟨_, rfl, .feed data⟩
  | serveStep => exact serveStep_spec hs hi
  | handleRequest request =>
    obtain ⟨s', hh, h⟩ := handleRequest_spec compress hs (hi request rfl)
    refine ⟨_, ?_, .handleRequest hh h⟩
    rw [step, hh]
    rfl
  | runPrefetching =>
    obtain ⟨s', hl, ho⟩ := runPrefetching_spec compress hs.files hs.queue
    refine ⟨_, ?_, .runPrefetching ho⟩
    rw [step, hl]
    rfl
  | drainOutput => exact ⟨_, rfl, .drainOutput⟩

/-- A step panics only on a request out of range. -/
theorem step_isSome_iff (compress : Bytes → Bytes) (a : IncrementalStep)
    (hs : t.server.Serving) : (t.step compress a).isSome ↔ t.RequestInRange a := by
  constructor
  · intro hsm request hr
    cases a with
    | feed data => cases hr
    | serveStep =>
      obtain ⟨⟨taken, forward, incoming⟩, ht⟩ :=
        Option.isSome_iff_exists.mp (takeRequest_isSome t.server.incoming)
      rw [request?, ht, Option.bind_some] at hr
      subst hr
      rw [step, serveStep_of_some ht, Option.isSome_map] at hsm
      have hh := Option.isSome_of_isSome_bind hsm
      have hrn := (handleRequest_isSome_iff compress (hs.awaiting incoming) request).mp hh
      unfold PrefetchInRange at hrn
      rw [awaiting_files] at hrn
      exact hrn
    | handleRequest r =>
      cases hr
      rw [step, Option.isSome_map] at hsm
      exact (handleRequest_isSome_iff compress hs request).mp hsm
    | runPrefetching | drainOutput => cases hr
  · intro hi
    obtain ⟨t', hst, -⟩ := step_spec compress hs hi
    rw [hst]
    rfl

theorem Stepped.serving (h : Stepped compress t a t') (hs : t.server.Serving) : t'.server.Serving := by
  cases h with
  | feed data => exact hs.congr rfl rfl rfl
  | idle _ h => exact (hs.awaiting _).loop h
  | served _ _ h1 h => exact ((hs.awaiting _).handled h1).loop h
  | handleRequest _ h => exact hs.handled h
  | runPrefetching h => exact hs.loop h
  | drainOutput => exact (hs.of_unwritten (flush_unwritten _)).congr rfl rfl rfl

theorem start_serving (specs : List FileSpec) : (start specs).server.Serving where
  files := by
    intro f hf
    obtain ⟨spec, -, rfl⟩ := mem_map.mp hf
    exact spec.file_ok
  queue := by
    intro p hp
    cases hp
  prefetched := by
    intro id hi
    cases hi

theorem step_stepped (hs : t.server.Serving) (h : t.step compress a = some t') :
    Stepped compress t a t' := by
  have hi := (step_isSome_iff compress a hs).mp (by rw [h]; rfl)
  obtain ⟨t1, hst, ho⟩ := step_spec compress hs hi
  cases hst.symm.trans h
  exact ho

/-- A server survives exactly the runs in which a prefetch request names a file that is served. -/
theorem runSteps_isSome (hs : t.server.Serving) (as : List IncrementalStep) :
    (runSteps (step compress) t as).isSome ↔ StepsMeet (step compress) RequestInRange t as := by
  have hc : ∀ {t : IncrementalSession} {a : IncrementalStep}, t.server.Serving →
      ((t.step compress a).isSome ↔ t.RequestInRange a) := fun hs => step_isSome_iff compress _ hs
  exact runSteps_isSome_iff hc (fun hs h => (step_stepped hs h).serving hs) hs

/-- A run survives exactly if each prefetch it handles names a file of the server. -/
theorem run_survives_iff (compress : List UInt8 → List UInt8) (specs : List FileSpec)
    (as : List IncrementalStep) :
    (runSteps (step compress) (start specs) as).isSome
      ↔ StepsMeet (step compress) RequestInRange (start specs) as :=
  runSteps_isSome (start_serving specs) as

/-- A server of one file that is asked to prefetch the file after it. -/
theorem run_survives_not : ¬ (runSteps (step id)
    (start [⟨1, by decide, ⟨fun _ _ => some [7], fun _ _ => some [], false⟩, []⟩])
    [.feed [0x49, 0x4e, 0x43, 0x52, 0, 2, 0, 1, 0, 0, 0, 0], .serveStep]).isSome := by decide

end IncrementalSession

end AdbFastboot
