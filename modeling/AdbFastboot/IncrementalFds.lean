import Mathlib.Data.List.Induction
import AdbFastboot.IncrementalOrder
import AdbFastboot.IncrementalScan

namespace AdbFastboot

open List IncrementalServer

def readBufferSize : Nat := 128 * 1024

namespace IncrementalServer

variable {compress : Bytes → Bytes} {s s' : IncrementalServer}

theorem Grown.incoming (h : Grown s s') : s'.incoming = s.incoming := by
  have hr := congrArg IncrementalServer.incoming h.rest
  exact hr

variable {request : RequestCommand}

theorem Handled.incoming (h : Handled compress s request s') : s'.incoming = s.incoming := by
  cases h with
  | ignored | destroyed | complete => rfl
  | unsent hi h | missing hi h => exact (h.emits hi).grown.incoming
  | prefetch => rfl

/-- A request that does not panic is handled as specified. -/
theorem handleRequest_handled (hs : s.Serving)
    (h : s.handleRequest compress request = some s') : Handled compress s request s' := by
  have hi := (handleRequest_isSome_iff compress hs request).mp (by rw [h]; rfl)
  obtain ⟨s1, h1, ho⟩ := handleRequest_spec compress hs hi
  cases h1.symm.trans h
  exact ho

theorem runPrefetching_out (hs : s.Serving) (h : s.runPrefetching compress = some s') :
    LoopOut compress s 128 s' := by
  obtain ⟨s1, h1, ho⟩ := runPrefetching_spec compress hs.files hs.queue
  cases h1.symm.trans h
  exact ho

end IncrementalServer

/-- A write to the output: what the scan has passed, a copy of what is held when a poll times out,
or what is held at the end. -/
inductive FdWrite where
  | scanned (bytes : Bytes)
  | copied (bytes : Bytes)
  | flushed (bytes : Bytes)
deriving DecidableEq, Repr

def FdWrite.bytes : FdWrite → Bytes
  | scanned bytes | copied bytes | flushed bytes => bytes

def FdWrite.moved : FdWrite → Bytes
  | scanned bytes | flushed bytes => bytes
  | copied _ => []

def FdWrite.isCopy : FdWrite → Bool
  | copied _ => true
  | scanned _ | flushed _ => false

/-- Where `serve_fds` is: `scan` and `poll` are in `read_request_fd`, `work` is behind it. -/
inductive FdPhase where
  | top
  | scan (blocking : Bool)
  | poll (blocking : Bool)
  | work
  | stopped
  | closed
deriving DecidableEq, Repr

structure FdServe where
  server : IncrementalServer
  phase : FdPhase
  doneSent : Bool
  stream : Bytes
  shipped : Bytes
  writes : List FdWrite
  requests : List RequestCommand
  taken : Bytes

/-- The server goes on by itself, or a poll or the read after it returns. -/
inductive FdStep where
  | go
  | ready (n : Nat)
  | readFails
  | timeout
  | pollFails
deriving DecidableEq, Repr

namespace FdServe

def start (specs : List FileSpec) (stream : Bytes) : FdServe where
  server := IncrementalServer.new (specs.map FileSpec.file)
  phase := .top
  doneSent := false
  stream := stream
  shipped := "OKAY".toUTF8.data.toList
  writes := []
  requests := []
  taken := []

variable (t : FdServe)

def shipOutput : FdServe :=
  { t with server := { t.server with output := [] }, shipped := t.shipped ++ t.server.output }

def notifyDone : FdServe :=
  if !t.doneSent && t.server.prefetches.isEmpty && t.server.allFilesSent then
    shipOutput { t with server := t.server.sendDone, doneSent := true }
  else t

def flushIfBlocking : FdServe :=
  if t.server.prefetches.isEmpty then shipOutput { t with server := t.server.flush } else t

def enterRead : FdServe :=
  let t := t.notifyDone.flushIfBlocking
  { t with phase := .scan t.server.prefetches.isEmpty }

def forward (bytes : Bytes) : FdServe :=
  if bytes = [] then t else { t with writes := t.writes ++ [.scanned bytes] }

def scan (compress : Bytes → Bytes) (blocking : Bool) : Option FdServe := do
  let (request, bytes, incoming) ← IncrementalServer.takeRequest t.server.incoming
  let t := { t.forward bytes with server := { t.server with incoming := incoming } }
  match request with
  | none => pure { t with phase := .poll blocking }
  | some request =>
    let t := { t with requests := t.requests ++ [request] }
    if request.requestType.toInt = destroy then pure { t with phase := .stopped }
    else
      let server ← t.server.handleRequest compress request
      pure (shipOutput { t with server := server, phase := .work })

def disconnect : FdServe :=
  { t with writes := t.writes ++ [.flushed t.server.incoming], phase := .closed }

def ready (blocking : Bool) (n : Nat) : FdServe :=
  let capacity := readBufferSize - t.server.incoming.length
  let data := t.stream.take (min (n + 1) capacity)
  if data = [] then t.disconnect
  else { t with
    server := t.server.feed data
    stream := t.stream.drop data.length
    taken := t.taken ++ data
    phase := .scan blocking }

def timeout (blocking : Bool) : FdServe :=
  if blocking && t.server.servingComplete then t.disconnect
  else { t with writes := t.writes ++ [.copied t.server.incoming], phase := .work }

def work (compress : Bytes → Bytes) : Option FdServe := do
  let server ← t.server.runPrefetching compress
  pure (shipOutput { t with server := server, phase := .top })

def step (compress : Bytes → Bytes) (t : FdServe) : FdStep → Option FdServe
  | .go =>
    match t.phase with
    | .top => some t.enterRead
    | .scan blocking => t.scan compress blocking
    | .work => t.work compress
    | _ => none
  | .ready n =>
    match t.phase with
    | .poll blocking => some (t.ready blocking n)
    | _ => none
  | .timeout =>
    match t.phase with
    | .poll blocking => some (t.timeout blocking)
    | _ => none
  | .readFails | .pollFails =>
    match t.phase with
    | .poll _ => some t.disconnect
    | _ => none

variable {compress : Bytes → Bytes} {t t' : FdServe} {a : FdStep}

def moved (t : FdServe) : Bytes := t.writes.flatMap FdWrite.moved

/-- What the device has sent so far is `items` before what the server holds. The bytes of it that are
not part of a request were moved to the output, once and in order, and the requests were returned. -/
structure Forwards (stream : Bytes) (items : List ScanItem) (t : FdServe) : Prop where
  stream : t.taken ++ t.stream = stream
  reads : Reads t.taken items t.server.incoming
  requests : t.requests = ScanItem.requests items
  moved : t.moved = ScanItem.passed items ++ if t.phase = .closed then t.server.incoming else []

structure Reading (t : FdServe) : Prop where
  fits : t.server.incoming.length ≤ readBufferSize
  held : (∃ b, t.phase = .poll b) ∨ t.phase = .closed → Held t.server.incoming

structure View where
  incoming : Bytes
  stream : Bytes
  writes : List FdWrite
  requests : List RequestCommand
  taken : Bytes

def view (t : FdServe) : View := ⟨t.server.incoming, t.stream, t.writes, t.requests, t.taken⟩

variable {stream : Bytes} {items : List ScanItem} {blocking : Bool}

theorem Forwards.of_view (h : Forwards stream items t) (hv : t'.view = t.view)
    (hphase : t.phase ≠ .closed) (hphase' : t'.phase ≠ .closed) : Forwards stream items t' := by
  obtain ⟨hi, hs, hw, hr, ht⟩ := View.mk.inj hv
  refine ⟨?_, ?_, ?_, ?_⟩
  · rw [ht, hs, h.stream]
  · rw [ht, hi]
    exact h.reads
  · rw [hr, h.requests]
  · have hm := h.moved
    rw [if_neg hphase] at hm
    rw [if_neg hphase', FdServe.moved, hw]
    exact hm

section

variable (h : Forwards stream items t) (hphase : t.phase ≠ .closed)
include h hphase

theorem Forwards.disconnect : Forwards stream items t.disconnect := by
  have hm := h.moved
  rw [if_neg hphase, append_nil, FdServe.moved] at hm
  refine ⟨h.stream, h.reads, h.requests, ?_⟩
  have hf : t.disconnect.moved = t.moved ++ t.server.incoming := by
    rw [FdServe.moved, FdServe.disconnect, flatMap_append, FdServe.moved]
    exact congrArg _ (append_nil _)
  rw [hf, FdServe.moved, hm]
  rfl

theorem Forwards.timeout : Forwards stream items (t.timeout blocking) := by
  unfold FdServe.timeout
  split
  next => exact h.disconnect hphase
  have hm := h.moved
  rw [if_neg hphase, append_nil, FdServe.moved] at hm
  refine ⟨h.stream, h.reads, h.requests, ?_⟩
  rw [if_neg (by simp), append_nil, FdServe.moved, flatMap_append, hm]
  exact append_nil _

theorem Forwards.ready {n : Nat} : Forwards stream items (t.ready blocking n) := by
  unfold FdServe.ready
  dsimp only
  split
  next => exact h.disconnect hphase
  have hm := h.moved
  rw [if_neg hphase] at hm
  refine ⟨?_, h.reads.more _, h.requests, ?_⟩
  · rw [append_assoc, prefix_iff_eq_append.mp ( take_prefix _ _), h.stream]
  · rw [if_neg (by simp)]
    exact hm

end

theorem forward_moved (t : FdServe) (bytes : Bytes) : (t.forward bytes).moved = t.moved ++ bytes := by
  unfold FdServe.forward
  split
  next hn => rw [hn, append_nil]
  rw [FdServe.moved, flatMap_append]
  exact congrArg _ (append_nil _)

/-- What a scan takes from the buffer is forwarded or a request. -/
theorem Forwards.scanned {bytes rest : Bytes} {more : List ScanItem}
    (h : Forwards stream items t) (hphase : t.phase ≠ .closed) (hphase' : t'.phase ≠ .closed)
    (hrs : Reads t.server.incoming more rest) (hb : ScanItem.passed more = bytes)
    (hv : t'.view = ⟨rest, t.stream, (t.forward bytes).writes,
      t.requests ++ ScanItem.requests more, t.taken⟩) : Forwards stream (items ++ more) t' := by
  obtain ⟨hi, hsm, hw, hr, ht⟩ := View.mk.inj hv
  have hm := h.moved
  rw [if_neg hphase, append_nil] at hm
  refine ⟨?_, ?_, ?_, ?_⟩
  · rw [ht, hsm, h.stream]
  · rw [ht, hi]
    exact h.reads.trans hrs
  · rw [hr, h.requests, ScanItem.requests_append]
  · have hs : t'.moved = (t.forward bytes).moved := by
      rw [FdServe.moved, hw, FdServe.moved]
    rw [if_neg hphase', append_nil, hs, forward_moved, hm, ScanItem.passed_append, hb]

theorem forward_same (t : FdServe) (bytes : Bytes) : (t.forward bytes).stream = t.stream
    ∧ (t.forward bytes).requests = t.requests ∧ (t.forward bytes).taken = t.taken := by
  unfold FdServe.forward
  split <;> exact ⟨rfl, rfl, rfl⟩

inductive Scanned (compress : Bytes → Bytes) (blocking : Bool) (t : FdServe) :
    FdServe → Prop where
  | held {bytes rest : Bytes} (htaken : Taken t.server.incoming none bytes rest) :
      Scanned compress blocking t
        { t.forward bytes with
          server := { t.server with incoming := rest }
          phase := .poll blocking }
  | stopped {request : RequestCommand} {bytes rest : Bytes}
      (htaken : Taken t.server.incoming (some request) bytes rest) :
      Scanned compress blocking t
        { t.forward bytes with
          server := { t.server with incoming := rest }
          requests := (t.forward bytes).requests ++ [request]
          phase := .stopped }
  | handled {request : RequestCommand} {bytes rest : Bytes} {s' : IncrementalServer}
      (htaken : Taken t.server.incoming (some request) bytes rest)
      (h : IncrementalServer.Handled compress { t.server with incoming := rest } request s') :
      Scanned compress blocking t
        (shipOutput { t.forward bytes with
          server := s'
          requests := (t.forward bytes).requests ++ [request]
          phase := .work })

/-- A scan takes the bytes up to a request, and the request, off the buffer. -/
theorem scan_spec (hs : t.server.Serving) (hf : t.server.incoming.length ≤ readBufferSize)
    (h : t.scan compress blocking = some t') : Scanned compress blocking t t' := by
  have hl : t.server.incoming.length < 2 ^ 31 := by
    unfold readBufferSize at hf
    omega
  obtain ⟨request, bytes, rest, hta, ht⟩ := takeRequest_spec hl
  rw [scan, hta] at h
  cases request with
  | none =>
    cases h
    exact .held ht
  | some request =>
    dsimp only [Option.bind_eq_bind, Option.bind_some] at h
    split at h
    next =>
      cases h
      exact .stopped ht
    obtain ⟨s', hh, h⟩ := Option.bind_eq_some_iff.mp h
    cases h
    have hs' : IncrementalServer.Serving { t.server with incoming := rest } := hs.congr rfl rfl rfl
    exact .handled ht (handleRequest_handled hs' hh)

theorem Scanned.view (h : Scanned compress blocking t t') :
    ∃ request bytes rest, Taken t.server.incoming request bytes rest ∧ t'.phase ≠ .closed
      ∧ t'.view = ⟨rest, t.stream, (t.forward bytes).writes, t.requests ++ request.toList, t.taken⟩ := by
  cases h with
  | @held bytes rest htk =>
    obtain ⟨hsm, hrq, hsa⟩ := forward_same t bytes
    refine ⟨none, bytes, rest, htk, (by simp), ?_⟩
    rw [FdServe.view, hsm, hrq, hsa]
    exact congrArg (fun r => View.mk rest t.stream _ r t.taken) (append_nil _).symm
  | @stopped request bytes rest htk =>
    obtain ⟨hsm, hrq, hsa⟩ := forward_same t bytes
    refine ⟨some request, bytes, rest, htk, (by simp), ?_⟩
    rw [FdServe.view, hsm, hrq, hsa]
    rfl
  | @handled request bytes rest s' htk h =>
    obtain ⟨hsm, hrq, hsa⟩ := forward_same t bytes
    refine ⟨some request, bytes, rest, htk, (by intro h; cases h), ?_⟩
    have hin := h.incoming
    rw [FdServe.view, shipOutput, hsm, hrq, hsa]
    rw [hin]
    rfl

theorem Forwards.scan (h : Forwards stream items t) (hphase : t.phase ≠ .closed)
    (hs : Scanned compress blocking t t') : ∃ items', Forwards stream items' t' := by
  obtain ⟨request, bytes, rest, ht, hphase', hv⟩ := hs.view
  obtain ⟨more, hrs, hp, hr⟩ := ht.reads
  rw [← hr] at hv
  exact ⟨items ++ more, h.scanned hphase hphase' hrs hp hv⟩

theorem notifyDone_unwritten (t : FdServe) : t.notifyDone.server.unwritten = t.server.unwritten := by
  unfold FdServe.notifyDone
  split
  next =>
    exact send_unwritten (t.server.record ⟨ResponseHeader.doneMarker, []⟩) _ true
  next => rfl

theorem flushIfBlocking_unwritten (t : FdServe) :
    t.flushIfBlocking.server.unwritten = t.server.unwritten := by
  unfold FdServe.flushIfBlocking
  split
  next => exact flush_unwritten t.server
  next => rfl

theorem enterRead_unwritten (t : FdServe) : t.enterRead.server.unwritten = t.server.unwritten :=
  (flushIfBlocking_unwritten _).trans (notifyDone_unwritten t)

theorem enterRead_view (t : FdServe) : t.enterRead.view = t.view := by
  have hi : t.enterRead.server.incoming = t.server.incoming := by
    have h := congrArg incoming (enterRead_unwritten t)
    exact h
  have hrs : t.enterRead.stream = t.stream ∧ t.enterRead.writes = t.writes
      ∧ t.enterRead.requests = t.requests ∧ t.enterRead.taken = t.taken := by
    unfold enterRead FdServe.flushIfBlocking FdServe.notifyDone
    split <;> split <;> exact ⟨rfl, rfl, rfl, rfl⟩
  obtain ⟨hs, hw, hr, ht⟩ := hrs
  rw [FdServe.view, hi, hs, hw, hr, ht]
  rfl

structure Sound (stream : Bytes) (t : FdServe) : Prop where
  serving : t.server.Serving
  reading : t.Reading
  forwards : ∃ items, Forwards stream items t

theorem Reading.of_scan (hin : t'.server.incoming = t.server.incoming)
    (hft : t.server.incoming.length ≤ readBufferSize)
    (hphase : t'.phase = .top ∨ t'.phase = .work ∨ ∃ b, t'.phase = .scan b) : t'.Reading where
  fits := by
    rw [hin]
    exact hft
  held := by
    rintro (⟨b, hpl⟩ | hcl)
    · rw [hpl] at hphase
      simp at hphase
    · rw [hcl] at hphase
      simp at hphase

section

variable (h : Sound stream t)
include h

theorem Sound.enterRead (hphase : t.phase = .top) : Sound stream t.enterRead := by
  obtain ⟨items, hf⟩ := h.forwards
  have hv := enterRead_view t
  refine ⟨h.serving.of_unwritten (enterRead_unwritten t), ?_, items, ?_⟩
  · exact .of_scan (View.mk.inj hv).1 h.reading.fits (.inr (.inr ⟨_, rfl⟩))
  · exact hf.of_view hv (by simp [hphase]) (by intro h; cases h)

/-- A scan keeps the server sound. -/
theorem Sound.scan (hphase : t.phase = .scan blocking)
    (hsc : t.scan compress blocking = some t') : Sound stream t' := by
  obtain ⟨items, hfr⟩ := h.forwards
  have hout := scan_spec h.serving h.reading.fits hsc
  have hop : t.phase ≠ .closed := by
    rw [hphase]
    intro h
    cases h
  obtain ⟨request, bytes, rest, htk, -, hvw⟩ := hout.view
  obtain ⟨more, hrs, -, -⟩ := htk.reads
  have hsh : rest.length ≤ t.server.incoming.length := by
    rw [← hrs.bytes_eq, length_append]
    omega
  have hin := (View.mk.inj hvw).1
  have hft : t'.server.incoming.length ≤ readBufferSize := by
    rw [hin]
    exact Nat.le_trans hsh h.reading.fits
  refine ⟨?_, ⟨hft, ?_⟩, hfr.scan hop hout⟩
  · cases hout with
    | held | stopped => exact h.serving.congr rfl rfl rfl
    | @handled _ _ rest _ _ hhn =>
      have hs : IncrementalServer.Serving { t.server with incoming := rest } :=
        h.serving.congr rfl rfl rfl
      exact (hs.handled hhn).congr rfl rfl rfl
  · cases hout with
    | held htk =>
      intro _
      cases htk with
      | held hhl => exact hhl
    | stopped | handled => rintro (⟨b, h⟩ | h) <;> cases h

theorem Sound.work (hphase : t.phase = .work) (hw : t.work compress = some t') : Sound stream t' := by
  obtain ⟨items, hf⟩ := h.forwards
  obtain ⟨s', hr, hs⟩ := Option.bind_eq_some_iff.mp hw
  cases hs
  have ho := runPrefetching_out h.serving hr
  have hi := ho.works.grown.incoming
  refine ⟨(h.serving.loop ho).congr rfl rfl rfl, ?_, items, ?_⟩
  · exact .of_scan hi h.reading.fits (.inl rfl)
  · refine hf.of_view ?_ (by simp [hphase]) (by intro h; cases h)
    exact congrArg (fun i => View.mk i t.stream t.writes t.requests t.taken) hi

section

variable (hphase : t.phase = .poll blocking)
include hphase

theorem Sound.disconnect : Sound stream t.disconnect := by
  obtain ⟨items, hf⟩ := h.forwards
  refine ⟨h.serving, ⟨h.reading.fits, fun _ => h.reading.held (.inl ⟨blocking, hphase⟩)⟩, items, ?_⟩
  exact hf.disconnect (by simp [hphase])

theorem Sound.timeout : Sound stream (t.timeout blocking) := by
  obtain ⟨items, hf⟩ := h.forwards
  have ho : Forwards stream items (t.timeout blocking) := hf.timeout (by simp [hphase])
  unfold FdServe.timeout at ho ⊢
  split
  next => exact h.disconnect hphase
  next hs =>
    rw [if_neg hs] at ho
    exact ⟨h.serving, .of_scan rfl h.reading.fits (.inr (.inl rfl)), items, ho⟩

theorem Sound.ready {n : Nat} : Sound stream (t.ready blocking n) := by
  obtain ⟨items, hf⟩ := h.forwards
  have ho : Forwards stream items (t.ready blocking n) :=
    hf.ready (by simp [hphase])
  unfold FdServe.ready at ho ⊢
  dsimp only at ho ⊢
  split
  next => exact h.disconnect hphase
  next hs =>
    rw [if_neg hs] at ho
    refine ⟨h.serving.congr rfl rfl rfl, ⟨?_, ?_⟩, items, ho⟩
    · have hft := h.reading.fits
      show (t.server.incoming ++ _).length ≤ readBufferSize
      rw [length_append, length_take]
      omega
    · rintro (⟨b, h⟩ | h) <;> cases h

end

/-- Every step keeps the server sound. -/
theorem Sound.step (hs : t.step compress a = some t') : Sound stream t' := by
  unfold FdServe.step at hs
  cases a with
  | go =>
    dsimp only at hs
    split at hs
    next hphase =>
      cases hs
      exact h.enterRead hphase
    next hphase => exact h.scan hphase hs
    next hphase => exact h.work hphase hs
    next => cases hs
  | ready n =>
    dsimp only at hs
    split at hs
    next hphase =>
      cases hs
      exact h.ready hphase
    next => cases hs
  | timeout =>
    dsimp only at hs
    split at hs
    next hphase =>
      cases hs
      exact h.timeout hphase
    next => cases hs
  | readFails | pollFails =>
    dsimp only at hs
    split at hs
    next hphase =>
      cases hs
      exact h.disconnect hphase
    next => cases hs

end

theorem start_sound (specs : List FileSpec) (stream : Bytes) : Sound stream (start specs stream) := by
  refine ⟨IncrementalSession.start_serving specs, .of_scan rfl (Nat.zero_le _) (.inl rfl), [], ?_⟩
  exact ⟨rfl, .nil _, rfl, rfl⟩

/-- A step only adds writes. A poll that times out adds one copy of the held bytes, unless it ends the
connection, and no other step adds a copy. -/
structure Wrote (a : FdStep) (t t' : FdServe) (ws : List FdWrite) : Prop where
  writes : t'.writes = t.writes ++ ws
  copied : a = .timeout → t'.phase ≠ .closed →
    Held t.server.incoming ∧ ws = [.copied t.server.incoming]
  count : ws.countP FdWrite.isCopy = if a = .timeout ∧ t'.phase ≠ .closed then 1 else 0

/-- The steps of a run to `t` but for the one that ended the connection. -/
def openSteps (as : List FdStep) (t : FdServe) : List FdStep :=
  if t.phase = .closed then as.dropLast else as

/-- Each poll of a run that times out and leaves the connection open writes a copy of the bytes held at
the time, behind what was written before it, and the run writes no other copies. -/
structure CopiesAt (compress : Bytes → Bytes) (t0 : FdServe) (as : List FdStep) (t : FdServe) :
    Prop where
  place : ∀ front t1, front ++ [.timeout] <+: openSteps as t →
    runSteps (step compress) t0 front = some t1 → Held t1.server.incoming
      ∧ t1.writes ++ [.copied t1.server.incoming] <+: t.writes
  number : t.writes.countP FdWrite.isCopy = (openSteps as t).count .timeout

theorem CopiesAt.step {t0 t1 : FdServe} {as : List FdStep} {ws : List FdWrite}
    (h : CopiesAt compress t0 as t1) (hr : runSteps (FdServe.step compress) t0 as = some t1)
    (hp : t1.phase ≠ .closed) (hw : Wrote a t1 t ws) : CopiesAt compress t0 (as ++ [a]) t := by
  obtain ⟨hpl, hnm⟩ := h
  rw [openSteps, if_neg hp] at hpl hnm
  have hpre : t1.writes <+: t.writes := ⟨ws, hw.writes.symm⟩
  by_cases hc : t.phase = .closed
  · have ho : openSteps (as ++ [a]) t = as := by rw [openSteps, if_pos hc, dropLast_concat]
    refine ⟨?_, ?_⟩
    · rw [ho]
      exact fun front t2 hf h2 => (hpl front t2 hf h2).imp_right (·.trans hpre)
    · rw [ho, hw.writes, countP_append, hw.count, hnm, if_neg fun h => h.2 hc, Nat.add_zero]
  · have ho : openSteps (as ++ [a]) t = as ++ [a] := if_neg hc
    refine ⟨?_, ?_⟩
    · intro front t2 hf h2
      rw [ho] at hf
      obtain he | hf := prefix_concat_iff.mp hf
      · obtain ⟨rfl, ha⟩ := append_inj' he rfl
        cases hr.symm.trans h2
        obtain ⟨hh, rfl⟩ := hw.copied (cons.inj ha).1.symm hc
        exact ⟨hh, hw.writes ▸ prefix_rfl⟩
      · exact (hpl front t2 hf h2).imp_right (·.trans hpre)
    · rw [ho, hw.writes, countP_append, hw.count, hnm, count_append, count_singleton]
      simp [hc]

end FdServe

end AdbFastboot
