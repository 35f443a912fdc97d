import AdbFastboot.AdbLink
import AdbFastboot.IncrementalExact
import AdbFastboot.IncrementalFds

namespace AdbFastboot

open IncrementalServer DeviceFrame

section

open List

def countAt (p : Nat → Bool) (l : List Bool) : Nat :=
  (List.range l.length).countP fun b => l[b]? == some false && p b

theorem countAt_cons (p : Nat → Bool) (x : Bool) (l : List Bool) :
    countAt p (x :: l) = countAt (fun b => p (b + 1)) l + if x = false ∧ p 0 = true then 1 else 0 := by
  rw [countAt, length_cons, range_succ_eq_map, countP_cons, countP_map]
  congr 1
  cases x <;> cases p 0 <;> rfl

/-- No more marks are set than there were unset ones to set. -/
theorem count_false_le {p : Nat → Bool} {l l' : List Bool} (hl : l'.length = l.length)
    (h : ∀ b, l[b]? = some false → l'[b]? = some true → p b = true) :
    l.count false ≤ l'.count false + countAt p l := by
  induction l generalizing p l' with
  | nil => exact Nat.zero_le _
  | cons x l ih =>
    obtain ⟨x', l', rfl⟩ : ∃ x' m, l' = x' :: m := exists_cons_of_length_eq_add_one hl
    have hr := ih (Nat.succ.inj hl) (fun b hb hb' => h (b + 1) hb hb')
    rw [countAt_cons]
    cases x with
    | true =>
      rw [count_cons_of_ne (by decide)]
      have hm := count_le_count_cons (a := false) (b := x') (l := l')
      omega
    | false =>
      rw [count_cons_self]
      cases x' with
      | true =>
        rw [if_pos ⟨rfl, h 0 rfl rfl⟩, count_cons_of_ne (by decide)]
        omega
      | false =>
        rw [count_cons_self]
        omega

theorem sum_map_le {α : Type} {g : α → Nat} {h : Nat → α → Nat} {l l' : List α}
    (hl : l'.length = l.length)
    (hle : ∀ i a a', l[i]? = some a → l'[i]? = some a' → g a ≤ g a' + h i a) :
    (l.map g).sum ≤ (l'.map g).sum + (l.mapIdx h).sum := by
  induction l generalizing h l' with
  | nil => exact Nat.zero_le _
  | cons a l ih =>
    obtain ⟨a', l', rfl⟩ : ∃ a' m, l' = a' :: m := exists_cons_of_length_eq_add_one hl
    have hr := ih (h := fun i => h (i + 1)) (Nat.succ.inj hl)
      (fun i b b' hb hb' => hle (i + 1) b b' hb hb')
    have hh := hle 0 a a' rfl rfl
    rw [mapIdx_cons, map_cons, map_cons, sum_cons, sum_cons, sum_cons]
    omega

namespace IncrementalServer

variable {compress : Bytes → Bytes} {s s' : IncrementalServer}

def owed (s : IncrementalServer) : Nat :=
  (s.files.mapIdx fun i file =>
    countAt (fun b => s.prefetches.any fun p => p.fileIndex == i && p.names file b)
      file.sentBlocks).sum

/-- What was sent in between was owed before. -/
theorem unsent_le_owed (hg : Grown s s') (hbc : ∀ i b, s'.Sent i b → s.Sent i b ∨ s.Named i b) :
    s.unsent ≤ s'.unsent + s.owed := by
  refine sum_map_le ?_ ?_
  · have hl := congrArg length hg.blank
    rwa [length_map, length_map] at hl
  · intro i f f' hf hf'
    obtain ⟨g, hg', hbl⟩ := hg.file hf
    cases hg'.symm.trans hf'
    refine count_false_le (ServerFile.length_of_blank hbl) ?_
    intro b hb hb'
    obtain ⟨f1, hf1, hfg⟩ | ⟨p, hp, hi, f1, hf1, hn⟩ := hbc i b ⟨_, hf', hb'⟩
    · cases hf.symm.trans hf1
      cases hb.symm.trans hfg
    cases hf.symm.trans hf1
    refine any_eq_true.mpr ⟨p, hp, ?_⟩
    rw [Bool.and_eq_true, beq_iff_eq]
    exact ⟨hi, hn⟩

/-- A queue that owes less than a budget is emptied in one go. -/
theorem LoopOut.empties (h : LoopOut compress s 128 s') (ho : s.owed < 128) : s'.prefetches = [] := by
  have hle := unsent_le_owed h.works.grown h.back
  exact h.ends.resolve_right (by omega)

end IncrementalServer

end

open IncrementalServer ResponseHeader List

/-- The places of `serve_over_transport` between its calls. -/
inductive ServePoint where
  | top
  | flush
  | scan
  | work
deriving DecidableEq, Repr

/-- Where `serve_over_transport` is. In `send_framed` it has chunks to send, and goes on at a point
behind it; if it fails, the handshake ends the server. -/
inductive ServePhase where
  | before (point : ServePoint)
  | send (handshake : Bool) (chunks : List Bytes) (next : ServePoint)
  | ack (handshake : Bool) (chunks : List Bytes) (next : ServePoint)
  /-- In `recv_message` for a request. -/
  | recv
  | stopped (result : Bool)
deriving DecidableEq, Repr

structure TransportServe where
  ids : StreamIds
  server : IncrementalServer
  phase : ServePhase
  doneSent : Bool
  out : Outbox
  written : Bytes
  produced : Bytes
  /-- A part of it was given up. -/
  failed : Bool

/-- The server goes on by itself, or `recv_message` returns. -/
inductive ServeStep where
  | go
  | recv (message : Except Text AdbPacket)

namespace TransportServe

def okayBytes : Bytes := [0x4f, 0x4b, 0x41, 0x59]

def framedSize : Nat := maxPayloadV2.toNat - 24

def start (ids : StreamIds) (specs : List FileSpec) (faults : List (Option Text)) :
    TransportServe where
  ids := ids
  server := IncrementalServer.new (specs.map FileSpec.file)
  phase := .send true (chunksOf framedSize okayBytes) .top
  doneSent := false
  out := ⟨faults, []⟩
  written := []
  produced := []
  failed := false

variable (t : TransportServe)

def shipFramed (next : ServePoint) : TransportServe :=
  let (output, server) := t.server.drainOutput
  if output = [] then { t with server := server, phase := .before next }
  else { t with
    server := server
    produced := t.produced ++ output
    phase := .send false (chunksOf framedSize output) next }

def giveUp (handshake : Bool) (next : ServePoint) : TransportServe :=
  { t with phase := if handshake then .stopped false else .before next, failed := true }

def notifyDone : TransportServe :=
  if !t.doneSent && t.server.prefetches.isEmpty && t.server.allFilesSent then
    shipFramed { t with server := t.server.sendDone, doneSent := true } .flush
  else { t with phase := .before .flush }

def took (forward incoming : Bytes) : TransportServe :=
  { t with server := { t.server with incoming := incoming }, written := t.written ++ forward }

def scan (compress : Bytes → Bytes) : Option TransportServe := do
  let (request, forward, incoming) ← IncrementalServer.takeRequest t.server.incoming
  let t := t.took forward incoming
  match request with
  | none => pure { t with phase := .recv }
  | some request =>
    if request.requestType.toInt = destroy then pure { t with phase := .stopped true }
    else
      let server ← t.server.handleRequest compress request
      pure (shipFramed { t with server := server } .work)

def work (compress : Bytes → Bytes) : Option TransportServe := do
  let server ← t.server.runPrefetching compress
  pure (shipFramed { t with server := server } .top)

def sendChunk (handshake : Bool) (chunk : Bytes) (chunks : List Bytes)
    (next : ServePoint) : TransportServe :=
  match (Outbox.send (AdbPacket.new aWrte t.ids.localId t.ids.remoteId chunk)).runOn t.out with
  | (.ok _, out) => { t with out := out, phase := .ack handshake chunks next }
  | (.error _, out) => giveUp { t with out := out } handshake next

def isOkay (p : AdbPacket) : Bool :=
  p.header.command == aOkay && p.header.arg0 == t.ids.remoteId && p.header.arg1 == t.ids.localId

def isWrte (p : AdbPacket) : Bool :=
  p.header.command == aWrte && p.header.arg0 == t.ids.remoteId && p.header.arg1 == t.ids.localId

def takePayload (p : AdbPacket) : Except TransportServe TransportServe :=
  match (Outbox.send (AdbPacket.new aOkay t.ids.localId t.ids.remoteId [])).runOn t.out with
  | (.ok _, out) => .ok { t with out := out, server := t.server.feed p.payload }
  | (.error _, out) => .error { t with out := out }

def recvAck (handshake : Bool) (chunks : List Bytes) (next : ServePoint) :
    Except Text AdbPacket → TransportServe
  | .error _ => t.giveUp handshake next
  | .ok p =>
    if t.isOkay p then { t with phase := .send handshake chunks next }
    else if t.isWrte p then
      match t.takePayload p with
      | .ok t => t
      | .error t => t.giveUp handshake next
    else t.giveUp handshake next

def disconnect : TransportServe :=
  { t with written := t.written ++ t.server.incoming, phase := .stopped true }

def recvRequest : Except Text AdbPacket → TransportServe
  | .error _ => t.disconnect
  | .ok p =>
    if t.isWrte p then
      match t.takePayload p with
      | .ok t => { t with phase := .before .scan }
      | .error t => t.disconnect
    else if p.header.command = aOkay then { t with phase := .before .scan }
    else t.disconnect

def step (compress : Bytes → Bytes) (t : TransportServe) : ServeStep → Option TransportServe
  | .go =>
    match t.phase with
    | .before .top => some t.notifyDone
    | .before .flush => some (shipFramed { t with server := t.server.flush } .scan)
    | .before .scan => t.scan compress
    | .before .work => t.work compress
    | .send _ [] next => some { t with phase := .before next }
    | .send handshake (chunk :: chunks) next => some (t.sendChunk handshake chunk chunks next)
    | _ => none
  | .recv message =>
    match t.phase with
    | .ack handshake chunks next => some (t.recvAck handshake chunks next message)
    | .recv => some (t.recvRequest message)
    | _ => none

def rest : ServePhase → Bytes
  | .send _ chunks _ | .ack _ chunks _ => chunks.flatten
  | _ => []

def point : ServePhase → Option ServePoint
  | .before point => some point
  | .send _ _ next | .ack _ _ next => some next
  | .recv => some .scan
  | .stopped _ => none

def wrteData (sent : List AdbPacket) : Bytes :=
  (AdbPacket.wrtePayloads sent).flatten

/-- What the server has produced is a chunk after the other of the blocks it has emitted, the done
marker among them if it was sent. -/
structure Recorded (s : IncrementalServer) (produced : Bytes) (doneSent : Bool) : Prop where
  streams : IncrementalSession.Streams ⟨s, produced⟩
  marker : doneSent = true → ⟨ResponseHeader.doneMarker, []⟩ ∈ s.emitted

/-- The server at a moment at which `left` of what it has produced is to be sent. -/
structure Shipping (t : TransportServe) (left : Bytes) : Prop where
  serving : t.server.Serving
  recorded : Recorded t.server t.produced t.doneSent
  fits : t.server.incoming.length < 2 ^ 31
  sent : t.failed = false → wrteData t.out.sent ++ left = okayBytes ++ t.produced

structure Waits (t : TransportServe) (point : ServePoint) : Prop where
  queue : point ≠ .work →
    t.server.prefetches = [] ∨ IncrementalServer.RequestReady t.server.incoming
  done : point = .flush ∨ point = .scan → t.server.prefetches = [] →
    t.server.allFilesSent = true → t.doneSent = true

structure Sound (t : TransportServe) : Prop where
  shipping : t.Shipping (rest t.phase)
  flushed : t.server.pending = [] ∧ t.server.output = []
  waits : ∀ p, point t.phase = some p → t.Waits p
  recv : t.phase = .recv → t.server.prefetches = []

variable {compress : Bytes → Bytes} {t t' : TransportServe} {a : ServeStep}

theorem Sound.shippingAt {phase : ServePhase} (h : t.Sound) (hph : t.phase = phase) :
    t.Shipping (rest phase) := hph ▸ h.shipping

theorem Waits.congr {p : ServePoint} (h : t.Waits p)
    (hp : t'.server.prefetches = t.server.prefetches)
    (hi : t'.server.incoming = t.server.incoming) (hf : t'.server.files = t.server.files)
    (hd : t'.doneSent = t.doneSent) : t'.Waits p := by
  have ha : t'.server.allFilesSent = t.server.allFilesSent := by
    rw [allFilesSent, hf]
    rfl
  constructor
  · rw [hp, hi]
    exact h.queue
  · rw [hp, ha, hd]
    exact h.done

theorem Sound.goto {phase : ServePhase} (h : t.Sound) (hrs : rest phase = rest t.phase)
    (hpn : ∀ p, point phase = some p → point t.phase = some p) (hr : phase ≠ .recv) :
    Sound { t with phase := phase } where
  shipping := by
    have hs := h.shipping
    rw [← hrs] at hs
    exact ⟨hs.serving, hs.recorded, hs.fits, hs.sent⟩
  flushed := h.flushed
  waits p hp := (h.waits p (hpn p hp)).congr rfl rfl rfl rfl
  recv hph := absurd hph hr

variable (s : IncrementalServer)

theorem flush_pending : s.flush.pending = [] := by
  unfold flush
  split
  next hn => exact hn
  next => rfl

theorem drainOutput_same : s.drainOutput.2.prefetches = s.prefetches
    ∧ s.drainOutput.2.incoming = s.incoming ∧ s.drainOutput.2.files = s.files := by
  have hs := flush_unwritten s
  have hp := congrArg prefetches hs
  have hi := congrArg incoming hs
  have hf := congrArg files hs
  exact ⟨hp, hi, hf⟩

variable {s s' : IncrementalServer} {next : ServePoint} {produced : Bytes} {doneSent : Bool}
  {chunks : List Bytes} {message : Except Text AdbPacket}

theorem Recorded.congr (h : Recorded s produced doneSent) (he : s'.emitted = s.emitted)
    (ho : s'.output = s.output) (hp : s'.pending = s.pending) :
    Recorded s' produced doneSent := by
  obtain ⟨before, hs⟩ := h.streams
  refine ⟨⟨before, hs.congr he ho hp⟩, ?_⟩
  rw [he]
  exact h.marker

/-- Draining moves the output to what was produced. -/
theorem Recorded.drain (h : Recorded s produced doneSent) :
    Recorded s.drainOutput.2 (produced ++ s.drainOutput.1) doneSent := by
  obtain ⟨before, hs⟩ := h.streams
  obtain ⟨more, hs⟩ := hs.drain
  refine ⟨⟨before ++ more, hs⟩, ?_⟩
  intro hd
  show _ ∈ s.flush.emitted
  rw [flush_emitted]
  exact h.marker hd

theorem act_emitted {r : Response} (h : IncrementalServer.Act compress s s') (hr : r ∈ s.emitted) :
    r ∈ s'.emitted := by
  cases h with
  | send hi h =>
    cases h with
    | skipped => exact hr
    | failed _ ht =>
      obtain ⟨hashes, he, -⟩ := ht.emitted
      rw [he]
      exact mem_append_left _ hr
    | sent _ _ _ ht =>
      obtain ⟨hashes, he, -⟩ := ht.emitted
      rw [emitData_emitted, he]
      exact mem_append_left _ (mem_append_left _ hr)
  | flush =>
    rw [flush_emitted]
    exact hr
  | done =>
    rw [sendDone_emitted]
    exact mem_append_left _ hr
  | keep => exact hr

/-- Whatever the server does, its output stays on record. -/
theorem Recorded.acts (h : Recorded s produced doneSent)
    (ha : IncrementalServer.Acts compress s s') : Recorded s' produced doneSent := by
  obtain ⟨before, hs⟩ := h.streams
  refine ⟨⟨before, ha.invariant IncrementalServer.Act.streams hs⟩, ?_⟩
  intro hd
  exact ha.invariant act_emitted (h.marker hd)

theorem Shipping.drain (h : t.Shipping []) : IncrementalServer.Serving t.server.drainOutput.2
    ∧ t.server.drainOutput.2.incoming.length < 2 ^ 31 := by
  have hs := h.serving.of_unwritten (flush_unwritten t.server)
  refine ⟨hs.congr rfl rfl rfl, ?_⟩
  rw [(drainOutput_same t.server).2.1]
  exact h.fits

/-- Shipping what was drained keeps the server sound. -/
theorem shipFramed_sound (h : t.Shipping []) (hw : t.Waits next) : (t.shipFramed next).Sound := by
  obtain ⟨hs, hft⟩ := h.drain
  have hr := h.recorded.drain
  obtain ⟨hpr, hi, hf⟩ := drainOutput_same t.server
  unfold shipFramed
  dsimp only
  split
  next hn =>
    rw [hn, append_nil] at hr
    refine ⟨⟨hs, hr, hft, h.sent⟩, ⟨flush_pending _, rfl⟩, ?_, ?_⟩
    · intro p hp
      cases hp
      exact hw.congr hpr hi hf rfl
    · intro hph
      cases hph
  next =>
    refine ⟨⟨hs, hr, hft, ?_⟩, ⟨flush_pending _, rfl⟩, ?_, ?_⟩
    · intro ho
      have hsn := h.sent ho
      rw [append_nil] at hsn
      show wrteData t.out.sent ++ (chunksOf framedSize _).flatten = _
      rw [chunksOf_flatten (by decide), hsn, append_assoc]
    · intro p hp
      cases hp
      exact hw.congr hpr hi hf rfl
    · intro hph
      cases hph

/-- A send that failed leaves the rest unsent and the server sound. -/
theorem giveUp_sound {left : Bytes} (h : t.Shipping left)
    (hf : t.server.pending = [] ∧ t.server.output = []) (hw : t.Waits next)
    (handshake : Bool) (out : Outbox) : (giveUp { t with out := out } handshake next).Sound := by
  refine ⟨⟨h.serving, h.recorded, h.fits, ?_⟩, hf, ?_, ?_⟩
  · intro ho
    cases ho
  · intro p hp
    cases handshake with
    | true => cases hp
    | false =>
      cases hp
      exact hw.congr rfl rfl rfl rfl
  · intro hph
    cases handshake <;> cases hph

theorem Shipping.acts {left : Bytes} (h : t.Shipping left) (hs : s'.Serving)
    (hi : s'.incoming.length < 2 ^ 31) (ha : IncrementalServer.Acts compress t.server s') :
    Shipping { t with server := s' } left := ⟨hs, h.recorded.acts ha, hi, h.sent⟩

/-- Announcing the end keeps the server sound. -/
theorem Sound.notifyDone (h : t.Sound) (hph : t.phase = .before .top) : t.notifyDone.Sound := by
  have hs := h.shippingAt hph
  have hw := h.waits .top (by rw [hph]; rfl)
  unfold TransportServe.notifyDone
  split
  next =>
    have hsm := send_unwritten (t.server.record ⟨doneMarker, []⟩) doneMarker.encode true
    have hsg := IncrementalServer.Serving.of_unwritten (s := t.server.record ⟨doneMarker, []⟩)
      (hs.serving.congr rfl rfl rfl) hsm
    have hi : t.server.sendDone.incoming = t.server.incoming := by
      have h := congrArg incoming hsm
      exact h
    have hpr : t.server.sendDone.prefetches = t.server.prefetches := by
      have h := congrArg prefetches hsm
      exact h
    obtain ⟨before, hst⟩ := hs.recorded.streams
    have hmr : ⟨doneMarker, []⟩ ∈ t.server.sendDone.emitted := by
      rw [sendDone_emitted]
      exact mem_append_right _ mem_cons_self
    refine shipFramed_sound ⟨hsg, ⟨⟨before, hst.send ⟨_, []⟩ true⟩, fun _ => hmr⟩, ?_,
      hs.sent⟩ ⟨?_, ?_⟩
    · rw [hi]
      exact hs.fits
    · intro _
      rw [hpr, hi]
      exact hw.queue (by decide)
    · intro _ _ _
      rfl
  next hn =>
    refine ⟨⟨hs.serving, hs.recorded, hs.fits, hs.sent⟩, h.flushed, ?_, ?_⟩
    · intro p hp
      cases hp
      refine ⟨fun _ => hw.queue (by decide), ?_⟩
      intro _ hm ha
      by_contra hf
      rw [Bool.not_eq_true] at hf
      exact hn (by rw [hf, hm, ha]; rfl)
    · intro hph
      cases hph

theorem Sound.flush (h : t.Sound) (hph : t.phase = .before .flush) :
    (shipFramed { t with server := t.server.flush } .scan).Sound := by
  have hsh := h.shippingAt hph
  have hw := h.waits .flush (by rw [hph]; rfl)
  have hs := flush_unwritten t.server
  have hi := congrArg incoming hs
  have hp := congrArg prefetches hs
  have hf := congrArg files hs
  have hw' : Waits { t with server := t.server.flush } .flush :=
    hw.congr hp hi hf rfl
  have ha : IncrementalServer.Acts id t.server t.server.flush := .single (.flush _)
  refine shipFramed_sound (hsh.acts (hsh.serving.of_unwritten hs) ?_ ha)
    ⟨fun _ => hw'.queue (by decide), fun _ => hw'.done (.inl rfl)⟩
  rw [show t.server.flush.incoming = t.server.incoming from hi]
  exact hsh.fits

/-- A scan of the input keeps the server sound. -/
theorem Sound.scan (h : t.Sound) (hph : t.phase = .before .scan)
    (hs : t.scan compress = some t') : t'.Sound := by
  have hsh := h.shippingAt hph
  have hw := h.waits .scan (by rw [hph]; rfl)
  obtain ⟨request, forward, rest, ht, htk⟩ := takeRequest_spec hsh.fits
  obtain ⟨more, hrs, -, -⟩ := htk.reads
  have hf : rest.length < 2 ^ 31 := by
    have hl := congrArg length hrs.bytes_eq
    rw [length_append] at hl
    have hf := hsh.fits
    omega
  have hsg : IncrementalServer.Serving { t.server with incoming := rest } :=
    hsh.serving.congr rfl rfl rfl
  have hr : Recorded { t.server with incoming := rest } t.produced t.doneSent :=
    hsh.recorded.congr rfl rfl rfl
  rw [TransportServe.scan, ht] at hs
  cases request with
  | none =>
    cases hs
    have hm : t.server.prefetches = [] := by
      refine (hw.queue (by decide)).resolve_right ?_
      rw [IncrementalServer.RequestReady, ht]
      exact Bool.false_ne_true
    refine ⟨⟨hsg, hr, hf, hsh.sent⟩, h.flushed, ?_, fun _ => hm⟩
    intro p hp
    cases hp
    exact ⟨fun _ => .inl hm, hw.done⟩
  | some request =>
    dsimp only [Option.bind_eq_bind, Option.bind_some] at hs
    split at hs
    next =>
      cases hs
      refine ⟨⟨hsg, hr, hf, hsh.sent⟩, h.flushed, ?_, ?_⟩
      · intro p hp
        cases hp
      · intro hph
        cases hph
    next =>
      obtain ⟨s', hhd, hs⟩ := Option.bind_eq_some_iff.mp hs
      cases hs
      have hh := handleRequest_handled hsg hhd
      have hi := hh.incoming
      have hb : (t.took forward rest).Shipping [] := ⟨hsg, hr, hf, hsh.sent⟩
      refine shipFramed_sound (hb.acts (hsg.handled hh) ?_ hh.acts) ⟨?_, ?_⟩
      · rw [hi]
        exact hf
      · intro hwr
        exact absurd rfl hwr
      · rintro (h | h) <;> cases h

/-- Prefetching that owes less than a budget keeps the server sound. -/
theorem Sound.work (h : t.Sound) (hph : t.phase = .before .work)
    (how : t.server.owed < 128 ∨ IncrementalServer.RequestReady t.server.incoming)
    (hw : t.work compress = some t') : t'.Sound := by
  have hs := h.shippingAt hph
  obtain ⟨s', hrun, hsm⟩ := Option.bind_eq_some_iff.mp hw
  cases hsm
  have ho := runPrefetching_out hs.serving hrun
  have hi := ho.works.grown.incoming
  refine shipFramed_sound (hs.acts (hs.serving.loop ho) ?_ ho.works.acts) ⟨?_, ?_⟩
  · rw [hi]
    exact hs.fits
  · intro _
    refine how.imp ho.empties ?_
    intro hr
    rw [hi]
    exact hr
  · rintro (h | h) <;> cases h

theorem send_cases (p : AdbPacket) (out : Outbox) :
    ∃ result out', (Outbox.send p).runOn out = (result, out') ∧ out'.sent = out.sent ++ [p] := by
  rw [Outbox.send, StateCall.runOn_ofRun]
  split <;> exact ⟨_, _, rfl, rfl⟩

variable (sent : List AdbPacket)

theorem wrteData_wrte (arg0 arg1 : UInt32) (chunk : Bytes) :
    wrteData (sent ++ [AdbPacket.new aWrte arg0 arg1 chunk]) = wrteData sent ++ chunk := by
  rw [wrteData, wrtePayloads_wrte, flatten_concat]
  rfl

/-- Sending a chunk keeps the server sound. -/
theorem Sound.sendChunk {handshake : Bool} {chunk : Bytes} (h : t.Sound)
    (hph : t.phase = .send handshake (chunk :: chunks) next) :
    (t.sendChunk handshake chunk chunks next).Sound := by
  have hs := h.shippingAt hph
  have hw := h.waits next (by rw [hph]; rfl)
  obtain ⟨result, out', hsn, hout⟩ :=
    send_cases (AdbPacket.new aWrte t.ids.localId t.ids.remoteId chunk) t.out
  unfold TransportServe.sendChunk
  rw [hsn]
  cases result with
  | error e => exact giveUp_sound hs h.flushed hw handshake out'
  | ok u =>
    refine ⟨⟨hs.serving, hs.recorded, hs.fits, ?_⟩, h.flushed, ?_, ?_⟩
    · intro ho
      rw [hout, wrteData_wrte, append_assoc, ← hs.sent ho]
      rfl
    · intro p hp
      cases hp
      exact hw.congr rfl rfl rfl rfl
    · intro hr
      cases hr

theorem Waits.feed {q : ServePoint} {data : Bytes} {out : Outbox} (h : t.Waits q)
    (hf : (t.server.incoming ++ data).length < 2 ^ 31) :
    Waits { t with out := out, server := t.server.feed data } q where
  queue hq := (h.queue hq).imp_right fun hr => hr.append hf
  done := h.done

/-- A payload that arrives is acknowledged and fed, or the send has failed. -/
theorem takePayload_spec {p : AdbPacket} (h : t.Sound)
    (hf : (t.server.incoming ++ p.payload).length < 2 ^ 31) :
    ∃ out, wrteData out.sent = wrteData t.out.sent ∧ (t.takePayload p = .error { t with out := out }
        ∨ t.takePayload p = .ok { t with out := out, server := t.server.feed p.payload }
          ∧ Sound { t with out := out, server := t.server.feed p.payload }) := by
  obtain ⟨result, out', hsn, hout⟩ :=
    send_cases (AdbPacket.new aOkay t.ids.localId t.ids.remoteId []) t.out
  have hsm : wrteData out'.sent = wrteData t.out.sent := by rw [hout, wrteData, wrtePayloads_okay, wrteData]
  refine ⟨out', hsm, ?_⟩
  unfold takePayload
  rw [hsn]
  cases result with
  | error e => exact .inl rfl
  | ok u =>
    have hs := h.shipping
    refine .inr ⟨rfl, ⟨hs.serving.congr rfl rfl rfl, hs.recorded.congr rfl rfl rfl, hf, ?_⟩,
      h.flushed, fun q hq => (h.waits q hq).feed hf, h.recv⟩
    intro ho
    rw [hsm]
    exact hs.sent ho

/-- Waiting for an acknowledgement keeps the server sound. -/
theorem Sound.recvAck {handshake : Bool} (h : t.Sound) (hph : t.phase = .ack handshake chunks next)
    (hf : ∀ p, message = .ok p → (t.server.incoming ++ p.payload).length < 2 ^ 31) :
    (t.recvAck handshake chunks next message).Sound := by
  have hw := h.waits next (by rw [hph]; rfl)
  have hg := giveUp_sound h.shipping h.flushed hw handshake
  unfold TransportServe.recvAck
  split
  next => exact hg t.out
  next p =>
    split
    next =>
      refine h.goto (by rw [hph]; rfl) (fun q hq => ?_) (by simp)
      rw [hph]
      exact hq
    split
    next =>
      obtain ⟨out, -, he | ⟨ho, hs⟩⟩ := takePayload_spec h (hf p rfl)
      · rw [he]
        exact hg out
      · rw [ho]
        exact hs
    next => exact hg t.out

section

variable (h : t.Sound) (hph : t.phase = .recv)
include h hph

theorem Sound.disconnect {out : Outbox} (hout : wrteData out.sent = wrteData t.out.sent) :
    (TransportServe.disconnect { t with out := out }).Sound := by
  have hs := h.shippingAt hph
  refine ⟨⟨hs.serving, hs.recorded, hs.fits, ?_⟩, h.flushed, ?_, ?_⟩
  · intro ho
    have hsn := hs.sent ho
    rw [← hout] at hsn
    exact hsn
  · intro p hp
    cases hp
  · intro hr
    cases hr

theorem Sound.scanAgain : Sound { t with phase := .before .scan } := by
  refine h.goto (by rw [hph]; rfl) (fun p hp => ?_) (by simp)
  rw [hph]
  exact hp

/-- Receiving at rest keeps the server sound. -/
theorem Sound.recvRequest
    (hf : ∀ p, message = .ok p → (t.server.incoming ++ p.payload).length < 2 ^ 31) :
    (t.recvRequest message).Sound := by
  unfold TransportServe.recvRequest
  split
  next => exact h.disconnect hph rfl
  next p =>
    split
    next =>
      obtain ⟨out, hout, he | ⟨ho, hs⟩⟩ := takePayload_spec h (hf p rfl)
      · rw [he]
        exact h.disconnect hph hout
      · rw [ho]
        exact hs.scanAgain hph
    next =>
      split
      next => exact h.scanAgain hph
      next => exact h.disconnect hph rfl

end

/-- Prefetching is called with fewer than 128 blocks to send, unless a request stands in the input;
and the input stays below `2 ^ 31` bytes. -/
def Prompt (t : TransportServe) : ServeStep → Prop
  | .go => t.phase = .before .work →
    t.server.owed < 128 ∨ IncrementalServer.RequestReady t.server.incoming
  | .recv (.ok p) => (t.server.incoming ++ p.payload).length < 2 ^ 31
  | .recv (.error _) => True

instance Prompt.decidable (t : TransportServe) : ∀ a, Decidable (t.Prompt a)
  | .go => inferInstanceAs (Decidable (_ → _))
  | .recv (.ok _) => inferInstanceAs (Decidable (_ < _))
  | .recv (.error _) => isTrue trivial

/-- Every prompt step keeps the server sound. -/
theorem Sound.step (h : t.Sound) (hpr : t.Prompt a) (hs : t.step compress a = some t') :
    t'.Sound := by
  unfold TransportServe.step at hs
  split at hs
  next =>
    split at hs
    next hph =>
      cases hs
      exact h.notifyDone hph
    next hph =>
      cases hs
      exact h.flush hph
    next hph => exact h.scan hph hs
    next hph => exact h.work hph (hpr hph) hs
    next handshake next hph =>
      cases hs
      refine h.goto (by rw [hph]; rfl) (fun p hp => ?_) (by simp)
      rw [hph]
      exact hp
    next hph =>
      cases hs
      exact h.sendChunk hph
    next => cases hs
  next message =>
    have hf : ∀ p, message = .ok p → (t.server.incoming ++ p.payload).length < 2 ^ 31 := by
      rintro p rfl
      exact hpr
    split at hs
    next hph =>
      cases hs
      exact h.recvAck hph hf
    next hph =>
      cases hs
      exact h.recvRequest hph hf
    next => cases hs

theorem start_sound (ids : StreamIds) (specs : List FileSpec) (faults : List (Option Text)) :
    (start ids specs faults).Sound := by
  have hr : Recorded (start ids specs faults).server [] false :=
    ⟨IncrementalSession.start_streams specs, fun h => absurd h Bool.false_ne_true⟩
  refine ⟨⟨IncrementalSession.start_serving specs, hr, Nat.two_pow_pos 31, ?_⟩, ⟨rfl, rfl⟩, ?_, ?_⟩
  · intro _
    show wrteData [] ++ (chunksOf framedSize okayBytes).flatten = okayBytes ++ []
    rfl
  · intro p hp
    cases hp
    exact ⟨fun _ => .inl rfl, by rintro (h | h) <;> cases h⟩
  · intro hrv
    cases hrv

/-- Nothing is left to do: the queue is empty and, unless a send has failed, the frames carry all
blocks that the server has emitted, with the done marker if all files were sent. -/
structure Settled (t : TransportServe) : Prop where
  queue : t.server.prefetches = []
  flushed : t.server.pending = [] ∧ t.server.output = []
  produced : IncrementalSession.Streams ⟨t.server, t.produced⟩
  sent : t.failed = false → wrteData t.out.sent = okayBytes ++ t.produced
  done : t.server.allFilesSent = true → ⟨ResponseHeader.doneMarker, []⟩ ∈ t.server.emitted

/-- A sound server that waits has sent all it produced. -/
theorem Sound.settled (h : t.Sound) (hph : t.phase = .recv) : t.Settled := by
  have hs := h.shipping
  have hw := h.waits .scan (by rw [hph]; rfl)
  rw [hph] at hs
  refine ⟨h.recv hph, h.flushed, hs.recorded.streams, ?_, ?_⟩
  · intro ho
    have hsn : wrteData t.out.sent ++ [] = okayBytes ++ t.produced := hs.sent ho
    rwa [append_nil] at hsn
  · intro ha
    exact hs.recorded.marker (hw.done (.inr rfl) (h.recv hph) ha)

/-- A step of the server, or the device acknowledges a frame. -/
def Quiet (ids : StreamIds) (a : ServeStep) : Prop :=
  a = .go ∨ a = .recv (.ok (okay.packet ids))

def AtRest (t : TransportServe) : Prop :=
  t.phase = .recv ∨ (∃ result, t.phase = .stopped result)
    ∨ t.phase = .before .scan ∧ ∃ request,
      (IncrementalServer.takeRequest t.server.incoming).bind (·.1) = some request
        ∧ ¬ t.server.PrefetchInRange request

def rank : ServePoint → Nat
  | .work => 4
  | .top => 3
  | .flush => 2
  | .scan => 1

theorem rank_pos (point : ServePoint) : 0 < rank point := by cases point <;> decide

def distance : ServePhase → Nat × Nat
  | .before p => (rank p, 0)
  | .send _ chunks next => (rank next, 2 * chunks.length + 1)
  | .ack _ chunks next => (rank next, 2 * chunks.length + 2)
  | .recv | .stopped _ => (0, 0)

def Nearer (t' t : TransportServe) : Prop :=
  t'.server.incoming.length < t.server.incoming.length
    ∨ t'.server.incoming.length = t.server.incoming.length
      ∧ ((distance t'.phase).1 < (distance t.phase).1
        ∨ (distance t'.phase).1 = (distance t.phase).1
          ∧ (distance t'.phase).2 < (distance t.phase).2)

structure Advances (t t' : TransportServe) : Prop where
  serving : t'.server.Serving
  ids : t'.ids = t.ids
  nearer : Nearer t' t

theorem shipFramed_distance (t : TransportServe) (next : ServePoint) :
    (distance (t.shipFramed next).phase).1 = rank next := by
  unfold shipFramed
  dsimp only
  split <;> rfl

theorem shipFramed_same (t : TransportServe) (next : ServePoint) :
    (t.shipFramed next).ids = t.ids ∧ (t.shipFramed next).server = t.server.drainOutput.2 := by
  unfold shipFramed
  dsimp only
  split <;> exact ⟨rfl, rfl⟩

/-- Shipping brings the server nearer to its rest. -/
theorem advances_ship {s : TransportServe} (hi : s.ids = t.ids) (hsg : s.server.Serving)
    (hin : s.server.incoming.length ≤ t.server.incoming.length)
    (hlw : rank next < (distance t.phase).1
      ∨ s.server.incoming.length < t.server.incoming.length) : Advances t (s.shipFramed next) := by
  obtain ⟨hsm, hs⟩ := shipFramed_same s next
  have hd := shipFramed_distance s next
  have hl : (s.shipFramed next).server.incoming.length = s.server.incoming.length := by
    rw [hs, (drainOutput_same s.server).2.1]
  refine ⟨?_, hsm.trans hi, ?_⟩
  · rw [hs]
    exact (hsg.of_unwritten (flush_unwritten s.server)).congr rfl rfl rfl
  · unfold Nearer
    omega

theorem sendDone_serving (h : s.Serving) : s.sendDone.Serving ∧ s.sendDone.incoming = s.incoming := by
  have hs := send_unwritten (s.record ⟨doneMarker, []⟩) doneMarker.encode true
  have hi := congrArg incoming hs
  have hr := h.congr rfl rfl rfl
  exact ⟨hr.of_unwritten hs, hi⟩

theorem advances_notifyDone (h : t.server.Serving) (hph : t.phase = .before .top) :
    Advances t t.notifyDone := by
  have hr : rank .flush < (distance t.phase).1 := by
    rw [hph]
    decide
  unfold TransportServe.notifyDone
  split
  next =>
    obtain ⟨hs, hi⟩ := sendDone_serving h
    exact advances_ship rfl hs (Nat.le_of_eq (congrArg length hi)) (.inl hr)
  next => exact ⟨h, rfl, .inr ⟨rfl, .inl hr⟩⟩

variable (compress : Bytes → Bytes)

/-- A scan brings the server nearer to its rest, or it is there. -/
theorem advances_scan (h : t.server.Serving) (hph : t.phase = .before .scan) :
    t.AtRest ∨ ∃ t', t.scan compress = some t' ∧ Advances t t' := by
  obtain ⟨⟨request, forward, incoming⟩, ht⟩ :=
    Option.isSome_iff_exists.mp (takeRequest_isSome t.server.incoming)
  have hr := takeRequest_rest ht
  have hsg : (t.took forward incoming).server.Serving := h.congr rfl rfl rfl
  cases request with
  | none =>
    have hs : t.scan compress = some { t.took forward incoming with phase := .recv } := by
      rw [scan, ht]
      rfl
    refine .inr ⟨_, hs, hsg, rfl, ?_⟩
    have hle := hr
    obtain hl | hsm := Nat.lt_or_eq_of_le hle
    · exact .inl hl
    · exact .inr ⟨hsm, .inl (by rw [hph]; exact Nat.one_pos)⟩
  | some request =>
    have hl : incoming.length < t.server.incoming.length := by
      have hr : incoming.length + 12 ≤ t.server.incoming.length := hr
      omega
    by_cases hd : request.requestType.toInt = destroy
    · have hs : t.scan compress = some { t.took forward incoming with phase := .stopped true } := by
        rw [scan, ht]
        exact if_pos hd
      exact .inr ⟨_, hs, hsg, rfl, .inl hl⟩
    · by_cases hin : t.server.PrefetchInRange request
      · obtain ⟨s', hhd, hh⟩ := handleRequest_spec compress hsg hin
        have hs : t.scan compress
            = some (shipFramed { t.took forward incoming with server := s' } .work) := by
          rw [scan, ht]
          dsimp
          rw [if_neg hd, hhd]
          rfl
        have hi : s'.incoming = incoming := hh.incoming
        refine .inr ⟨_, hs, advances_ship rfl (hsg.handled hh) ?_ (.inr ?_)⟩
        · show s'.incoming.length ≤ _
          rw [hi]
          omega
        · show s'.incoming.length < _
          rw [hi]
          exact hl
      · exact .inl (.inr (.inr ⟨hph, request, by rw [ht]; rfl, hin⟩))

theorem advances_send (handshake : Bool) (chunk : Bytes) (chunks : List Bytes)
    (next : ServePoint) (h : t.server.Serving)
    (hph : t.phase = .send handshake (chunk :: chunks) next) :
    Advances t (t.sendChunk handshake chunk chunks next) := by
  obtain ⟨result, out', hs, -⟩ :=
    send_cases (AdbPacket.new aWrte t.ids.localId t.ids.remoteId chunk) t.out
  unfold TransportServe.sendChunk
  rw [hs]
  cases result with
  | error e =>
    refine ⟨h, rfl, .inr ⟨rfl, ?_⟩⟩
    rw [hph]
    cases handshake with
    | true => exact .inl (rank_pos next)
    | false => exact .inr ⟨rfl, Nat.succ_pos _⟩
  | ok u =>
    refine ⟨h, rfl, .inr ⟨rfl, .inr ?_⟩⟩
    rw [hph]
    refine ⟨rfl, ?_⟩
    show 2 * chunks.length + 2 < 2 * (chunks.length + 1) + 1
    omega

/-- A server in service rests, or a quiet step brings it nearer. -/
theorem quiet_step (h : t.server.Serving) :
    t.AtRest ∨ ∃ a t', Quiet t.ids a ∧ t.step compress a = some t' ∧ Advances t t' := by
  cases hph : t.phase with
  | before p =>
    cases p with
    | top =>
      refine .inr ⟨.go, _, .inl rfl, ?_, advances_notifyDone h hph⟩
      rw [step, hph]
    | flush =>
      have hsm := flush_unwritten t.server
      have hi := congrArg incoming hsm
      refine .inr ⟨.go, _, .inl rfl, by rw [step, hph], ?_⟩
      refine advances_ship rfl (h.of_unwritten hsm) (Nat.le_of_eq (congrArg length hi)) (.inl ?_)
      rw [hph]
      decide
    | scan =>
      refine (advances_scan compress h hph).imp_right ?_
      rintro ⟨t', hsc, ha⟩
      exact ⟨.go, t', .inl rfl, by rw [step, hph]; exact hsc, ha⟩
    | work =>
      obtain ⟨s', hr, ho⟩ := runPrefetching_spec compress h.files h.queue
      have hs : t.step compress .go = some (shipFramed { t with server := s' } .top) := by
        rw [step, hph]
        rw [work, hr]
        rfl
      refine .inr ⟨.go, _, .inl rfl, hs, advances_ship rfl (h.loop ho) ?_ (.inl ?_)⟩
      · exact Nat.le_of_eq (congrArg length ho.works.grown.incoming)
      · rw [hph]
        decide
  | send handshake chunks next =>
    cases chunks with
    | nil =>
      have hs : t.step compress .go = some { t with phase := .before next } := by
        rw [step, hph]
      refine .inr ⟨.go, _, .inl rfl, hs, h, rfl, .inr ⟨rfl, .inr ?_⟩⟩
      rw [hph]
      exact ⟨rfl, Nat.succ_pos _⟩
    | cons chunk chunks =>
      refine .inr ⟨.go, _, .inl rfl, ?_, advances_send handshake chunk chunks next h hph⟩
      rw [step, hph]
  | ack handshake chunks next =>
    have hok : t.isOkay (okay.packet t.ids) = true := by
      simp [isOkay, packet, AdbPacket.new, AdbMessageHeader.new]
    have hs : t.step compress (.recv (.ok (okay.packet t.ids)))
        = some { t with phase := .send handshake chunks next } := by
      rw [step, hph]
      exact congrArg some (if_pos hok)
    refine .inr ⟨_, _, .inr rfl, hs, h, rfl, .inr ⟨rfl, .inr ?_⟩⟩
    rw [hph]
    exact ⟨rfl, Nat.lt_succ_self _⟩
  | recv => exact .inl (.inl hph)
  | stopped result => exact .inl (.inr (.inl ⟨result, hph⟩))

/-- By its own steps and with its frames acknowledged, the server comes to rest. -/
theorem comes_to_rest (compress : Bytes → Bytes) (t : TransportServe) (h : t.server.Serving) :
    ∃ as t', (∀ a ∈ as, Quiet t.ids a) ∧ runSteps (step compress) t as = some t' ∧ t'.AtRest := by
  obtain hr | ⟨a, t1, hq, hst, ha⟩ := quiet_step compress h
  · exact ⟨[], t, forall_mem_nil _, rfl, hr⟩
  obtain ⟨as, t', has, hrun, hr⟩ := comes_to_rest compress t1 ha.serving
  rw [ha.ids] at has
  refine ⟨a :: as, t', forall_mem_cons.mpr ⟨hq, has⟩, ?_, hr⟩
  rw [runSteps, hst]
  exact hrun
termination_by (t.server.incoming.length, distance t.phase)
decreasing_by
  obtain hl | ⟨hs, hl⟩ := ha.nearer
  · exact .left _ _ hl
  · rw [hs]
    refine .right _ (Prod.lex_def.mpr ?_)
    exact hl

/-- In every run whose steps are prompt, the server waits for a request only when nothing is left to
do, and it comes to rest by itself. -/
theorem transport_waits_settled (compress : List UInt8 → List UInt8) (ids : StreamIds)
    (specs : List FileSpec) (faults : List (Option Text)) {as : List ServeStep}
    (hmeet : StepsMeet (step compress) Prompt (start ids specs faults) as)
    (hrun : runSteps (step compress) (start ids specs faults) as = some t) :
    (t.phase = .recv → t.Settled)
      ∧ ∃ bs t', (∀ b ∈ bs, Quiet t.ids b) ∧ runSteps (step compress) t bs = some t' ∧ t'.AtRest
        ∧ (StepsMeet (step compress) Prompt t bs → t'.phase = .recv → t'.Settled) := by
  have hk : ∀ {t t' : TransportServe} {a : ServeStep}, t.Sound → t.Prompt a →
      t.step compress a = some t' → t'.Sound := fun h hp hst => h.step hp hst
  have hs := runSteps_invariant hk (start_sound ids specs faults) hmeet hrun
  obtain ⟨bs, t', hq, hm, hr⟩ := comes_to_rest compress t hs.shipping.serving
  refine ⟨hs.settled, bs, t', hq, hm, hr, ?_⟩
  intro hmeet' hphase
  exact (runSteps_invariant hk hs hmeet' hm).settled hphase

def oneRequest (ids : StreamIds) (requestType : UInt8) : List ServeStep :=
  let request := [0x49, 0x4e, 0x43, 0x52, 0, requestType, 0, 0, 0, 0, 0, 0]
  [.go, .recv (.ok (okay.packet ids)), .go, .go, .go, .go,
    .recv (.ok ((wrte request).packet ids)), .go]

def served129 : TransportServe := start ⟨1, 81⟩ [IncrementalSession.spec129 fun _ => false] []

theorem transport_waits_settled_missing : ∃ t,
    runSteps (step id) served129 (oneRequest ⟨1, 81⟩ 1) = some t ∧ (t.phase = .recv → t.Settled)
      ∧ ∃ bs t', (∀ b ∈ bs, Quiet t.ids b) ∧ runSteps (step id) t bs = some t' ∧ t'.AtRest
        ∧ (StepsMeet (step id) Prompt t bs → t'.phase = .recv → t'.Settled) := by
  have hs : (runSteps (step id) served129 (oneRequest ⟨1, 81⟩ 1)).isSome := by decide +kernel
  have hm : StepsMeet (step id) Prompt served129 (oneRequest ⟨1, 81⟩ 1) := by decide +kernel
  obtain ⟨t, hr⟩ := Option.isSome_iff_exists.mp hs
  exact ⟨t, hr, transport_waits_settled id _ _ _ hm hr⟩

/-- A file of 129 blocks is asked for, and the device sends no more: the server prefetches 128 of
them and waits for a request with the last one in its queue. -/
theorem transport_waits_unsettled : ¬ ∀ as t, runSteps (step id) served129 as = some t →
    t.phase = .recv → t.Settled := by
  intro h
  have hw : (runSteps (step id) served129 (oneRequest ⟨1, 81⟩ 2 ++ [.go, .go,
      .recv (.ok (DeviceFrame.okay.packet ⟨1, 81⟩)), .go, .go, .go, .go])).map
        (fun t => (t.phase, t.server.prefetches.isEmpty)) = some (.recv, false) := by
    decide +kernel
  obtain ⟨t, hr, ht⟩ := Option.map_eq_some_iff.mp hw
  obtain ⟨hphase, hq⟩ := Prod.mk.inj ht
  exact isEmpty_eq_false_iff.mp hq (h _ _ hr hphase).queue

end TransportServe

end AdbFastboot
