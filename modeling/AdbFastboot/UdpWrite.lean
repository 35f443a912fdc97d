import AdbFastboot.Serial
import AdbFastboot.UdpErrorAnswer

namespace AdbFastboot

open List

inductive UdpWritten (σ : Type) where
  | returned (value : Except FastbootTransportError Nat) (world : σ) (seq : UInt16)
      (answers : List (List (UdpHeader × Bytes)))
  | waiting

def writeChunks (maxPacketSize : Nat) (buf : Bytes) : List Bytes :=
  let maxPayload := max (maxPacketSize - udpHeaderLen) 1
  if buf = [] then [[]] else chunksOf maxPayload buf

def writeRequests (maxPacketSize : Nat) (buf : Bytes) : List UdpRequest :=
  let chunks := writeChunks maxPacketSize buf
  chunks.zipIdx.map fun (chunk, i) =>
    ⟨udpIdFastboot, if i = chunks.length - 1 then udpFlagNone else udpFlagContinuation, chunk⟩

section

variable {σ τ : Type}

/-- The loop of `write`. Each of its calls sees turns of its own. -/
def writeLoop (socket : UdpSocket σ τ) (maxRetries written : Nat) :
    List UdpRequest → List (List τ) → UInt16 → σ → List (List (UdpHeader × Bytes)) →
      UdpWritten σ
  | [], _, seq, world, answers => .returned (.ok written) world seq answers
  | _ :: _, [], _, _, _ => .waiting
  | tx :: rest, turns :: later, seq, world, answers =>
    match sendPacketWithAck socket maxRetries seq tx turns world with
    | .waiting => .waiting
    | .returned (.error e) world seq accepted =>
      .returned (.error e) world seq (answers ++ [accepted])
    | .returned (.ok _) world seq accepted =>
      writeLoop socket maxRetries written rest later seq world (answers ++ [accepted])

def udpWrite (socket : UdpSocket σ τ) (maxPacketSize maxRetries : Nat) (seq : UInt16)
    (buf : Bytes) (turns : List (List τ)) (world : σ) : UdpWritten σ :=
  writeLoop socket maxRetries buf.length (writeRequests maxPacketSize buf) turns seq world []

def UdpSocket.recording (socket : UdpSocket σ τ) : UdpSocket (σ × List Bytes) τ where
  send turn packet world := (socket.send turn packet world.1).map (·, world.2 ++ [packet])
  recv turn world := ((socket.recv turn world.1).1, (socket.recv turn world.1).2, world.2)

end

/-- The trace has the packets in their order, each sent once or several times in a row. -/
inductive Repeats : List Bytes → List Bytes → Prop
  | nil : Repeats [] []
  | cons (packet : Bytes) (k : Nat) {packets trace : List Bytes}
      (h : Repeats packets trace) :
      Repeats (packet :: packets) (List.replicate (k + 1) packet ++ trace)

variable {packets trace : List Bytes}

theorem Repeats.again {packet : Bytes}
    (h : Repeats (packet :: packets) trace) : Repeats (packet :: packets) (packet :: trace) := by
  cases h with
  | cons _ k h => exact .cons packet (k + 1) h

theorem Repeats.append {more later : List Bytes} (h : Repeats packets trace)
    (hm : Repeats more later) : Repeats (packets ++ more) (trace ++ later) := by
  induction h with
  | nil => exact hm
  | cons packet k _ ih =>
    rw [append_assoc]
    exact .cons packet k ih

def UdpRequest.datagram (tx : UdpRequest) (seq : UInt16) : Bytes :=
  udpDatagram (tx.header seq) tx.payload

/-- The packets of one exchange: the request, and behind each answer that announces another one an
empty packet that asks for it. -/
def exchangePackets : UInt16 → UdpRequest → List (UdpHeader × Bytes) → List Bytes
  | _, _, [] => []
  | seq, tx, answer :: answers =>
    tx.datagram seq :: exchangePackets (seq + 1) ⟨answer.1.id, udpFlagNone, []⟩ answers

def writePackets : UInt16 → List UdpRequest → List (List (UdpHeader × Bytes)) → List Bytes
  | seq, tx :: requests, accepted :: answers =>
    exchangePackets seq tx accepted ++
      writePackets (serial seq accepted.length) requests answers
  | _, _, _ => []

def numbered (seq : UInt16) (requests : List UdpRequest) : List Bytes :=
  requests.zipIdx.map fun (tx, i) => tx.datagram (serial seq i)

section

variable {σ τ : Type} {socket : UdpSocket σ τ} {maxRetries : Nat}

theorem UdpSocket.recording_send {turn : τ} {packet : Bytes} {world world' : σ}
    {sent sent' : List Bytes}
    (h : socket.recording.send turn packet (world, sent) = .ok (world', sent')) :
    sent' = sent ++ [packet] := by
  unfold UdpSocket.recording at h
  dsimp only at h
  cases hs : socket.send turn packet world with
  | error e => simp [hs, Except.map] at h
  | ok w =>
    rw [hs] at h
    exact (Prod.mk.inj (Except.ok.inj h)).2.symm

variable {world : σ × List Bytes} {world' : σ × List Bytes} {seq : UInt16}
  {accepted : List (UdpHeader × Bytes)}

/-- A run that returns data has sent its packets, each once or more. -/
theorem UdpLoop.run_sent {turns : List τ} {x : UdpLoop (σ × List Bytes)} {data : Bytes}
    (h : UdpLoop.run socket.recording maxRetries turns x = .returned (.ok data) world seq accepted) :
    ∃ answers trace, accepted = x.accepted ++ answers ∧ answers ≠ [] ∧
      seq = serial x.seq answers.length ∧ world.2 = x.world.2 ++ trace ∧
      Repeats (exchangePackets x.seq x.tx answers) trace := by
  induction turns generalizing x with
  | nil => simp [UdpLoop.run] at h
  | cons turn turns ih =>
    obtain ⟨⟨world', sent⟩, hsd, hc⟩ := UdpLoop.run_ok_cases h
    have hsn : sent = x.world.2 ++ [x.tx.datagram x.seq] := UdpSocket.recording_send hsd
    rcases hc with ⟨lastErr, left, hrs⟩ | ⟨resp, payload, x', -, rfl, ⟨-, hl⟩ | ⟨-, hm⟩⟩
    · obtain ⟨answers, trace, ha, hne, hs, hw, hr⟩ := ih hrs
      refine ⟨answers, x.tx.datagram x.seq :: trace, ha, hne, hs, ?_, ?_⟩
      · rw [hw, append_cons, ← hsn]
        rfl
      · obtain ⟨answer, rest, rfl⟩ := exists_cons_of_ne_nil hne
        exact hr.again
    · obtain ⟨-, rfl, rfl, rfl⟩ := UdpReturn.returned.inj hl
      exact ⟨[(resp, payload)], [x.tx.datagram x.seq], rfl, cons_ne_nil _ _, rfl, hsn, .cons _ 0 .nil⟩
    · obtain ⟨answers, trace, ha, -, hs, hw, hr⟩ := ih hm
      refine ⟨(resp, payload) :: answers, x.tx.datagram x.seq :: trace, ?_, cons_ne_nil _ _,
        ?_, ?_, .cons _ 0 hr⟩
      · rw [ha, append_cons]
        rfl
      · rw [hs, length_cons, Nat.add_comm, serial_add]
        rfl
      · rw [hw, append_cons, ← hsn]
        rfl

theorem sendPacketWithAck_sent {seq' : UInt16} {tx : UdpRequest} {turns : List τ}
    {data : Bytes} (h : sendPacketWithAck socket.recording maxRetries seq tx turns world
      = .returned (.ok data) world' seq' accepted) :
    ∃ trace, accepted ≠ [] ∧ seq' = serial seq accepted.length ∧ world'.2 = world.2 ++ trace ∧
      Repeats (exchangePackets seq tx accepted) trace := by
  obtain ⟨answers, trace, ha, hne, hs, hw, hr⟩ := UdpLoop.run_sent h
  subst ha
  exact ⟨trace, hne, hs, hw, hr⟩

/-- The loop sends the requests one behind the other. -/
theorem writeLoop_sent {written : Nat} {requests : List UdpRequest} {turns : List (List τ)}
    {seq' : UInt16} {n : Nat} {before answers : List (List (UdpHeader × Bytes))}
    (h : writeLoop socket.recording maxRetries written requests turns seq world before
      = .returned (.ok n) world' seq' answers) :
    n = written ∧ ∃ later trace, answers = before ++ later ∧ later.length = requests.length ∧
      (∀ accepted ∈ later, accepted ≠ []) ∧ world'.2 = world.2 ++ trace ∧
      Repeats (writePackets seq requests later) trace := by
  induction requests generalizing turns seq world before with
  | nil =>
    obtain ⟨hn, rfl, -, rfl⟩ := UdpWritten.returned.inj h
    exact ⟨(Except.ok.inj hn).symm, [], [], (append_nil _).symm, rfl, forall_mem_nil _,
      (append_nil _).symm, .nil⟩
  | cons tx requests ih =>
    cases turns with
    | nil => simp [writeLoop] at h
    | cons turns rest =>
      rw [writeLoop] at h
      split at h
      next => simp at h
      next => simp at h
      next accepted hs =>
        obtain ⟨trace, hne, rfl, hw, hr⟩ := sendPacketWithAck_sent hs
        obtain ⟨hn, later, trace', ha, hl, hnl, hw', hr'⟩ := ih h
        refine ⟨hn, accepted :: later, trace ++ trace', ?_, ?_, forall_mem_cons.mpr ⟨hne, hnl⟩, ?_,
          hr.append hr'⟩
        · rw [ha, append_assoc, singleton_append]
        · rw [length_cons, length_cons, hl]
        · rw [hw', hw, append_assoc]

end

theorem numbered_cons (seq : UInt16) (tx : UdpRequest) (requests : List UdpRequest) :
    numbered seq (tx :: requests) = tx.datagram seq :: numbered (serial seq 1) requests := by
  rw [numbered, zipIdx_cons, map_cons, zipIdx_succ, map_map]
  congr 1
  · simp [serial]
  · refine map_congr_left fun p _ => ?_
    obtain ⟨tx, i⟩ := p
    change tx.datagram (serial seq (i + 1)) = tx.datagram (serial (serial seq 1) i)
    rw [Nat.add_comm, serial_add]
    rfl

theorem writePackets_eq_numbered {seq : UInt16} {requests : List UdpRequest}
    {answers : List (List (UdpHeader × Bytes))} (hl : answers.length = requests.length)
    (ho : ∀ accepted ∈ answers, accepted.length = 1) :
    writePackets seq requests answers = numbered seq requests := by
  induction requests generalizing seq answers with
  | nil => cases answers <;> rfl
  | cons tx requests ih =>
    cases answers with
    | nil => simp at hl
    | cons accepted answers =>
      obtain ⟨answer, rfl⟩ := length_eq_one_iff.mp (ho accepted mem_cons_self)
      rw [numbered_cons, writePackets, ih (Nat.succ.inj hl)
        fun accepted hm => ho accepted (mem_cons_of_mem _ hm)]
      rfl

section

variable {maxPacketSize : Nat} {buf : Bytes}

theorem writeChunks_ne_nil (maxPacketSize : Nat) (buf : Bytes) :
    writeChunks maxPacketSize buf ≠ [] := by
  unfold writeChunks
  split
  next => exact cons_ne_nil _ _
  next hne =>
    intro hn
    apply hne
    rw [← chunksOf_flatten (Nat.lt_of_lt_of_le Nat.zero_lt_one (Nat.le_max_right _ _)) buf, hn]
    rfl

/-- The chunks are the buffer. -/
theorem writeChunks_flatten (maxPacketSize : Nat) (buf : Bytes) :
    (writeChunks maxPacketSize buf).flatten = buf := by
  unfold writeChunks
  split
  next hn => rw [hn]; rfl
  next => exact chunksOf_flatten (Nat.lt_of_lt_of_le Nat.zero_lt_one (Nat.le_max_right _ _)) buf

theorem writeChunks_length_le (hm : udpHeaderLen < maxPacketSize) {chunk : Bytes}
    (h : chunk ∈ writeChunks maxPacketSize buf) : udpHeaderLen + chunk.length ≤ maxPacketSize := by
  unfold writeChunks at h
  split at h
  next =>
    rw [mem_singleton.mp h]
    exact Nat.le_of_lt hm
  have hle := chunksOf_length_le h
  omega

theorem writeRequests_payload :
    (writeRequests maxPacketSize buf).map UdpRequest.payload = writeChunks maxPacketSize buf := by
  rw [writeRequests, map_map]
  exact zipIdx_map_fst 0 _

/-- All requests but the last are continued. -/
theorem writeRequests_flags : ∃ front last, writeRequests maxPacketSize buf = front ++ [last] ∧
    last.flags = udpFlagNone ∧ ∀ tx ∈ front, tx.flags = udpFlagContinuation := by
  have hl := dropLast_concat_getLast (writeChunks_ne_nil maxPacketSize buf)
  generalize (writeChunks maxPacketSize buf).dropLast = front at hl
  rw [writeRequests, ← hl, zipIdx_append, map_append]
  refine ⟨_, _, rfl, by simp, fun tx hm => ?_⟩
  obtain ⟨⟨chunk, i⟩, hi, rfl⟩ := mem_map.mp hm
  have hlt := snd_lt_of_mem_zipIdx hi
  refine if_neg fun heq => ?_
  rw [length_append, length_singleton] at heq
  omega

theorem writeRequests_id {tx : UdpRequest} (h : tx ∈ writeRequests maxPacketSize buf) :
    tx.id = udpIdFastboot := by
  obtain ⟨_, -, rfl⟩ := mem_map.mp h
  rfl

end

/-- What a successful `write` sends: each packet, once or several times in a row. Where each packet
is answered by one acknowledgement that announces no other, the packets of the buffer are all that
is sent, under consecutive numbers. -/
theorem udpWrite_sends {σ τ : Type} (socket : UdpSocket σ τ) (maxPacketSize maxRetries : Nat)
    (seq : UInt16) (buf : List UInt8) (turns : List (List τ)) (world : σ)
    (hmax : udpHeaderLen < maxPacketSize) {n : Nat} {world' : σ} {sent : List (List UInt8)}
    {seq' : UInt16} {answers : List (List (UdpHeader × List UInt8))}
    (h : udpWrite socket.recording maxPacketSize maxRetries seq buf turns (world, [])
      = .returned (.ok n) (world', sent) seq' answers) :
    n = buf.length ∧ ∃ requests : List UdpRequest, requests.flatMap UdpRequest.payload = buf ∧
      (∀ tx ∈ requests, tx.id = udpIdFastboot ∧
        (∀ number, (tx.datagram number).length ≤ maxPacketSize)) ∧
      (∃ front last, requests = front ++ [last] ∧ last.flags = udpFlagNone ∧
        ∀ tx ∈ front, tx.flags = udpFlagContinuation) ∧
      answers.length = requests.length ∧ (∀ accepted ∈ answers, accepted ≠ []) ∧
      Repeats (writePackets seq requests answers) sent ∧
      ((∀ accepted ∈ answers, accepted.length = 1) → Repeats (numbered seq requests) sent) := by
  obtain ⟨hn, later, trace, ha, hl, hne, hs, hr⟩ := writeLoop_sent h
  subst ha hs
  refine ⟨hn, writeRequests maxPacketSize buf, ?_, fun tx hm => ⟨writeRequests_id hm, ?_⟩,
    writeRequests_flags, hl, hne, hr, fun ho => ?_⟩
  · rw [flatMap_def, writeRequests_payload, writeChunks_flatten]
  · intro number
    have hp : tx.payload ∈ writeChunks maxPacketSize buf := by
      rw [← writeRequests_payload]
      exact mem_map_of_mem hm
    have hle := writeChunks_length_le hmax hp
    rw [UdpRequest.datagram, udpDatagram, length_append, UdpHeader.encode4byte_length]
    exact hle
  · rw [← writePackets_eq_numbered hl ho]
    exact hr

/-- Three bytes in packets of two, from the last number on. The first packet is sent twice. -/
theorem udpWrite_sends_twoPackets :
    udpWrite scriptSocket.recording 6 1 0xFFFF [1, 2, 3] [[(), ()], [()]]
        ([.timedOut "", .datagram [3, 0, 0xFF, 0xFF], .datagram [3, 0, 0, 0]], [])
      = .returned (.ok 3) ([], [[3, 1, 0xFF, 0xFF, 1, 2], [3, 1, 0xFF, 0xFF, 1, 2], [3, 0, 0, 0, 3]])
        1 [[(⟨3, 0, 0xFFFF⟩, [])], [(⟨3, 0, 0⟩, [])]] ∧
      ∃ requests : List UdpRequest, requests.flatMap UdpRequest.payload = [1, 2, 3] ∧
        Repeats (numbered 0xFFFF requests)
          [[3, 1, 0xFF, 0xFF, 1, 2], [3, 1, 0xFF, 0xFF, 1, 2], [3, 0, 0, 0, 3]] := by
  have hr : udpWrite scriptSocket.recording 6 1 0xFFFF [1, 2, 3] [[(), ()], [()]]
      ([.timedOut "", .datagram [3, 0, 0xFF, 0xFF], .datagram [3, 0, 0, 0]], [])
      = .returned (.ok 3) ([], [[3, 1, 0xFF, 0xFF, 1, 2], [3, 1, 0xFF, 0xFF, 1, 2], [3, 0, 0, 0, 3]])
        1 [[(⟨3, 0, 0xFFFF⟩, [])], [(⟨3, 0, 0⟩, [])]] := rfl
  obtain ⟨-, requests, hp, -, -, -, -, -, hs⟩ :=
    udpWrite_sends scriptSocket 6 1 0xFFFF [1, 2, 3] [[(), ()], [()]]
      [.timedOut "", .datagram [3, 0, 0xFF, 0xFF], .datagram [3, 0, 0, 0]] (by decide) hr
  exact ⟨hr, requests, hp, hs (by simp)⟩

end AdbFastboot
