import AdbFastboot.Serial
import AdbFastboot.UdpExchange

namespace AdbFastboot

open List UdpRequest

structure UdpAnswer where
  id : UInt8
  flags : UInt8
  payload : Bytes
deriving DecidableEq, Repr

structure Served where
  header : UdpHeader
  payload : Bytes
  answer : UdpAnswer
deriving DecidableEq, Repr

def Served.answered (sv : Served) : UdpHeader × Bytes :=
  (⟨sv.answer.id, sv.answer.flags, sv.header.seq⟩, sv.answer.payload)

def Served.datagram (sv : Served) : Bytes := udpDatagram sv.answered.1 sv.answered.2

/-- A device that processes each new sequence number once, counted from `first`, and repeats its
answer to one of the last `window` numbers. What it answers may depend on all it has processed. -/
structure UdpDevice where
  first : UInt16
  window : Nat
  respond : List Served → UdpHeader → Bytes → UdpAnswer

def UdpDevice.Fits (dev : UdpDevice) : Prop :=
  ∀ past header payload,
    udpHeaderLen + (dev.respond past header payload).payload.length ≤ hostMaxUdpPacketSize

def UdpDevice.serve (dev : UdpDevice) (past : List Served) (header : UdpHeader)
    (payload : Bytes) : Served :=
  ⟨header, payload, dev.respond past header payload⟩

structure SentRequest where
  step : Nat
  header : UdpHeader
  payload : Bytes

structure SentAnswer where
  step : Nat
  datagram : Bytes

/-- What the device has processed after a request, and the answers it sends. -/
def UdpDevice.receive (dev : UdpDevice) (served : List Served) (header : UdpHeader)
    (payload : Bytes) : List Served × List SentAnswer :=
  let back := (serial dev.first served.length - header.seq).toNat
  if back = 0 then
    (served ++ [dev.serve served header payload],
      [⟨served.length, (dev.serve served header payload).datagram⟩])
  else if back ≤ dev.window ∧ back ≤ served.length then
    (served, (served[served.length - back]?).toList.map fun sv =>
      ⟨served.length - back, sv.datagram⟩)
  else (served, [])

/-- A network between the host and the device: all requests and answers ever sent, any of which
may arrive, at any time and any number of times. `begun` counts the sequence numbers the host has
used and `newest` is the last one. -/
structure UdpNet where
  begun : Nat
  newest : Option UInt16
  requests : List SentRequest
  answers : List SentAnswer
  served : List Served

def UdpNet.send (net : UdpNet) (packet : Bytes) : UdpNet :=
  match UdpHeader.decode packet with
  | .error _ => net
  | .ok (header, hlen) =>
    let begun := if net.newest = some header.seq then net.begun else net.begun + 1
    { net with
      begun := begun
      newest := some header.seq
      requests := net.requests ++ [⟨begun - 1, header, packet.drop hlen⟩] }

/-- The request at `i` reaches the device, unless `2^16` numbers have been processed since. -/
def UdpNet.deliver (dev : UdpDevice) (net : UdpNet) (i : Nat) : UdpNet :=
  match net.requests[i]? with
  | none => net
  | some r =>
    if net.served.length < r.step + 2 ^ 16 then
      { net with
        served := (dev.receive net.served r.header r.payload).1
        answers := net.answers ++ (dev.receive net.served r.header r.payload).2 }
    else net

inductive UdpArrival where
  | answer (i : Nat)
  | nothing
  | failure

/-- One turn of the network: whether the host can send, which requests then reach the device, and
what reaches the host. -/
structure UdpTurn where
  sendFails : Bool
  deliveries : List Nat
  arrival : UdpArrival
  osError : String

/-- What the host receives; an answer that lies `2^16` numbers back is lost. -/
def UdpNet.arrive (net : UdpNet) (turn : UdpTurn) : UdpRecv :=
  match turn.arrival with
  | .answer i =>
    match net.answers[i]? with
    | none => .timedOut turn.osError
    | some a => if net.begun ≤ a.step + 2 ^ 16 then .datagram a.datagram else .timedOut turn.osError
  | .nothing => .timedOut turn.osError
  | .failure => .failed turn.osError

def UdpDevice.socket (dev : UdpDevice) : UdpSocket UdpNet UdpTurn where
  send turn packet net := if turn.sendFails then .error turn.osError else .ok (net.send packet)
  recv turn net :=
    ((turn.deliveries.foldl (UdpNet.deliver dev) net).arrive turn,
      turn.deliveries.foldl (UdpNet.deliver dev) net)

variable {dev : UdpDevice} {net : UdpNet} {past : List Served} {tx : UdpRequest}

/-- Host and device are between two exchanges: every number used so far has been processed. -/
structure UdpNet.InSync (dev : UdpDevice) (net : UdpNet) : Prop where
  begun : net.begun = net.served.length
  newest : net.newest ≠ some (serial dev.first net.served.length)
  requests : ∀ r ∈ net.requests,
    r.step < net.served.length ∧ r.header.seq = serial dev.first r.step
  served : ∀ j sv, net.served[j]? = some sv → sv.header.seq = serial dev.first j
  answers : ∀ a ∈ net.answers, ∃ sv, net.served[a.step]? = some sv ∧ a.datagram = sv.datagram

def UdpDevice.next (dev : UdpDevice) (past : List Served) (tx : UdpRequest) : Served :=
  dev.serve past (tx.header (serial dev.first past.length)) tx.payload

/-- The host asks `tx` of a device that had processed `past`: the device may have processed this
request, and it has processed nothing else since. -/
structure UdpNet.Asking (dev : UdpDevice) (past : List Served) (tx : UdpRequest) (net : UdpNet) :
    Prop where
  clock : net.newest = some (serial dev.first past.length) ∧ net.begun = past.length + 1 ∨
    net.newest ≠ some (serial dev.first past.length) ∧ net.begun = past.length
  requests : ∀ r ∈ net.requests, r.step < past.length ∧ r.header.seq = serial dev.first r.step ∨
    r = ⟨past.length, tx.header (serial dev.first past.length), tx.payload⟩
  served : net.served = past ∨ net.served = past ++ [dev.next past tx]
  past : ∀ j sv, past[j]? = some sv → sv.header.seq = serial dev.first j
  answers : ∀ a ∈ net.answers, ∃ sv, net.served[a.step]? = some sv ∧ a.datagram = sv.datagram

theorem UdpNet.InSync.asking (h : net.InSync dev) (tx : UdpRequest) : net.Asking dev net.served tx where
  clock := .inr ⟨h.newest, h.begun⟩
  requests r hr := .inl (h.requests r hr)
  served := .inl rfl
  past := h.served
  answers := h.answers

section

variable (h : net.Asking dev past tx)
include h

theorem UdpNet.Asking.served_seq {j : Nat} {sv : Served} (hj : net.served[j]? = some sv) :
    sv.header.seq = serial dev.first j := by
  rcases h.served with hs | hs
  · exact h.past j sv (hs ▸ hj)
  rw [hs] at hj
  rcases Nat.lt_or_ge j past.length with hlt | hge
  · rw [getElem?_append_left hlt] at hj
    exact h.past j sv hj
  rw [getElem?_append_right hge, getElem?_singleton] at hj
  split at hj
  next hz =>
    cases hj
    have hj : j = past.length := by omega
    rw [hj]
    rfl
  next => simp at hj

theorem UdpNet.Asking.length_le :
    past.length ≤ net.served.length ∧ net.served.length ≤ past.length + 1 := by
  rcases h.served with hs | hs
  · rw [hs]
    omega
  · rw [hs, length_append, length_singleton]
    omega

theorem UdpNet.Asking.inSync (hn : net.newest = some (serial dev.first past.length))
    (hs : net.served = past ++ [dev.next past tx]) :
    net.InSync dev where
  begun := by
    rcases h.clock with hc | hc
    · rw [hs, hc.2, length_append, length_singleton]
    · exact absurd hn hc.1
  newest := by
    rw [hn, hs, length_append, length_singleton]
    intro he
    exact serial_succ_ne dev.first past.length (Option.some.inj he)
  requests r hr := by
    rw [hs, length_append, length_singleton]
    rcases h.requests r hr with hr | hr
    · exact ⟨by omega, hr.2⟩
    · rw [hr]
      exact ⟨Nat.lt_succ_self _, rfl⟩
  served _ _ := h.served_seq
  answers := h.answers

end

theorem UdpNet.send_request (net : UdpNet) (header : UdpHeader) (payload : Bytes) {step : Nat}
    (hs : net.newest = some header.seq ∧ net.begun = step + 1 ∨
      net.newest ≠ some header.seq ∧ net.begun = step) :
    net.send (udpDatagram header payload) = { net with
      begun := step + 1
      newest := some header.seq
      requests := net.requests ++ [⟨step, header, payload⟩] } := by
  unfold UdpNet.send
  rw [udpDatagram_decode]
  simp only [udpDatagram_drop]
  rcases hs with ⟨hn, hb⟩ | ⟨hn, hb⟩
  · rw [if_pos hn, hb, Nat.add_sub_cancel]
  · rw [if_neg hn, hb, Nat.add_sub_cancel]

/-- Sending the request, or sending it again, keeps it asked. -/
theorem UdpNet.send_asking (h : net.Asking dev past tx) :
    (net.send (udpDatagram (tx.header (serial dev.first past.length)) tx.payload)).Asking
        dev past tx ∧
      (net.send (udpDatagram (tx.header (serial dev.first past.length)) tx.payload)).newest
        = some (serial dev.first past.length) := by
  rw [UdpNet.send_request net (tx.header (serial dev.first past.length)) tx.payload h.clock]
  refine ⟨⟨.inl ⟨rfl, rfl⟩, ?_, h.served, h.past, h.answers⟩, rfl⟩
  intro r hr
  rcases mem_append.mp hr with hr | hr
  · exact h.requests r hr
  · exact .inr (mem_singleton.mp hr)

/-- The device takes a request as new exactly if it is its step. -/
theorem UdpDevice.receive_step {served : List Served} {r : SentRequest}
    (hs : r.header.seq = serial dev.first r.step) (hle : r.step ≤ served.length)
    (hlt : served.length < r.step + 2 ^ 16) :
    (r.step = served.length ∧ dev.receive served r.header r.payload
        = (served ++ [dev.serve served r.header r.payload],
          [⟨served.length, (dev.serve served r.header r.payload).datagram⟩])) ∨
      (r.step < served.length ∧ (dev.receive served r.header r.payload).1 = served ∧
        ∀ a ∈ (dev.receive served r.header r.payload).2,
          ∃ sv, served[a.step]? = some sv ∧ a.datagram = sv.datagram) := by
  unfold UdpDevice.receive
  rw [hs, serial_sub_serial dev.first hle hlt]
  simp only
  split
  next hb => exact .inl ⟨by omega, rfl⟩
  next hb =>
    refine .inr ⟨by omega, ?_⟩
    split
    next hw =>
      refine ⟨rfl, ?_⟩
      intro a ha
      obtain ⟨sv, hsv, rfl⟩ := mem_map.mp ha
      exact ⟨sv, Option.mem_toList.mp hsv, rfl⟩
    next => exact ⟨rfl, by simp⟩

variable (h : net.Asking dev past tx)
include h

/-- Delivering any datagram keeps the request asked. -/
theorem UdpNet.deliver_asking (i : Nat) :
    (net.deliver dev i).Asking dev past tx ∧ (net.deliver dev i).newest = net.newest := by
  unfold UdpNet.deliver
  split
  next => exact ⟨h, rfl⟩
  next r hr =>
    split
    next hlt =>
      refine ⟨?_, rfl⟩
      have hm := mem_of_getElem? hr
      have hl := h.length_le
      have hreq : r.step ≤ past.length ∧ r.header.seq = serial dev.first r.step := by
        rcases h.requests r hm with hr | hr
        · exact ⟨by omega, hr.2⟩
        · rw [hr]
          exact ⟨Nat.le_refl _, rfl⟩
      rcases UdpDevice.receive_step hreq.2 (by omega) hlt with ⟨hst, hrc⟩ | ⟨hst, hsm, han⟩
      · have hp : net.served = past := by
          rcases h.served with hs | hs
          · exact hs
          · have := congrArg List.length hs
            rw [length_append, length_singleton] at this
            omega
        have hn : dev.serve net.served r.header r.payload = dev.next past tx := by
          rcases h.requests r hm with hr | hr
          · rw [hp] at hst
            omega
          · rw [hr, hp, UdpDevice.next]
        refine ⟨h.clock, h.requests, .inr ?_, h.past, ?_⟩
        · rw [hrc, hn]
          exact congrArg (· ++ [dev.next past tx]) hp
        · intro a ha
          simp only [hrc] at ha ⊢
          rcases mem_append.mp ha with ha | ha
          · obtain ⟨sv, hsv, hd⟩ := h.answers a ha
            have hj := (List.getElem?_eq_some_iff.mp hsv).1
            exact ⟨sv, by rw [List.getElem?_append_left hj, hsv], hd⟩
          · rw [mem_singleton.mp ha]
            exact ⟨_, List.getElem?_concat_length, rfl⟩
      · refine ⟨h.clock, h.requests, ?_, h.past, ?_⟩
        · simp only [hsm]
          exact h.served
        · intro a ha
          simp only [hsm]
          rcases mem_append.mp ha with ha | ha
          · exact h.answers a ha
          · exact han a ha
    next => exact ⟨h, rfl⟩

theorem UdpNet.deliveries_asking (deliveries : List Nat) :
    (deliveries.foldl (UdpNet.deliver dev) net).Asking dev past tx ∧
      (deliveries.foldl (UdpNet.deliver dev) net).newest = net.newest := by
  induction deliveries generalizing net with
  | nil => exact ⟨h, rfl⟩
  | cons i deliveries ih =>
    obtain ⟨hnx, hn⟩ := UdpNet.deliver_asking h i
    obtain ⟨hl, hs⟩ := ih hnx
    exact ⟨hl, hs.trans hn⟩

/-- The only answer a host can match is the one to its request. -/
theorem UdpNet.Asking.matched (hnw : net.newest = some (serial dev.first past.length))
    (hf : dev.Fits) {turn : UdpTurn} {lastErr : Option String} {resp : UdpHeader} {data : Bytes}
    (hm : tx.attempt (serial dev.first past.length) lastErr (net.arrive turn) = .matched resp data) :
    net.served = past ++ [dev.next past tx] ∧ (resp, data) = (dev.next past tx).answered := by
  have hb : net.begun = past.length + 1 := by
    rcases h.clock with hc | hc
    · exact hc.2
    · exact absurd hnw hc.1
  unfold UdpNet.arrive at hm
  split at hm
  next i _ =>
    split at hm
    next => simp [attempt] at hm
    next a ha =>
      split at hm
      next hage =>
        obtain ⟨sv, hsv, hd⟩ := h.answers a (mem_of_getElem? ha)
        have hseq := h.served_seq hsv
        have hst := (List.getElem?_eq_some_iff.mp hsv).1
        have hl := h.length_le
        rw [hd] at hm
        obtain ⟨hnum, hr, hdt⟩ := attempt_matched hm
        have hcur : a.step = past.length := by
          have hnm : serial dev.first a.step = serial dev.first past.length := by
            rw [← hseq, ← hnum]
            rfl
          exact serial_inj (by omega) (by omega) hnm
        rcases h.served with hs | hs
        · rw [hs] at hst
          omega
        have hn : sv = dev.next past tx := by
          rw [hs, hcur, List.getElem?_concat_length] at hsv
          exact (Option.some.inj hsv).symm
        have hp : sv.answered.2.length ≤ hostMaxUdpPacketSize - udpHeaderLen := by
          rw [hn]
          exact Nat.le_sub_of_add_le' (hf past _ tx.payload)
        refine ⟨hs, ?_⟩
        rw [← hn, hr, hdt, take_of_length_le hp]
      next => simp [attempt] at hm
  next => simp [attempt] at hm
  next => simp [attempt] at hm

end AdbFastboot
