import AdbFastboot.UdpNetwork

namespace AdbFastboot

open List UdpNet

/-- What the device processes of an exchange: the request and then empty prompts, each under the
number after the last, as long as the answers announce another one. -/
inductive Dialogue (dev : UdpDevice) : List Served → UdpRequest → List Served → Prop
  | last {past : List Served} {tx : UdpRequest}
      (h : (dev.next past tx).answer.flags &&& udpFlagContinuation = 0) :
      Dialogue dev past tx [dev.next past tx]
  | more {past : List Served} {tx : UdpRequest} {rest : List Served}
      (h : (dev.next past tx).answer.flags &&& udpFlagContinuation ≠ 0)
      (hrest : Dialogue dev (past ++ [dev.next past tx])
        ⟨(dev.next past tx).answer.id, udpFlagNone, []⟩ rest) :
      Dialogue dev past tx (dev.next past tx :: rest)

section

variable {dev : UdpDevice} {past done : List Served} {tx : UdpRequest}

section

variable {i : Nat} {sv : Served} (h : Dialogue dev past tx done) (hi : done[i]? = some sv)
include h hi

theorem Dialogue.seq : sv.header.seq = serial dev.first (past.length + i) := by
  induction h generalizing i with
  | last =>
    rw [getElem?_singleton] at hi
    split at hi
    next hz =>
      cases hi
      rw [hz]
      rfl
    next => simp at hi
  | @more past _ _ _ _ ih =>
    cases i with
    | zero =>
      cases hi
      rfl
    | succ i =>
      rw [ih hi, length_append, length_singleton]
      congr 1
      omega

/-- Only the last answer of a dialogue is not continued. -/
theorem Dialogue.flags : sv.answer.flags &&& udpFlagContinuation = 0 ↔ i + 1 = done.length := by
  induction h generalizing i with
  | last hl =>
    rw [getElem?_singleton] at hi
    split at hi
    next hz =>
      cases hi
      exact iff_of_true hl (by rw [hz, length_singleton])
    next => simp at hi
  | more hm hr ih =>
    cases i with
    | zero =>
      cases hi
      refine iff_of_false hm ?_
      cases hr <;> simp
    | succ i =>
      rw [ih hi, length_cons]
      omega

end

theorem Dialogue.prompts (h : Dialogue dev past tx done) :
    ∃ prompts, done = dev.next past tx :: prompts ∧ ∀ sv ∈ prompts, sv.payload = [] := by
  induction h with
  | last => exact ⟨[], rfl, by simp⟩
  | more _ _ ih =>
    obtain ⟨prompts, rfl, hp⟩ := ih
    refine ⟨_, rfl, ?_⟩
    intro sv hs
    rcases mem_cons.mp hs with rfl | hs
    · rfl
    · exact hp sv hs

/-- Whatever the network does in a turn, the request stays asked. -/
theorem UdpDevice.turn_asking {net net' : UdpNet} (h : net.Asking dev past tx) {turn : UdpTurn}
    (hs : dev.socket.send turn (udpDatagram (tx.header (serial dev.first past.length))
      tx.payload) net = .ok net') :
    (dev.socket.recv turn net').2.Asking dev past tx ∧
      (dev.socket.recv turn net').2.newest = some (serial dev.first past.length) := by
  have hnet : net.send (udpDatagram (tx.header (serial dev.first past.length)) tx.payload) = net' := by
    simp only [UdpDevice.socket] at hs
    split at hs
    next => simp at hs
    next => exact Except.ok.inj hs
  obtain ⟨ha, hn⟩ := send_asking h
  rw [hnet] at ha hn
  obtain ⟨hl, hsm⟩ := deliveries_asking ha turn.deliveries
  exact ⟨hl, hsm.trans hn⟩

/-- A run that returns data is a dialogue of the device. -/
theorem UdpLoop.run_dialogue (hft : dev.Fits) {maxRetries : Nat} {turns : List UdpTurn}
    {x : UdpLoop UdpNet} {data : Bytes} {net : UdpNet} {seq : UInt16}
    {accepted : List (UdpHeader × Bytes)} (hask : x.world.Asking dev past x.tx)
    (hs : x.seq = serial dev.first past.length) (hc : x.Collects)
    (h : UdpLoop.run dev.socket maxRetries turns x = .returned (.ok data) net seq accepted) :
    ∃ done, Dialogue dev past x.tx done ∧ net.served = past ++ done ∧ net.InSync dev ∧
      seq = serial dev.first net.served.length ∧ accepted = x.accepted ++ done.map Served.answered ∧
      data = accepted.flatMap Prod.snd := by
  induction turns generalizing x past with
  | nil => simp [UdpLoop.run] at h
  | cons turn turns ih =>
    obtain ⟨world, hsn, hcs⟩ := UdpLoop.run_ok_cases h
    rw [hs] at hsn
    obtain ⟨ht, hnw⟩ := UdpDevice.turn_asking hask hsn
    rcases hcs with ⟨lastErr, left, hr⟩ | ⟨resp, payload, x', hm, hx', he⟩
    · exact ih (x := { x with world := (dev.socket.recv turn world).2, lastErr, left }) ht hs hc hr
    rw [hs] at hm
    obtain ⟨hsr, ha⟩ := ht.matched hnw hft hm
    have hsy := ht.inSync hnw hsr
    have hc' : x'.Collects := hx' ▸ UdpLoop.Collects.accept (x := { x with world := _ }) hc
      maxRetries resp payload
    have hs' : x'.seq = serial dev.first (past ++ [dev.next past x.tx]).length := by
      rw [hx', length_append, length_singleton, serial_add, ← hs]
      rfl
    have hacc' : x'.accepted = x.accepted ++ [(dev.next past x.tx).answered] := by
      rw [hx', ← ha]
      rfl
    have hf : resp.flags = (dev.next past x.tx).answer.flags := congrArg (·.1.flags) ha
    have hid : resp.id = (dev.next past x.tx).answer.id := congrArg (·.1.id) ha
    rw [hf] at he
    rcases he with ⟨hl, hret⟩ | ⟨hmr, hr⟩
    · obtain ⟨hv, hw, rfl, rfl⟩ := UdpReturn.returned.inj hret
      have hn : net = (dev.socket.recv turn world).2 := by
        rw [← hw, hx']
        rfl
      refine ⟨_, .last hl, ?_, ?_, ?_, hacc', hc'.value hv⟩
      · rw [hn, hsr]
      · rw [hn]
        exact hsy
      · rw [hs', hn, hsr]
    · have htx : x'.tx = ⟨(dev.next past x.tx).answer.id, udpFlagNone, []⟩ := by
        rw [hx', ← hid]
        rfl
      have hask' : x'.world.Asking dev (past ++ [dev.next past x.tx]) x'.tx := by
        rw [← hsr, hx']
        exact hsy.asking _
      obtain ⟨done, hd, hn, hin, hnum, hac, hdt⟩ := ih hask' hs' hc' hr
      rw [htx] at hd
      refine ⟨_, .more hmr hd, ?_, hin, hnum, ?_, hdt⟩
      · rw [hn, append_assoc, singleton_append]
      · rw [hac, hacc', append_assoc, singleton_append, map_cons]

end

/-- An exchange that returns data has been processed exactly once and in order, whatever the
network did, and leaves host and device ready for the next one. -/
theorem sendPacketWithAck_exactlyOnce {dev : UdpDevice} (hfits : dev.Fits) {maxRetries : Nat}
    {s seq : UInt16} {tx : UdpRequest} {turns : List UdpTurn} {net net' : UdpNet}
    {data : List UInt8} {accepted : List (UdpHeader × List UInt8)}
    (hsync : net.InSync dev) (hs : s = serial dev.first net.served.length)
    (h : sendPacketWithAck dev.socket maxRetries s tx turns net
      = .returned (.ok data) net' seq accepted) :
    ∃ (k : Nat) (done : List Served), done.length = k + 1 ∧ net'.served = net.served ++ done ∧
      accepted = done.map Served.answered ∧
      (∀ i sv, done[i]? = some sv → sv.header.seq = s + UInt16.ofNat i) ∧
      data = done.flatMap (fun sv => sv.answer.payload) ∧
      (∀ i sv, done[i]? = some sv → (sv.answer.flags &&& udpFlagContinuation = 0 ↔ i = k)) ∧
      seq = s + UInt16.ofNat (k + 1) ∧
      (∃ first prompts, done = first :: prompts ∧ first.header = tx.header s ∧
        first.payload = tx.payload ∧ ∀ sv ∈ prompts, sv.payload = []) ∧
      net'.InSync dev := by
  obtain ⟨done, hd, hsr, hin, hseq, ha, hdt⟩ :=
    UdpLoop.run_dialogue hfits (hsync.asking tx) hs (fun _ => rfl) h
  obtain ⟨prompts, hp, hm⟩ := hd.prompts
  have hl : done.length = prompts.length + 1 := by rw [hp, length_cons]
  rw [nil_append] at ha
  refine ⟨prompts.length, done, hl, hsr, ha, ?_, ?_, ?_, ?_, ⟨_, prompts, hp, ?_, rfl, hm⟩, hin⟩
  · intro i sv hi
    rw [hd.seq hi, serial_add, ← hs]
  · rw [hdt, ha, flatMap_map]
    rfl
  · intro i sv hi
    rw [hd.flags hi, hl]
    omega
  · rw [hseq, hsr, length_append, serial_add, ← hs, hl]
  · rw [hs]
    rfl

def UdpNet.quiet : UdpNet := ⟨0, none, [], [], []⟩

theorem UdpNet.quiet_inSync (dev : UdpDevice) : quiet.InSync dev where
  begun := rfl
  newest := by simp [quiet]
  requests _ hr := by simp [quiet] at hr
  served _ _ hj := by simp [quiet] at hj
  answers _ ha := by simp [quiet] at ha

def twoPartDevice : UdpDevice where
  first := 65535
  window := 1
  respond past _ _ := if past = [] then ⟨udpIdFastboot, udpFlagContinuation, [0x4F]⟩
    else ⟨udpIdFastboot, udpFlagNone, [0x4B]⟩

/-- The first request is lost, the second arrives twice, and the prompt meets the stale answer
before its own. -/
def roughTurns : List UdpTurn :=
  [⟨false, [], .nothing, "timed out"⟩, ⟨false, [1, 0], .answer 1, ""⟩,
    ⟨false, [], .answer 0, ""⟩, ⟨false, [2, 0], .answer 2, ""⟩]

theorem roughTurns_exactlyOnce : ∃ (k : Nat) (done : List Served), done.length = k + 1 ∧
    ([0x4F, 0x4B] : List UInt8) = done.flatMap (fun sv => sv.answer.payload) ∧
    (1 : UInt16) = 65535 + UInt16.ofNat (k + 1) := by
  have hf : twoPartDevice.Fits := by
    intro past header payload
    simp only [twoPartDevice]
    split <;> decide
  obtain ⟨k, done, hl, -, -, -, hd, -, hs, -⟩ :=
    sendPacketWithAck_exactlyOnce hf (UdpNet.quiet_inSync _)
      (rfl : (65535 : UInt16) = serial twoPartDevice.first UdpNet.quiet.served.length)
      (rfl : sendPacketWithAck twoPartDevice.socket 2 65535 ⟨udpIdFastboot, udpFlagNone, [0x78]⟩
        roughTurns UdpNet.quiet = .returned (.ok [0x4F, 0x4B]) _ 1 _)
  exact ⟨k, done, hl, hd, hs⟩

def echoDevice : UdpDevice where
  first := 0
  window := 1
  respond _ _ payload := ⟨udpIdFastboot, udpFlagNone, payload⟩

/-- A request is processed and its answer is lost. The next call goes out under the same number, gets
the old answer, and its own request is never processed. -/
theorem stale_answer_returned : ∃ error net net' accepted,
    sendPacketWithAck echoDevice.socket 0 0 ⟨udpIdFastboot, udpFlagNone, [1]⟩
        [⟨false, [0], .nothing, "timed out"⟩] UdpNet.quiet = .returned (.error error) net 0 [] ∧
      sendPacketWithAck echoDevice.socket 0 0 ⟨udpIdFastboot, udpFlagNone, [2]⟩
        [⟨false, [1], .answer 0, ""⟩] net = .returned (.ok [1]) net' 1 accepted ∧
      ∀ sv ∈ net'.served, sv.payload ≠ [2] := by
  refine ⟨_, _, _, _, rfl, rfl, fun sv hs => ?_⟩
  cases mem_singleton.mp hs
  decide

def constantDevice (payload : Bytes) : UdpDevice where
  first := 0
  window := 1
  respond _ _ _ := ⟨udpIdFastboot, udpFlagNone, payload⟩

/-- An answer longer than the receive buffer is returned without its end, and no error. -/
theorem longAnswer_cut : UdpNet.quiet.InSync (constantDevice (List.replicate 8189 0)) ∧
    ∃ data net seq accepted, sendPacketWithAck (constantDevice (List.replicate 8189 0)).socket 0 0
        ⟨udpIdFastboot, udpFlagNone, []⟩ [⟨false, [0], .answer 0, ""⟩] UdpNet.quiet
        = .returned (.ok data) net seq accepted ∧
      data ≠ net.served.flatMap (fun sv => sv.answer.payload) := by
  refine ⟨UdpNet.quiet_inSync _, (replicate 8189 0).take 8188, _, _, _, rfl, ?_⟩
  change (replicate 8189 (0 : UInt8)).take 8188 ≠ replicate 8189 0 ++ []
  intro h
  have hl := congrArg length h
  rw [length_take, length_append, length_replicate, length_nil] at hl
  omega

end AdbFastboot
