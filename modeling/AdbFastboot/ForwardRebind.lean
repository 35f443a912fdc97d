import AdbFastboot.DeviceTable
import AdbFastboot.ForwardTable

namespace AdbFastboot

open List

def tcpSpec (port : Nat) : Text := "tcp:".toList ++ decimal port

def localPort (localSpec : Text) : Option Nat :=
  if "tcp:".toList.isPrefixOf localSpec || localSpec.all Char.isDigit then
    fromStrRadix 10 (2 ^ 16) (("tcp:".toList.isPrefixOf? localSpec).getD localSpec)
  else none

/-- The operating system refuses to bind a port exactly while a live listener holds it. -/
structure RefusesHeld (osBind : List Nat → Nat → Except ListenError Nat) : Prop where
  held : ∀ {ports port}, port ∈ ports → ∃ e, osBind ports port = .error (.bind e)
  free : ∀ {ports port}, port ≠ 0 → port ∉ ports → osBind ports port = .ok port
  /-- Asked for port 0, it picks a free one. -/
  picked : ∀ {ports port}, osBind ports 0 = .ok port → port ≠ 0 ∧ port ∉ ports

variable {port bound : Nat} {localSpec : Text}

theorem RefusesHeld.bound_ne_zero {osBind : OsBind}
    (h : RefusesHeld osBind) {ports : List Nat} (ho : osBind ports port = .ok bound) :
    bound ≠ 0 := by
  by_cases hp : port = 0
  · subst hp
    exact (h.picked ho).1
  by_cases hh : port ∈ ports
  · obtain ⟨e, he⟩ := h.held hh
    cases he.symm.trans ho
  · cases (h.free hp hh).symm.trans ho
    exact hp

theorem tcpSpec_inj {p q : Nat} (h : tcpSpec p = tcpSpec q) : p = q := by
  have ht := append_cancel_left h
  have hr : ∀ n ≤ max p q, fromStrRadix 10 (max p q + 1) (decimal n) = some n := fun n hn =>
    fromStrRadix_toDigits (by omega) (by omega) (Nat.lt_succ_of_le hn)
  have hp := hr p (Nat.le_max_left p q)
  rw [ht] at hp
  exact Option.some.inj (hp.symm.trans (hr q (Nat.le_max_right p q)))

variable {listen : Nat → Except ListenError Nat}

theorem forwardListener_error {e : Text} (hp : localPort localSpec = some port)
    (he : listen port = .error (.bind e)) :
    forwardListener listen localSpec
      = .error ("cannot bind listener for ".toList ++ localSpec ++ ": ".toList ++ e) := by
  unfold localPort at hp
  split at hp
  next ht =>
    rw [forwardListener, if_pos ht, hp]
    simp [he]
  next => cases hp

theorem forwardListener_bound (hp : localPort localSpec = some port) (hb : listen port = .ok bound) :
    forwardListener listen localSpec = .ok (bound, tcpSpec bound, true) := by
  unfold localPort at hp
  split at hp
  next ht =>
    rw [forwardListener, if_pos ht, hp]
    simp only [hb]
    rfl
  next => cases hp

/-- What the spec of an accepted rule is: a TCP port that is bound, or not TCP. -/
def ListensFor (listen : Nat → Except ListenError Nat) (localSpec : Text) (bound : Nat)
    (canonical : Text) (listens : Bool) : Prop :=
  (listens = true ∧ canonical = tcpSpec bound ∧
      ∃ port, localPort localSpec = some port ∧ listen port = .ok bound)
    ∨ (listens = false ∧ canonical = localSpec ∧ localPort localSpec = none ∧
      ∀ port, canonical ≠ tcpSpec port)

/-- A listener was bound under the canonical text of its port. -/
theorem forwardListener_ok {canonical : Text} {listens : Bool}
    (h : forwardListener listen localSpec = .ok (bound, canonical, listens)) :
    ListensFor listen localSpec bound canonical listens := by
  unfold forwardListener at h
  split at h
  next ht =>
    split at h
    next => cases h
    next port hp =>
      split at h
      next => cases h
      next => cases h
      next hb =>
        cases h
        exact .inl ⟨rfl, rfl, port, by rw [localPort, if_pos ht, hp], hb⟩
  next ht =>
    cases h
    refine .inr ⟨rfl, rfl, by rw [localPort, if_neg ht], ?_⟩
    rintro port rfl
    exact ht (by rw [tcpSpec]; rfl)

namespace ForwardServer

/-- `add_forward` without `no_rebind` gives the spec one rule, new, whose listener is live; if it
fails, nothing has changed. -/
structure Rebinds (osBind : List Nat → Nat → Except ListenError Nat) (s : ForwardServer)
    (localSpec remoteSpec : Text) (port : Nat) : Prop where
  succeeds : ∃ answer s' flag, s.addForward osBind localSpec remoteSpec false = (.ok answer, s')
    ∧ (s'.entries.filter fun e => decide (e.rule.localSpec = tcpSpec port))
      = [⟨⟨s.registry.ruleSerial, tcpSpec port, remoteSpec⟩, flag⟩]
    ∧ s'.flags[flag]? = some true ∧ ∃ l ∈ s'.listeners, l.active = flag ∧ l.port = port
  unchanged : ∀ {e s'}, s.addForward osBind localSpec remoteSpec false = (.error e, s') → s' = s

section

variable {osBind : OsBind} {s : ForwardServer}
  {localSpec remoteSpec : Text} {port : Nat}

/-- A rule that is refused changes nothing. -/
theorem addForward_unchanged {noRebind : Bool} {e : Text} {s' : ForwardServer}
    (h : s.addForward osBind localSpec remoteSpec noRebind = (.error e, s')) : s' = s := by
  unfold addForward at h
  split at h
  next =>
    cases h
    rfl
  split at h
  next =>
    cases h
    rfl
  next => cases h

theorem removeForward_entries (port : Nat) : (s.removeForward (tcpSpec port)).2.entries
      = s.entries.filter fun e => !decide (e.rule.localSpec = tcpSpec port) := by
  have ht : "tcp:".toList.isPrefixOf (tcpSpec port) = true := rfl
  simp only [removeForward, ht, Bool.not_true, Bool.false_and, Bool.false_eq_true, if_false, or_self]

theorem addForward_bound (remoteSpec : Text) (hp : localPort localSpec = some port)
    (hf : osBind s.heldPorts port = .ok port) :
    ∃ answer, s.addForward osBind localSpec remoteSpec false = (.ok answer,
      (s.removeForward (tcpSpec port)).2.pushForward port (tcpSpec port) remoteSpec true) := by
  rw [addForward, forwardListener_bound hp hf]
  exact ⟨_, rfl⟩

/-- A port that no listener holds is bound again for the new rule. -/
theorem rebinds_of_free (hp : localPort localSpec = some port)
    (hf : osBind s.heldPorts port = .ok port) : Rebinds osBind s localSpec remoteSpec port := by
  obtain ⟨answer, ha⟩ := addForward_bound remoteSpec hp hf
  refine ⟨⟨answer, _, (s.removeForward (tcpSpec port)).2.flags.length, ha, ?_, ?_, ?_⟩,
    addForward_unchanged⟩
  · have hg : ((s.removeForward (tcpSpec port)).2.entries.filter
        fun e => decide (e.rule.localSpec = tcpSpec port)) = [] := by
      rw [removeForward_entries, filter_eq_nil_iff]
      intro e he
      simpa using (mem_filter.mp he).2
    rw [pushForward, filter_append, hg]
    simp only [nil_append, decide_true, filter_cons_of_pos, filter_nil]
    rfl
  · exact getElem?_concat_length
  · exact ⟨_, mem_append_right _ (mem_singleton.mpr rfl), rfl, rfl⟩

/-- A port that is held is refused, and the rule stays. -/
theorem not_rebinds_of_held (ho : RefusesHeld osBind) (hp : localPort localSpec = some port)
    (hh : port ∈ s.heldPorts) : ¬ Rebinds osBind s localSpec remoteSpec port := by
  rintro ⟨⟨answer, s', flag, ha, -⟩, -⟩
  obtain ⟨e, he⟩ := ho.held hh
  rw [addForward, forwardListener_error hp he] at ha
  cases (Prod.mk.inj ha).1

end

def HasRule (s : ForwardServer) (port : Nat) : Prop :=
  ∃ e ∈ s.entries, e.rule.localSpec = tcpSpec port

theorem addForward_ok {osBind : OsBind} {s s' : ForwardServer}
    {localSpec remoteSpec answer : Text} {noRebind : Bool}
    (h : s.addForward osBind localSpec remoteSpec noRebind = (.ok answer, s')) :
    ∃ bound canonical listens,
      s' = (s.removeForward canonical).2.pushForward bound canonical remoteSpec listens
        ∧ ListensFor (osBind s.heldPorts) localSpec bound canonical listens := by
  unfold addForward at h
  split at h
  next => cases h
  next bound canonical listens hl =>
    split at h
    next => cases h
    cases h
    exact ⟨bound, canonical, listens, rfl, forwardListener_ok hl⟩

/-- `add_forward` changes nothing, or replaces the rule of the spec. -/
theorem addForward_cases (osBind : OsBind) (s : ForwardServer)
    (localSpec remoteSpec : Text) (noRebind : Bool) :
    (s.addForward osBind localSpec remoteSpec noRebind).2 = s ∨ ∃ bound canonical listens,
        (s.addForward osBind localSpec remoteSpec noRebind).2
            = (s.removeForward canonical).2.pushForward bound canonical remoteSpec listens
          ∧ ListensFor (osBind s.heldPorts) localSpec bound canonical listens := by
  rcases ha : s.addForward osBind localSpec remoteSpec noRebind with ⟨e | answer, s'⟩
  · exact .inl (addForward_unchanged ha)
  · exact .inr (addForward_ok ha)

def NonzeroPorts (s : ForwardServer) : Prop := ¬ s.HasRule 0

variable {s : ForwardServer} {s' : ForwardServer}
  {osBind : OsBind}

theorem NonzeroPorts.mono (h : s.NonzeroPorts) (hsub : ∀ e ∈ s'.entries, e ∈ s.entries) :
    s'.NonzeroPorts := by
  rintro ⟨e, he, hs⟩
  exact h ⟨e, hsub e he, hs⟩

/-- No rule is ever listed for port 0. -/
theorem step_nonzeroPorts (ho : RefusesHeld osBind) {a : ForwardStep} (h : s.NonzeroPorts)
    (hst : s.step osBind a = some s') : s'.NonzeroPorts := by
  cases step_stepped hst with
  | addForward localSpec remoteSpec noRebind =>
    obtain hsm | ⟨bound, canonical, listens, ha, hr⟩ :=
      addForward_cases osBind s localSpec remoteSpec noRebind
    · rw [hsm]
      exact h
    rw [ha]
    rintro ⟨e, he, hs⟩
    rcases mem_append.mp he with he | he
    · exact h ⟨e, mem_of_mem_filter he, hs⟩
    cases mem_singleton.mp he
    rcases hr with ⟨-, hc, port, -, hb⟩ | ⟨-, -, -, hne⟩
    · exact ho.bound_ne_zero hb (tcpSpec_inj (hc.symm.trans hs))
    · exact hne 0 hs
  | removeForward => exact h.mono fun e he => mem_of_mem_filter he
  | removeAllForwards => exact h.mono fun e he => nomatch he
  | devicesChange | goesOn | ends | accept | acceptError | spawnFails | connect => exact h

/-- Every rule of the table has its flag up, no other rule's, and if it is a TCP rule a live
listener. -/
structure Serving (s : ForwardServer) : Prop where
  nodup : (s.entries.map ForwardEntry.activeFlag).Nodup
  up : ∀ e ∈ s.entries, s.flags[e.activeFlag]? = some true
  listens : ∀ e ∈ s.entries, ∀ port, e.rule.localSpec = tcpSpec port →
    ∃ l ∈ s.listeners, l.active = e.activeFlag ∧ l.port = port

/-- A flag stays up exactly if none of the removed rules has it. -/
theorem lowerFlags_up {flag : Nat} (entries : List ForwardEntry) (flags : List Bool) :
    (lowerFlags entries flags)[flag]? = some true
      ↔ flags[flag]? = some true ∧ ∀ e ∈ entries, e.activeFlag ≠ flag := by
  induction entries generalizing flags with
  | nil => simp [lowerFlags]
  | cons e entries ih =>
    refine (ih (flags.set e.activeFlag false)).trans ?_
    by_cases hf : e.activeFlag = flag
    · simp [hf, getElem?_set]
    · simp [hf, getElem?_set_ne hf]

theorem Serving.removeForward (h : s.Serving) (localSpec : Text) :
    (s.removeForward localSpec).2.Serving := by
  refine ⟨h.nodup.sublist (filter_sublist.map _), fun e he => ?_,
    fun e he => h.listens e (mem_of_mem_filter he)⟩
  obtain ⟨hm, hs⟩ := mem_filter.mp he
  refine (lowerFlags_up _ _).mpr ⟨h.up e hm, fun e' he' hf => ?_⟩
  obtain ⟨hm', hg⟩ := mem_filter.mp he'
  cases inj_on_of_nodup_map h.nodup hm' hm hf
  exact absurd hg (by simpa using hs)

theorem Serving.pushForward (h : s.Serving) {bound : Nat} {canonical : Text} {listens : Bool}
    (remoteSpec : Text) {listen : Nat → Except ListenError Nat} {localSpec : Text}
    (hr : ListensFor listen localSpec bound canonical listens) :
    (s.pushForward bound canonical remoteSpec listens).Serving := by
  have hlt : ∀ e ∈ s.entries, e.activeFlag < s.flags.length := fun e he =>
    (List.getElem?_eq_some_iff.mp (h.up e he)).1
  constructor
  · exact nodup_map_append h.nodup fun e he => Nat.ne_of_lt (hlt e he)
  · intro e he
    rcases mem_append.mp he with he | he
    · exact (List.getElem?_append_left (hlt e he)).trans (h.up e he)
    · cases mem_singleton.mp he
      exact List.getElem?_concat_length
  · intro e he port hs
    rcases mem_append.mp he with he | he
    · obtain ⟨l, hl, hsr⟩ := h.listens e he port hs
      refine ⟨l, ?_, hsr⟩
      rw [ForwardServer.pushForward]
      split
      next => exact mem_append_left _ hl
      next => exact hl
    · cases mem_singleton.mp he
      rcases hr with ⟨rfl, hc, -⟩ | ⟨-, -, -, hne⟩
      · exact ⟨_, mem_append_right _ (mem_singleton.mpr rfl), rfl, tcpSpec_inj (hc.symm.trans hs)⟩
      · exact absurd hs (hne port)

section

variable {i : Nat} {l : ForwardListener} (h : s.Serving) (hl : s.listeners[i]? = some l)
include h hl

theorem Serving.setAccepting (accepting : Bool) : (s.setAccepting i l accepting).Serving := by
  refine ⟨h.nodup, h.up, fun e he port hsp => ?_⟩
  obtain ⟨l', hm, hs⟩ := h.listens e he port hsp
  obtain ⟨j, hj⟩ := mem_iff_getElem?.mp hm
  by_cases hi : i = j
  · subst hi
    cases hl.symm.trans hj
    exact ⟨_, mem_set (List.getElem?_eq_some_iff.mp hl).1 _, hs⟩
  · refine ⟨l', mem_iff_getElem?.mpr ⟨j, ?_⟩, hs⟩
    exact (List.getElem?_set_ne hi).trans hj

theorem Serving.dropListener (hd : s.flags[l.active]? ≠ some true) : (s.dropListener i).Serving := by
  refine ⟨h.nodup, h.up, fun e he port hs => ?_⟩
  obtain ⟨l', hm, ha, hsr⟩ := h.listens e he port hs
  obtain ⟨j, hj⟩ := mem_iff_getElem?.mp hm
  refine ⟨l', mem_eraseIdx_iff_getElem?.mpr ⟨j, ?_, hj⟩, ha, hsr⟩
  rintro rfl
  cases hl.symm.trans hj
  exact hd (ha ▸ h.up e he)

end

/-- Unless a thread cannot be spawned, every listed rule keeps its listener. -/
theorem step_serving {a : ForwardStep} (h : s.Serving) (hsp : ∀ i, a ≠ .spawnFails i)
    (hst : s.step osBind a = some s') : s'.Serving := by
  cases step_stepped hst with
  | addForward localSpec remoteSpec noRebind =>
    obtain hs | ⟨bound, canonical, listens, ha, hr⟩ :=
      addForward_cases osBind s localSpec remoteSpec noRebind
    · rw [hs]
      exact h
    · rw [ha]
      exact (h.removeForward canonical).pushForward remoteSpec hr
  | removeForward localSpec => exact h.removeForward localSpec
  | removeAllForwards => exact ⟨nodup_nil, nofun, nofun⟩
  | devicesChange | connect => exact ⟨h.nodup, h.up, h.listens⟩
  | goesOn hl => exact h.setAccepting hl true
  | ends hl hd => exact h.dropListener hl hd
  | accept hl =>
    obtain ⟨hn, hu, hls⟩ := h.setAccepting hl false
    exact ⟨hn, hu, hls⟩
  | acceptError hl => exact h.setAccepting hl false
  | spawnFails i => exact absurd rfl (hsp i)

/-- A spec of the table is rebound exactly if no live listener holds its port. As long as every
connection gets its thread, the listener of the rule itself does. -/
theorem add_forward_rebinds_iff {osBind : List Nat → Nat → Except ListenError Nat}
    (hos : RefusesHeld osBind) {registry : TransportRegistry} {as : List ForwardStep}
    {s : ForwardServer} (hrun : runSteps (step osBind) (start registry) as = some s)
    {localSpec : Text} {port : Nat} (hport : localPort localSpec = some port)
    (hrule : s.HasRule port) (remoteSpec : Text) :
    (Rebinds osBind s localSpec remoteSpec port ↔ port ∉ s.heldPorts)
      ∧ ((∀ i, .spawnFails i ∉ as) → port ∈ s.heldPorts) := by
  have hn : s.NonzeroPorts := by
    have hm : StepsMeet (step osBind) (fun _ _ => True) (start registry) as :=
      .of_forall (fun _ _ => trivial) _ _
    have hs : (start registry).NonzeroPorts := by
      rintro ⟨e, he, -⟩
      cases he
    exact runSteps_invariant (fun h _ => step_nonzeroPorts hos h) hs hm hrun
  constructor
  · constructor
    · exact fun hr hh => not_rebinds_of_held hos hport hh hr
    · intro hf
      have hne : port ≠ 0 := by
        rintro rfl
        exact hn hrule
      exact rebinds_of_free hport (hos.free hne hf)
  · intro hsp
    have hm : StepsMeet (step osBind) (fun _ a => ∀ i, a ≠ .spawnFails i) (start registry) as :=
      .of_mem (fun a ha _ i hi => hsp i (by rwa [← hi])) _
    have hs : (start registry).Serving :=
      ⟨nodup_nil, fun e he => (nomatch he), fun e he => (nomatch he)⟩
    have hsg := runSteps_invariant step_serving hs hm hrun
    obtain ⟨e, he, hsc⟩ := hrule
    obtain ⟨l, hl, -, hlp⟩ := hsg.listens e he port hsc
    exact mem_map.mpr ⟨l, hl, hlp⟩

def loopbackBind (ports : List Nat) (port : Nat) : Except ListenError Nat :=
  let bound := if port = 0 then 49152 else port
  if port ∈ ports ∨ bound ∈ ports then .error (.bind "Address already in use (os error 98)".toList)
  else .ok bound

theorem loopbackBind_refusesHeld : RefusesHeld loopbackBind where
  held hhl := ⟨_, if_pos (.inl hhl)⟩
  free hne hfr := by
    simp only [loopbackBind, if_neg hne, or_self]
    exact if_neg hfr
  picked {ports port} hok := by
    simp only [loopbackBind, if_true] at hok
    split at hok
    next => cases hok
    next hfr =>
      cases hok
      exact ⟨by decide, fun hmem => hfr (.inr hmem)⟩

def rule8080 : ForwardRule := ⟨"127.0.0.1:5555".toList, "tcp:8080".toList, "tcp:9000".toList⟩

def add8080 : ForwardStep := .addForward "tcp:8080".toList "tcp:9000".toList false

/-- The listener of the rule is gone, since it found no thread for a connection. -/
theorem add_forward_rebinds_iff_gone :
    let s : ForwardServer := ⟨noDevices, [⟨rule8080, 0⟩], [true], [], [], []⟩
    runSteps (step loopbackBind) (start noDevices) [add8080, .poll 0, .spawnFails 0] = some s
      ∧ localPort "8080".toList = some 8080 ∧ s.HasRule 8080
      ∧ Rebinds loopbackBind s "8080".toList "tcp:9001".toList 8080 := by
  intro s
  have hrun : runSteps (step loopbackBind) (start noDevices) [add8080, .poll 0, .spawnFails 0]
      = some s := by decide
  have hp : localPort "8080".toList = some 8080 := by decide
  have hr : s.HasRule 8080 := ⟨⟨rule8080, 0⟩, mem_singleton.mpr rfl, by decide⟩
  have hrb := add_forward_rebinds_iff loopbackBind_refusesHeld hrun hp hr "tcp:9001".toList
  exact ⟨hrun, hp, hr, hrb.1.mpr (by decide)⟩

/-- A rule for port 8080 cannot be replaced by one to another port of the device. -/
theorem add_forward_not_rebinds : let s : ForwardServer :=
      ⟨noDevices, [⟨rule8080, 0⟩], [true], [⟨8080, 0, rule8080, false⟩], [], []⟩
    runSteps (step loopbackBind) (start noDevices) [add8080] = some s
      ∧ localPort "tcp:8080".toList = some 8080 ∧ s.HasRule 8080
      ∧ ¬ Rebinds loopbackBind s "tcp:8080".toList "tcp:9001".toList 8080 := by
  intro s
  have hp : localPort "tcp:8080".toList = some 8080 := by decide
  exact ⟨by decide, hp, ⟨⟨rule8080, 0⟩, mem_singleton.mpr rfl, by decide⟩,
    not_rebinds_of_held loopbackBind_refusesHeld hp (by decide)⟩

end ForwardServer

end AdbFastboot
