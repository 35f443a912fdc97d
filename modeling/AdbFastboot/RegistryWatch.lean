import AdbFastboot.RegistryDistinct

namespace AdbFastboot

open TransportRegistry List

def ServerState.Watched (s : ServerState) (serial : Text) : Prop :=
  ∃ w ∈ s.watchers, w.serial = serial

/-- No step gives a device a serial under which another connection is still watched. A connection
that gets its name is the one that has registered the device, and no other device has the name. -/
def KeepsWatch (s : ServerState) : ServerStep → Prop
  | .named call => ∀ ipSerial serial connection,
      s.calls[call]? = some (.naming ipSerial serial connection) →
      (∀ d ∈ s.registry.devices, d.serial = ipSerial ∨ d.serial = serial →
        s.owner d.transportId = some connection) ∧
      (s.registry.hasSerial ipSerial = true →
        ∀ w ∈ s.watchers, w.serial = serial → w.connection = connection)
  | a => ∀ serial, a.Gives s serial → ¬ s.Watched serial

/-- Every device under a watched serial belongs to the connection that is watched. -/
structure WatchersOwn (s : ServerState) : Prop where
  ids : s.registry.IdsFresh
  own : ∀ w ∈ s.watchers, ∀ d ∈ s.registry.devices, d.serial = w.serial →
    s.owner d.transportId = some w.connection

variable {s s' : ServerState} {a : ServerStep}

/-- A device after a step was there before, or the step gave it its name. -/
theorem step_devices (h : s.step a = some s') {d : DeviceEntry} (hd : d ∈ s'.registry.devices) :
    (∃ e ∈ s.registry.devices, e.serial = d.serial ∧ e.transportId = d.transportId) ∨
      a.Gives s d.serial := by
  cases hl : a.unlooked with
  | false => exact (step_edits h hl).named hd
  | true =>
    cases a with
    | named call =>
      simp only [ServerState.step] at h
      split at h
      next ipSerial serial connection hc =>
        cases h
        rcases mem_modifyFirst hd with hd | ⟨e, he, rfl⟩
        · exact .inl ⟨d, hd, rfl, rfl⟩
        · obtain ⟨hm, hs⟩ := findBySerial_mem he
          exact .inr ⟨ipSerial, connection, hc, hasSerial_iff.mpr ⟨e, hm, hs⟩⟩
      next => cases h
    | usbNext call =>
      simp only [ServerState.step] at h
      split at h
      next before now todo hc =>
        cases h
        cases todo with
        | nil =>
          have hp : TableEdits (fun _ => False) s.registry.table (s.registry.pruneUsb now).table :=
            s.registry.pruneUsb_edits now
          exact (hp.named hd).imp_right False.elim
        | cons serial todo =>
          rw [refreshNext_registry] at hd
          split at hd
          next => exact .inl ⟨d, hd, rfl, rfl⟩
          next hb =>
            rcases mem_append.mp hd with hd | hd
            · exact .inl ⟨d, hd, rfl, rfl⟩
            · cases mem_singleton.mp hd
              exact .inr ⟨before, now, todo, hc, Bool.not_eq_true _ ▸ hb⟩
      next => cases h
    | _ => cases hl

/-- No step gives an id again. -/
theorem step_keepsIds (h : s.step a = some s') : s.registry.table.KeepsIds s'.registry.table := by
  cases hl : a.unlooked with
  | false => exact (step_edits h hl).keepsIds
  | true =>
    cases a with
    | named call =>
      simp only [ServerState.step] at h
      split at h
      next =>
        cases h
        exact s.registry.renameDevice_keepsIds ..
      next => cases h
    | usbNext call =>
      simp only [ServerState.step] at h
      split at h
      next before now todo hc =>
        cases h
        cases todo with
        | nil =>
          have hp : TableEdits (fun _ => False) s.registry.table (s.registry.pruneUsb now).table :=
            s.registry.pruneUsb_edits now
          exact hp.keepsIds
        | cons serial todo =>
          rw [refreshNext_registry]
          split
          next => exact .refl _
          next => exact .append rfl
      next => cases h
    | _ => cases hl

theorem run_keepsIds {as : List ServerStep} (h : runSteps ServerState.step s as = some s') :
    s.registry.table.KeepsIds s'.registry.table := by
  induction as generalizing s with
  | nil =>
    cases h
    exact .refl _
  | cons a as ih =>
    obtain ⟨s1, hs, h⟩ := Option.bind_eq_some_iff.mp h
    exact (step_keepsIds hs).trans (ih h)

/-- Whatever happens to the registry, an id stands for one device, and an id that is gone stands for
no device again. -/
theorem transport_ids_not_reused {front back : List ServerStep} {s s' : ServerState}
    (hs : runSteps ServerState.step .start front = some s)
    (hs' : runSteps ServerState.step s back = some s') :
    s'.registry.IdsFresh ∧ s.registry.nextId ≤ s'.registry.nextId ∧
      ∀ d ∈ s'.registry.devices, d.transportId < s.registry.nextId →
        ∃ e ∈ s.registry.devices, e.transportId = d.transportId := by
  have hk := run_keepsIds hs'
  exact ⟨hk.fresh ((run_keepsIds hs).fresh start_distinct.ids), hk.next, hk.old⟩

theorem transport_ids_not_reused_usb : ∃ s s',
    runSteps ServerState.step .start [.registerUsb []] = some s ∧
      runSteps ServerState.step s [.unregister [], .registerUsb []] = some s' ∧
      s.registry.nextId ≤ s'.registry.nextId :=
  ⟨_, _, rfl, rfl, (@transport_ids_not_reused [.registerUsb []] [.unregister [], .registerUsb []]
    _ _ rfl rfl).2.1⟩

def ServerStep.touchesWatch : ServerStep → Bool
  | .connected _ _ _ => true
  | .named _ => true
  | .lost _ => true
  | _ => false

/-- Most steps leave the watchers and the owners alone. -/
theorem step_frame (h : s.step a = some s') (ha : a.touchesWatch = false) :
    s'.watchers = s.watchers ∧ s'.owner = s.owner := by
  cases a with
  | connected call addr banner | named call | lost watcher => cases ha
  | connect resolve target =>
    simp only [ServerState.step] at h
    split at h
    next => exact Option.some.inj h ▸ ⟨rfl, rfl⟩
    cases h
    split <;> exact ⟨rfl, rfl⟩
  | unreachable call =>
    simp only [ServerState.step] at h
    split at h
    next => exact Option.some.inj h ▸ ⟨rfl, rfl⟩
    next => cases h
  | usbNext call =>
    simp only [ServerState.step] at h
    split at h
    next before now todo hc =>
      cases h
      cases todo with
      | nil => exact ⟨rfl, rfl⟩
      | cons serial todo =>
        unfold ServerState.refreshNext
        dsimp only
        split <;> exact ⟨rfl, rfl⟩
    next => cases h
  | _ => exact Option.some.inj h ▸ ⟨rfl, rfl⟩

section

variable {s s' : ServerState}

theorem register_owner (s : ServerState) (call : Nat) (serial : Text) (addr : SocketAddr)
    (banner : Bytes) {id : Nat}
    (h : ∀ d ∈ (s.register call serial addr banner).registry.devices, d.serial = addr.toText →
      d.transportId ≠ id) :
    (s.register call serial addr banner).owner id = s.owner id := by
  unfold ServerState.register
  dsimp only
  cases hf : (HostDispatch.registerRemote addr banner s.registry).findBySerial addr.toText with
  | none => rfl
  | some d =>
    obtain ⟨hd, hs⟩ := findBySerial_mem hf
    exact Function.update_of_ne (h d hd hs).symm ..

variable (h : WatchersOwn s)
include h

/-- A new connection watches the device it has registered. -/
theorem WatchersOwn.connected {call addr : Nat} {banner : Bytes}
    (hk : KeepsWatch s (.connected call addr banner))
    (hs' : s.step (.connected call addr banner) = some s') : WatchersOwn s' := by
  have hi := (step_keepsIds hs').fresh h.ids
  refine ⟨hi, fun w hw d hd hsl => ?_⟩
  have hdv := step_devices hs' hd
  simp only [ServerState.step] at hs'
  split at hs'
  next serial addrs hc =>
    obtain ⟨address, ha, rfl⟩ := Option.map_eq_some_iff.mp hs'
    have hf := hk _ ⟨serial, addrs, address, hc, ha, rfl⟩
    have hne : d.serial ≠ address.toText := fun heq => hf ⟨w, hw, hsl ▸ heq⟩
    obtain ⟨e, he, hes, heid⟩ | ⟨_, _, address', hc', ha', hn⟩ := hdv
    · have ho := h.own w hw e he (hes.trans hsl)
      rw [heid] at ho
      rw [register_owner, ho]
      intro d' hd' hsl' hsm
      have heq := inj_on_of_nodup_map hi.distinct hd' hd hsm
      exact hne (heq ▸ hsl')
    · cases hc.symm.trans hc'
      cases ha.symm.trans ha'
      exact absurd hn hne
  next => cases hs'

/-- Naming a device keeps every watcher on its own. -/
theorem WatchersOwn.named {call : Nat} (hk : KeepsWatch s (.named call))
    (hs' : s.step (.named call) = some s') : WatchersOwn s' := by
  refine ⟨(step_keepsIds hs').fresh h.ids, ?_⟩
  simp only [ServerState.step] at hs'
  split at hs'
  next ipSerial serial connection hc =>
    cases hs'
    obtain ⟨hown, hot⟩ := hk ipSerial serial connection hc
    intro w hw d hd hsl
    rcases mem_modifyFirst hd with hm | ⟨e, he, rfl⟩
    · rcases mem_append.mp hw with hw | hw
      · exact h.own w hw d hm hsl
      · cases mem_singleton.mp hw
        exact hown d hm (.inr hsl)
    · obtain ⟨hm, hes⟩ := findBySerial_mem he
      have ho := hown e hm (.inl hes)
      rcases mem_append.mp hw with hw | hw
      · have hsm := hasSerial_iff.mpr ⟨e, hm, hes⟩
        rw [hot hsm w hw hsl.symm]
        exact ho
      · cases mem_singleton.mp hw
        exact ho
  next => cases hs'

theorem WatchersOwn.lost {watcher : Nat} (hs' : s.step (.lost watcher) = some s') : WatchersOwn s' := by
  refine ⟨(step_keepsIds hs').fresh h.ids, fun w hw d hd hsl => ?_⟩
  obtain ⟨e, he, hes, heid⟩ | hg := step_devices hs' hd
  · obtain ⟨w', -, rfl⟩ := Option.map_eq_some_iff.mp hs'
    have hw' := mem_of_mem_eraseIdx hw
    exact heid ▸ h.own w hw' e he (hes.trans hsl)
  · exact hg.elim

/-- A step that keeps the watch keeps every watcher on its own device. -/
theorem WatchersOwn.step {a : ServerStep} (hk : KeepsWatch s a) (hs' : s.step a = some s') :
    WatchersOwn s' := by
  cases ha : a.touchesWatch with
  | true =>
    cases a with
    | connected call addr banner => exact h.connected hk hs'
    | named call => exact h.named hk hs'
    | lost watcher => exact h.lost hs'
    | _ => cases ha
  | false =>
    obtain ⟨hwt, ho⟩ := step_frame hs' ha
    refine ⟨(step_keepsIds hs').fresh h.ids, fun w hw d hd hsl => ?_⟩
    rw [hwt] at hw
    rw [ho]
    obtain ⟨e, he, hes, heid⟩ | hg := step_devices hs' hd
    · exact heid ▸ h.own w hw e he (hes.trans hsl)
    have hf : ∀ serial, a.Gives s serial → ¬ s.Watched serial := by
      unfold KeepsWatch at hk
      split at hk
      next => cases ha
      next => exact hk
    exact absurd ⟨w, hw, hsl.symm⟩ (hf d.serial hg)

end

theorem getElem?_modifyFirst {α : Type} {p : α → Bool} {f : α → α} {xs : List α} {n : Nat} {x : α}
    (h : xs[n]? = some x) :
    (modifyFirst p f xs)[n]? = some x ∨ p x = true ∧ (modifyFirst p f xs)[n]? = some (f x) := by
  induction xs generalizing n with
  | nil => simp at h
  | cons y ys ih =>
    rw [modifyFirst]
    split
    next hy =>
      cases n with
      | zero =>
        cases h
        exact .inr ⟨hy, rfl⟩
      | succ n => exact .inl h
    next =>
      cases n with
      | zero => exact .inl h
      | succ n => exact ih h

/-- In every run whose steps meet the condition, the end of a connection changes no device but one
that the connection itself has registered. -/
theorem watcher_marks_own {steps : List ServerStep} {s : ServerState}
    (hmeet : StepsMeet ServerState.step KeepsWatch .start steps)
    (hrun : runSteps ServerState.step .start steps = some s) {i : Nat} {w : Watcher}
    (hw : s.watchers[i]? = some w) :
    ∃ s', s.step (.lost i) = some s' ∧
      ∀ (n : Nat) (d : DeviceEntry), s.registry.devices[n]? = some d →
        s'.registry.devices[n]? = some d ∨ s.owner d.transportId = some w.connection ∧
          s'.registry.devices[n]? = some { d with state := .offline } := by
  have ho := runSteps_invariant (fun h hk hs' => WatchersOwn.step h hk hs')
    ⟨start_distinct.ids, fun _ hw => nomatch hw⟩ hmeet hrun
  refine ⟨_, by rw [ServerState.step, hw]; rfl, fun n d hd => ?_⟩
  rcases getElem?_modifyFirst hd with hsm | ⟨hsl, hm⟩
  · exact .inl hsm
  · exact .inr ⟨ho.own w (List.mem_of_getElem? hw) d (List.mem_of_getElem? hd)
      (of_decide_eq_true hsl), hm⟩

def emulatorConnects : List ServerStep := [.emulator 5555, .connected 0 0 [], .named 0]

theorem watcher_marks_own_emulator :
    ∃ s s', runSteps ServerState.step .start emulatorConnects = some s ∧
      s.step (.lost 0) = some s' ∧ ∀ (n : Nat) (d : DeviceEntry), s.registry.devices[n]? = some d →
        s'.registry.devices[n]? = some d ∨ s.owner d.transportId = some 0 ∧
          s'.registry.devices[n]? = some { d with state := .offline } := by
  have hmt : StepsMeet ServerState.step KeepsWatch .start emulatorConnects := by
    refine ⟨fun _ hg => hg.elim, fun s₁ hs₁ => ?_⟩
    cases hs₁
    refine ⟨fun _ _ ⟨_, hw, _⟩ => (nomatch hw), fun s₂ hs₂ => ?_⟩
    cases hs₂
    refine ⟨fun ipSerial serial connection hc => ?_, fun _ _ => trivial⟩
    cases hc
    refine ⟨fun d hd _ => ?_, fun _ _ hw => nomatch hw⟩
    cases List.mem_singleton.mp hd
    rfl
  obtain ⟨s', hs', hm⟩ := watcher_marks_own (i := 0) (w := ⟨"emulator-5554".toList, 0⟩) hmt
    rfl rfl
  exact ⟨_, s', rfl, hs', hm⟩

/-- An emulator is disconnected and connected again: the watcher of the first connection still waits,
and marks the device of the second. -/
theorem watcher_marks_other : ∃ s s' w d, runSteps ServerState.step .start
        (emulatorConnects ++ .disconnect "emulator-5554".toList :: emulatorConnects) = some s ∧
      s.watchers[0]? = some w ∧ w.connection = 0 ∧
      s.registry.devices = [d] ∧ s.owner d.transportId = some 1 ∧ d.state = .device ∧
      s.step (.lost 0) = some s' ∧ s'.registry.devices = [{ d with state := .offline }] :=
  ⟨_, _, _, _, rfl, rfl, rfl, rfl, rfl, rfl, rfl, rfl⟩

end AdbFastboot
