import AdbFastboot.MdnsDevices
import AdbFastboot.RegistryThreads

namespace AdbFastboot

open TransportRegistry HostDispatch List

section

variable {α : Type}

/-- `swap_remove` takes one element out, and moves the last into its place. -/
theorem swapRemove_subperm (xs : List α) {i : Nat} (hi : i < xs.length) : (swapRemove xs i).Subperm xs := by
  unfold swapRemove
  split
  next => exact .refl _
  next last hl =>
    split
    next => exact (dropLast_sublist xs).subperm
    next hne =>
      have hlt : i < xs.dropLast.length := by rw [length_dropLast]; omega
      have hx := (dropLast_append_getLast? last hl).symm
      have hp : (xs.dropLast.set i last).Perm (xs.dropLast.eraseIdx i ++ [last]) := by
        rw [set_eq_take_append_cons_drop, if_pos hlt, eraseIdx_eq_take_drop_succ]
        exact perm_middle.trans (perm_append_singleton _ _).symm
      refine ⟨_, hp.symm, ?_⟩
      conv => rhs; rw [hx]
      exact (eraseIdx_sublist ..).append (.refl _)

theorem swapPrune_subperm (gone : α → Bool) (turns i : Nat) (xs : List α) :
    (swapPrune gone turns i xs).Subperm xs := by
  induction turns generalizing i xs with
  | zero => exact .refl _
  | succ turns ih =>
    rw [swapPrune]
    split
    next => exact .refl _
    next x hx =>
      obtain ⟨hi, -⟩ := List.getElem?_eq_some_iff.mp hx
      split
      next => exact (ih i _).trans (swapRemove_subperm xs hi)
      next => exact ih (i + 1) xs

end

namespace TransportRegistry

variable {reg : TransportRegistry} {given : Text → Prop} {serial : Text}

theorem hasSerial_iff : reg.hasSerial serial = true ↔ ∃ d ∈ reg.devices, d.serial = serial := by
  simp [hasSerial]

theorem hasSerial_eq_false : reg.hasSerial serial = false ↔ ∀ d ∈ reg.devices, d.serial ≠ serial := by
  simp [hasSerial]

theorem upsertTcpDevice_edits (reg : TransportRegistry) (addr : SocketAddr) (serial : Text) :
    TableEdits (fun name => name = serial ∧ reg.hasSerial serial = false) reg.table
      (reg.upsertTcpDevice addr serial).table := by
  unfold upsertTcpDevice
  split
  next => exact .single (.change (fun _ => rfl) fun _ => rfl)
  next hn =>
    have hf := findBySerial_eq_none.mp (Option.not_isSome_iff_eq_none.mp hn)
    exact .single (.add rfl hf ⟨rfl, hasSerial_eq_false.mpr hf⟩)

theorem setProperty_names (d : DeviceEntry) (part : Text) : (setProperty d part).serial = d.serial ∧
    (setProperty d part).transportId = d.transportId ∧ (setProperty d part).origin = d.origin := by
  unfold setProperty
  split
  next => exact ⟨rfl, rfl, rfl⟩
  dsimp only
  repeat' split
  all_goals exact ⟨rfl, rfl, rfl⟩

theorem setProperties_names (parts : List Text) (d : DeviceEntry) :
    (parts.foldl setProperty d).serial = d.serial ∧
    (parts.foldl setProperty d).transportId = d.transportId ∧
    (parts.foldl setProperty d).origin = d.origin := by
  induction parts generalizing d with
  | nil => exact ⟨rfl, rfl, rfl⟩
  | cons part parts ih =>
    obtain ⟨hs, hi, ho⟩ := setProperty_names d part
    exact ⟨(ih _).1.trans hs, (ih _).2.1.trans hi, (ih _).2.2.trans ho⟩

/-- Registering a remote device names only an address that is new. -/
theorem registerRemote_edits (reg : TransportRegistry) (addr : SocketAddr) (banner : Bytes) :
    TableEdits (fun name => name = addr.toText ∧ reg.hasSerial addr.toText = false) reg.table
      (registerRemote addr banner reg).table := by
  unfold registerRemote
  have hu := reg.upsertTcpDevice_edits addr addr.toText
  split
  next => exact hu
  exact hu.tail
    (.change (fun d => (setProperties_names _ _).1) fun d => (setProperties_names _ _).2.1)

theorem registerUsbDevice_edits (reg : TransportRegistry) (serial : Text) :
    TableEdits (fun name => name = serial ∧ reg.hasSerial serial = false) reg.table
      (reg.registerUsbDevice serial).table := by
  unfold registerUsbDevice
  split
  next => exact .refl
  next hn =>
    have hn' := Bool.not_eq_true _ ▸ hn
    exact .single (.add rfl (hasSerial_eq_false.mp hn') ⟨rfl, hn'⟩)

theorem registerUsbDevice_hasSerial {name : Text}
    (h : (reg.registerUsbDevice serial).hasSerial name = false) : reg.hasSerial name = false := by
  rw [hasSerial_eq_false] at h ⊢
  intro d hd
  refine h d ?_
  unfold registerUsbDevice
  split
  next => exact hd
  next => exact mem_append_left _ hd

/-- Registering USB devices names only serials that are new. -/
theorem registerUsbDevices_edits (serials : List Text) (reg : TransportRegistry) :
    TableEdits (fun name => name ∈ serials ∧ reg.hasSerial name = false) reg.table
      (serials.foldl registerUsbDevice reg).table := by
  induction serials generalizing reg with
  | nil => exact .refl
  | cons serial serials ih =>
    have hft := (reg.registerUsbDevice_edits serial).imp
      (fun name ⟨hn, hf⟩ => (⟨hn ▸ mem_cons_self, hn ▸ hf⟩ :
        name ∈ serial :: serials ∧ reg.hasSerial name = false))
    refine hft.trans ((ih (reg.registerUsbDevice serial)).imp ?_)
    rintro name ⟨hn, hf⟩
    exact ⟨mem_cons_of_mem serial hn, registerUsbDevice_hasSerial hf⟩

theorem pruneUsb_edits (reg : TransportRegistry) (now : List Text) :
    TableEdits given reg.table (reg.pruneUsb now).table :=
  .single (.drop (swapPrune_subperm ..))

def foundSerial (service : MdnsService) : Option Text :=
  service.addresses.head?.map fun ip =>
    service.deviceSerial.getD (ip.toText ++ ':' :: decimal service.port.toNat)

/-- An advertised device is named only if its serial is new. -/
theorem updateRegistryDevice_edits (reg : TransportRegistry) (service : MdnsService) :
    TableEdits (fun name => foundSerial service = some name ∧ reg.hasSerial name = false) reg.table
      (reg.updateRegistryDevice service).table := by
  unfold updateRegistryDevice foundSerial
  split
  next => exact .refl
  next ip rest ha =>
    refine (reg.upsertTcpDevice_edits ..).imp ?_
    rintro name ⟨rfl, hf⟩
    exact ⟨by rw [ha]; rfl, hf⟩

end TransportRegistry

/-- The serials that a step gives to a device that has them not yet. -/
def ServerStep.Gives (s : ServerState) : ServerStep → Text → Prop
  | .connected call addr _, name => ∃ serial addrs address,
      s.calls[call]? = some (.connecting serial addrs) ∧ addrs[addr]? = some address ∧
        name = address.toText
  | .named call, name => ∃ ipSerial connection,
      s.calls[call]? = some (.naming ipSerial name connection) ∧
        s.registry.hasSerial ipSerial = true
  | .usbPoll candidates, name =>
      name ∈ candidates.map UsbCandidate.name ∧ s.registry.hasSerial name = false
  | .usbNext call, name => ∃ before now todo,
      s.calls[call]? = some (.refreshing before now (name :: todo)) ∧ before.contains name = false
  | .registerUsb serial, name => name = serial ∧ s.registry.hasSerial serial = false
  | .registerTcp _ serial, name => name = serial ∧ s.registry.hasSerial serial = false
  | .mdnsEvent order event discovered, name => EventGives s.discovery ⟨order, event, discovered⟩ name
  | .mdnsFound service, name =>
      TransportRegistry.foundSerial service = some name ∧ s.registry.hasSerial name = false
  | _, _ => False

def ServerStep.unlooked : ServerStep → Bool
  | .named _ => true
  | .usbNext _ => true
  | _ => false

/-- A step that looks serials up first edits the table. -/
theorem step_edits {s s' : ServerState} {a : ServerStep} (h : s.step a = some s')
    (hl : a.unlooked = false) :
    TableEdits (a.Gives s) s.registry.table s'.registry.table := by
  cases a with
  | named call | usbNext call => cases hl
  | connect resolve target =>
    simp only [ServerState.step] at h
    split at h
    next => exact Option.some.inj h ▸ .refl
    cases h
    split <;> exact .refl
  | emulator port => exact Option.some.inj h ▸ .refl
  | connected call addr banner =>
    simp only [ServerState.step] at h
    split at h
    next serial addrs hc =>
      obtain ⟨address, ha, rfl⟩ := Option.map_eq_some_iff.mp h
      refine (registerRemote_edits ..).imp ?_
      rintro name ⟨hn, -⟩
      exact ⟨serial, addrs, address, hc, ha, hn⟩
    next => cases h
  | unreachable call =>
    simp only [ServerState.step] at h
    split at h
    next => exact Option.some.inj h ▸ .refl
    next => cases h
  | lost watcher =>
    obtain ⟨w, -, rfl⟩ := Option.map_eq_some_iff.mp h
    exact .single (.change (fun _ => rfl) fun _ => rfl)
  | disconnect serial | disconnectAll => exact Option.some.inj h ▸ filter_edits ..
  | usbPoll candidates => exact Option.some.inj h ▸ (registerUsbDevices_edits _ _).trans (filter_edits ..)
  | usbRefresh candidates => exact Option.some.inj h ▸ .refl
  | registerUsb serial => exact Option.some.inj h ▸ registerUsbDevice_edits ..
  | registerTcp addr serial => exact Option.some.inj h ▸ upsertTcpDevice_edits ..
  | unregister serial => exact Option.some.inj h ▸ filter_edits ..
  | mdnsEvent order event discovered =>
    exact Option.some.inj h ▸ (eventApplied s.discovery ⟨order, event, discovered⟩).edits
  | mdnsFound service => exact Option.some.inj h ▸ updateRegistryDevice_edits ..
  | mdnsGone serial => exact Option.some.inj h ▸ filter_edits ..

end AdbFastboot
