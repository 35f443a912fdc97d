import AdbFastboot.RegistryEdits

namespace AdbFastboot

open HostDispatch List TransportRegistry

/-- The registry with `usb_auth`, the transports numbered as they were opened, and what the watcher
thread has still to authenticate or to store. -/
structure UsbServer where
  registry : TransportRegistry
  usbAuth : List (Text × Nat)
  opened : Nat
  todo : List Text
  connected : Option (Text × Nat)
deriving DecidableEq, Repr

inductive UsbStep where
  | refresh (candidates : List UsbCandidate)
  /-- `preauth_new_usb_devices` collects the devices that are not authenticated. -/
  | preauth
  /-- `connect_usb_device` for the next of them, up to the lock in which it reads the banner. -/
  | connect (result : Except Text Bytes)
  | store
  /-- The handshake is under the lock here. -/
  | ensureUsbAuth (serial : Text) (result : Except Text Unit)
  | removeDevice (serial : Text)
  | removeAllTcpDevices
deriving Repr

def TransportRegistry.describeUsb (reg : TransportRegistry) (serial : Text) (payload : Bytes) :
    TransportRegistry :=
  let banner := (fromUtf8Lossy payload).toList
  { reg with
    devices := modifyFirst (fun d => decide (d.serial = serial))
      (fun d => ((strTrim banner).splitOn ';').foldl setProperty
        { d with state := .device, transportFeatures := some banner })
      reg.devices }

namespace UsbServer

def start (registry : TransportRegistry) : UsbServer := ⟨registry, [], 0, [], none⟩

variable (s : UsbServer)

def keys : List Text := s.usbAuth.map Prod.fst

def insert (serial : Text) (transport : Nat) : UsbServer :=
  { s with
    usbAuth := s.usbAuth.filter (fun entry => decide (entry.1 ≠ serial)) ++ [(serial, transport)] }

/-- One thread makes the `preauth` calls, so each is through before the next. -/
def step : UsbStep → Option UsbServer
  | .refresh candidates =>
    some { s with registry := s.registry.refreshUsbDevices (candidates.map UsbCandidate.name) }
  | .preauth =>
    if s.todo = [] ∧ s.connected = none then
      some { s with todo := s.registry.usbSerials.filter fun serial => !s.keys.contains serial }
    else none
  | .connect result =>
    match s.todo, s.connected with
    | serial :: todo, none =>
      match result with
      | .error _ => some { s with todo := todo }
      | .ok banner =>
        some { s with
          registry := s.registry.describeUsb serial banner
          opened := s.opened + 1
          todo := todo
          connected := some (serial, s.opened) }
    | _, _ => none
  | .store => s.connected.map fun entry => { s.insert entry.1 entry.2 with connected := none }
  | .ensureUsbAuth serial result =>
    if s.keys.contains serial then some s
    else match result with
      | .error _ => some s
      | .ok () => some { s.insert serial s.opened with opened := s.opened + 1 }
  | .removeDevice serial => some { s with registry := (s.registry.removeDevice serial).2 }
  | .removeAllTcpDevices => some { s with registry := s.registry.removeAllTcpDevices }

/-- Every transport of the cache is that of a USB device of the registry. -/
def CachesRegistered : Prop := ∀ serial ∈ s.keys, serial ∈ s.registry.usbSerials

/-- The step takes no cached device from the registry, and caches none that is not there. -/
def KeepsRegistered : UsbStep → Prop
  | .refresh candidates => ∀ serial ∈ s.keys, serial ∈ candidates.map UsbCandidate.name
  | .store => ∀ entry, s.connected = some entry → entry.1 ∈ s.registry.usbSerials
  | .ensureUsbAuth serial result => result = .ok () → serial ∈ s.registry.usbSerials
  | .removeDevice serial => serial ∉ s.keys
  | .preauth | .connect _ | .removeAllTcpDevices => True

end UsbServer

namespace TransportRegistry

variable {reg : TransportRegistry} {serial : Text}

theorem mem_usbSerials : serial ∈ reg.usbSerials ↔
    ∃ d ∈ reg.devices, d.origin.isTcp = false ∧ d.serial = serial := by
  simp [usbSerials, and_assoc]

theorem mem_registerUsbDevices {d : DeviceEntry} (serials : List Text) (hd : d ∈ reg.devices) :
    d ∈ (serials.foldl registerUsbDevice reg).devices := by
  induction serials generalizing reg with
  | nil => exact hd
  | cons serial serials ih =>
    refine ih ?_
    unfold registerUsbDevice
    split
    next => exact hd
    next => exact mem_append_left _ hd

/-- A refresh keeps the USB devices that are still there. -/
theorem mem_usbSerials_refresh (serials : List Text) (h : serial ∈ reg.usbSerials) :
    serial ∈ (reg.refreshUsbDevices serials).usbSerials ↔ serial ∈ serials := by
  rw [mem_usbSerials]
  constructor
  · rintro ⟨d, hd, hu, rfl⟩
    simpa [hu] using (mem_filter.mp hd).2
  · intro hs
    obtain ⟨d, hd, hu, rfl⟩ := mem_usbSerials.mp h
    exact ⟨d, mem_filter.mpr ⟨mem_registerUsbDevices serials hd, by simp [hs]⟩, hu, rfl⟩

theorem mem_usbSerials_remove {name : Text} (h : serial ∈ reg.usbSerials) :
    serial ∈ (reg.removeDevice name).2.usbSerials ↔ serial ≠ name := by
  rw [mem_usbSerials]
  constructor
  · rintro ⟨d, hd, -, rfl⟩
    simpa using (mem_filter.mp hd).2
  · intro hne
    obtain ⟨d, hd, hu, rfl⟩ := mem_usbSerials.mp h
    exact ⟨d, mem_filter.mpr ⟨hd, by simp [hne]⟩, hu, rfl⟩

theorem usbSerials_describe (serial : Text) (payload : Bytes) :
    (reg.describeUsb serial payload).usbSerials = reg.usbSerials := by
  have hn : ∀ devices : List DeviceEntry, (devices.filter fun d => !d.origin.isTcp).map
      DeviceEntry.serial = ((devices.map fun d => (d.serial, d.origin)).filter
        fun name => !name.2.isTcp).map Prod.fst := by
    intro devices
    rw [filter_map, map_map]
    rfl
  rw [usbSerials, usbSerials, hn, hn, describeUsb, modifyFirst_map]
  exact fun d => Prod.ext (setProperties_names _ _).1 (setProperties_names _ _).2.2

end TransportRegistry

namespace UsbServer

variable {s : UsbServer}

/-- Caching a serial keeps the cache registered exactly if the serial is registered. -/
theorem insert_cachesRegistered (h : s.CachesRegistered) (serial : Text) (transport : Nat) :
    (s.insert serial transport).CachesRegistered ↔ serial ∈ s.registry.usbSerials := by
  constructor
  · intro ha
    exact ha serial (by simp [keys, UsbServer.insert])
  · intro hs key hk
    obtain ⟨entry, he, rfl⟩ := mem_map.mp hk
    rcases mem_append.mp he with he | he
    · exact h _ (mem_map_of_mem (mem_of_mem_filter he))
    · cases mem_singleton.mp he
      exact hs

/-- A step keeps the cache registered exactly if every cached serial stays registered. -/
theorem step_cachesRegistered {a : UsbStep} (h : s.CachesRegistered) :
    s.KeepsRegistered a ↔ ∀ s', s.step a = some s' → s'.CachesRegistered := by
  cases a with
  | refresh candidates =>
    simp only [step, Option.some.injEq, forall_eq']
    exact forall₂_congr fun serial hsl =>
      (mem_usbSerials_refresh _ (h serial hsl)).symm
  | preauth =>
    refine ⟨fun _ s' hs => ?_, fun _ => trivial⟩
    simp only [step, Option.ite_none_right_eq_some, Option.some.injEq] at hs
    obtain ⟨-, rfl⟩ := hs
    exact h
  | connect result =>
    refine ⟨fun _ s' hs => ?_, fun _ => trivial⟩
    simp only [step] at hs
    split at hs
    next =>
      split at hs
      next =>
        cases hs
        exact h
      cases hs
      intro key hk
      rw [usbSerials_describe]
      exact h key hk
    next => cases hs
  | store =>
    cases hc : s.connected with
    | none => simp [KeepsRegistered, step, hc]
    | some entry =>
      simp only [KeepsRegistered, step, hc, Option.some.injEq, forall_eq', Option.map_some]
      exact (insert_cachesRegistered h entry.1 entry.2).symm
  | ensureUsbAuth serial result =>
    simp only [KeepsRegistered, step]
    split
    next hch =>
      simp only [Option.some.injEq, forall_eq']
      exact ⟨fun _ => h, fun _ _ => h serial (by simpa using hch)⟩
    cases result with
    | error e => simp [h]
    | ok =>
      simp only [Option.some.injEq, forall_eq', true_imp_iff]
      exact (insert_cachesRegistered h serial s.opened).symm
  | removeDevice serial =>
    simp only [KeepsRegistered, step, Option.some.injEq, forall_eq']
    constructor
    · intro hf key hk
      exact (mem_usbSerials_remove (h key hk)).mpr fun heq => hf (heq ▸ hk)
    · intro ha hk
      exact (mem_usbSerials_remove (h serial hk)).mp (ha serial hk) rfl
  | removeAllTcpDevices =>
    simp only [KeepsRegistered, step, Option.some.injEq, forall_eq', true_iff]
    intro key hk
    obtain ⟨d, hd, hu, rfl⟩ := mem_usbSerials.mp (h key hk)
    exact mem_usbSerials.mpr ⟨d, mem_filter.mpr ⟨hd, by simp [hu]⟩, hu, rfl⟩

/-- Along a run the cache holds transports of registered USB devices only, exactly if no step takes
a cached device from the registry or caches one that is not there. -/
theorem usb_auth_registered_iff (registry : TransportRegistry) (as : List UsbStep) :
    (∀ front s, front <+: as → runSteps step (start registry) front = some s → s.CachesRegistered)
      ↔ StepsMeet step KeepsRegistered (start registry) as :=
  runSteps_invariant_iff step_cachesRegistered fun _ hs => absurd hs not_mem_nil

/-- The device is authenticated and then unplugged: its transport stays. -/
theorem usb_auth_stale : ∃ s, runSteps step (start ⟨[], [], [], [], 1⟩)
        [.refresh [⟨some "phone".toList, 1, 2⟩], .preauth, .connect (.ok []), .store, .refresh []]
          = some s
      ∧ s.registry.usbSerials = [] ∧ s.keys = ["phone".toList] ∧ ¬ s.CachesRegistered := by
  refine ⟨⟨⟨[], [], [], [], 2⟩, [("phone".toList, 0)], 1, [], none⟩, ?_, rfl, rfl, ?_⟩
  · decide +kernel
  · intro h
    exact absurd (h "phone".toList (mem_singleton.mpr rfl)) not_mem_nil

end UsbServer

end AdbFastboot
