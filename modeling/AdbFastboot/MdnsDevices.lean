import AdbFastboot.DeviceTable
import AdbFastboot.MdnsBackend
import Mathlib.Data.Char
import Mathlib.Data.List.Lex
import Mathlib.Data.Prod.Lex

namespace AdbFastboot

open TransportRegistry AList List DiscoveryRegistry

def Advertises (current : MdnsService → Prop) (serial : Text) (service : MdnsService) : Prop :=
  current service ∧ serviceSerial service = serial ∧ service.addresses ≠ []

def serviceRank (service : MdnsService) : Lex (Text × Text) :=
  toLex (service.serviceType.serviceName, service.instanceName)

def LeastService (current : MdnsService → Prop) (serial : Text) (service : MdnsService) : Prop :=
  Advertises current serial service ∧
    ∀ other, Advertises current serial other → serviceRank service ≤ serviceRank other

theorem textLt_iff (a b : Text) : textLt a b = true ↔ a < b := by
  have hlt : ∀ c d : Char, decide (c.toNat < d.toNat) = true ↔ c < d := by
    intro c d
    rw [decide_eq_true_iff]
    exact UInt32.lt_iff_toNat_lt.symm
  unfold textLt
  rw [lex_eq_true_iff_lex]
  simp only [hlt]
  rfl

/-- The order of the services is that of their ranks. -/
theorem serviceLe_iff (a b : MdnsService) : serviceLe a b = true ↔ serviceRank a ≤ serviceRank b := by
  unfold serviceLe serviceRank
  rw [Prod.Lex.toLex_le_toLex]
  split
  next heq =>
    rw [heq]
    simp [← Bool.not_eq_true, textLt_iff]
  next hne => simp [textLt_iff, hne]

def ServiceMap.Current (services : ServiceMap) (service : MdnsService) : Prop :=
  ∃ key, services.lookup key = some service

section

variable {order : IterationOrder MdnsService} {services : ServiceMap} {serial : Text}
  {service : MdnsService}

theorem mem_candidates :
    service ∈ candidates order services serial ↔ Advertises services.Current serial service := by
  have hc : service ∈ services.entries.map Sigma.snd ↔ services.Current service := by
    constructor
    · intro h
      obtain ⟨⟨key, value⟩, hm, rfl⟩ := mem_map.mp h
      exact ⟨key, mem_lookup_iff.mpr hm⟩
    · rintro ⟨key, hk⟩
      exact mem_map.mpr ⟨⟨key, service⟩, mem_lookup_iff.mp hk, rfl⟩
  unfold candidates Advertises
  rw [mem_mergeSort, mem_filter, (order.perm _).mem_iff, hc]
  simp

/-- The first candidate is the least service of its serial. -/
theorem candidates_least {rest : List MdnsService}
    (h : candidates order services serial = service :: rest) :
    LeastService services.Current serial service := by
  have hm : ∀ other, other ∈ service :: rest ↔ Advertises services.Current serial other :=
    fun other => h ▸ mem_candidates
  refine ⟨(hm service).mp (mem_cons_self ..), fun other ho => ?_⟩
  have hs : (candidates order services serial).Pairwise fun a b => serviceLe a b = true := by
    apply pairwise_mergeSort
    · intro a b c ha hb
      rw [serviceLe_iff] at ha hb ⊢
      exact ha.trans hb
    · intro a b
      rw [Bool.or_eq_true, serviceLe_iff, serviceLe_iff]
      exact le_total _ _
  rw [h, pairwise_cons] at hs
  rcases mem_cons.mp ((hm other).mpr ho) with rfl | hr
  · exact le_refl _
  · exact (serviceLe_iff _ _).mp (hs.1 other hr)

end

def CarriesService (service : MdnsService) (d : DeviceEntry) : Prop :=
  ∃ address rest, service.addresses = address :: rest ∧ d.origin = .tcp (.new address service.port)

theorem CarriesService.isTcp {service : MdnsService} {d : DeviceEntry}
    (h : CarriesService service d) : d.origin.isTcp = true := by
  obtain ⟨address, rest, -, ho⟩ := h
  rw [ho]
  rfl

inductive Refreshed (reg : DiscoveryRegistry) (serial : Text) : DiscoveryRegistry → Prop
  | kept {d : DeviceEntry} (hfind : reg.registry.findBySerial serial = some d)
      (husb : d.origin.isTcp = false) : Refreshed reg serial reg
  | changed {service : MdnsService} {d : DeviceEntry} {change : DeviceEntry → DeviceEntry}
      (hleast : LeastService reg.mdnsServices.Current serial service)
      (hfind : reg.registry.findBySerial serial = some d) (htcp : d.origin.isTcp = true)
      (hserial : ∀ e, (change e).serial = e.serial)
      (hid : ∀ e, (change e).transportId = e.transportId)
      (hcarries : ∀ e, CarriesService service (change e)) :
      Refreshed reg serial (reg.setDevices
        (modifyFirst (fun d => decide (d.serial = serial)) change reg.registry.devices))
  | added {service : MdnsService} {d : DeviceEntry}
      (hleast : LeastService reg.mdnsServices.Current serial service)
      (hfind : reg.registry.findBySerial serial = none) (hserial : d.serial = serial)
      (hid : d.transportId = reg.registry.nextId) (hcarries : CarriesService service d) :
      Refreshed reg serial { reg with registry := { reg.registry with
        devices := reg.registry.devices ++ [d], nextId := reg.registry.nextId + 1 } }
  | gone (hnone : ∀ service, ¬ Advertises reg.mdnsServices.Current serial service) :
      Refreshed reg serial (reg.setDevices (reg.registry.devices.filter fun d =>
        !decide (d.serial = serial) || !d.origin.isTcp))

/-- Refreshing a serial adds, changes or removes at most its own device. -/
theorem refreshed (order : IterationOrder MdnsService) (reg : DiscoveryRegistry) (serial : Text) :
    Refreshed reg serial (refreshDeviceForSerial order reg serial) := by
  unfold refreshDeviceForSerial
  split
  next service rest hc =>
    have hl := candidates_least hc
    split
    next hn => exact absurd hn hl.1.2.2
    next address more ha =>
      have hcr : ∀ d : DeviceEntry, CarriesService service (d.advertised service address) :=
        fun d => ⟨address, more, ha, rfl⟩
      split
      next existing hf =>
        split
        next ht => exact .changed hl hf ht (fun _ => rfl) (fun _ => rfl) hcr
        next hu => exact .kept hf (Bool.not_eq_true _ ▸ hu)
      next hf => exact .added hl hf rfl rfl (hcr _)
  next hc =>
    refine .gone fun service hs => ?_
    have hm : service ∈ candidates order reg.mdnsServices serial := mem_candidates.mpr hs
    rw [hc] at hm
    cases hm

section

variable {reg reg' : DiscoveryRegistry} {serial : Text} (h : Refreshed reg serial reg')

include h

theorem Refreshed.services : reg'.mdnsServices = reg.mdnsServices := by
  cases h <;> rfl

theorem Refreshed.edits : TableEdits (fun name => name = serial ∧
        (∃ service, Advertises reg.mdnsServices.Current serial service) ∧
        ∀ e ∈ reg.registry.devices, e.serial ≠ serial)
      reg.registry.table reg'.registry.table := by
  cases h with
  | kept hf hu => exact .refl
  | changed hl hf ht hs hi hc => exact .single (.change hs hi)
  | added hl hf hs hi hc =>
    have hfr := findBySerial_eq_none.mp hf
    exact .single (.add hi (hs ▸ hfr) ⟨hs, ⟨_, hl.1⟩, hfr⟩)
  | gone hn => exact filter_edits ..

/-- Refreshing leaves the USB devices alone. -/
theorem Refreshed.usb : reg'.registry.devices.filter (fun d => !d.origin.isTcp)
      = reg.registry.devices.filter fun d => !d.origin.isTcp := by
  cases h with
  | kept hf hu => rfl
  | @changed service d change hl hf ht hs hi hc =>
    obtain ⟨front, back, hd, hm⟩ := modifyFirst_of_find? (f := change) hf
    change (modifyFirst _ change reg.registry.devices).filter _ = _
    rw [hm, hd]
    simp [ht, (hc d).isTcp]
  | added hl hf hs hi hc => simp [hc.isTcp]
  | gone hn =>
    change (filter _ _).filter _ = _
    rw [filter_filter]
    refine filter_congr fun d _ => ?_
    cases d.origin.isTcp <;> simp

theorem Refreshed.other {d : DeviceEntry} (hd : d.serial ≠ serial) :
    d ∈ reg'.registry.devices ↔ d ∈ reg.registry.devices := by
  cases h with
  | kept hf hu => rfl
  | @changed service e change hl hf ht hs hi hc =>
    obtain ⟨front, back, hdv, hm⟩ := modifyFirst_of_find? (f := change) hf
    have he := (findBySerial_mem hf).2
    have hne : d ≠ e := fun heq => hd (heq ▸ he)
    have hne' : d ≠ change e := fun heq => hd (heq ▸ (hs e).trans he)
    change d ∈ modifyFirst _ change reg.registry.devices ↔ _
    rw [hm, hdv]
    simp [hne, hne']
  | @added service e hl hf hs hi hc =>
    have hne : d ≠ e := fun heq => hd (heq ▸ hs)
    simp [hne]
  | gone hn => simp [setDevices, hd]

end

/-- The entries of a serial follow the services: one that is not over USB carries the least service,
and there is one where a service advertises the serial. -/
structure SerialFollows (current : MdnsService → Prop) (devices : List DeviceEntry)
    (serial : Text) : Prop where
  carries : ∀ d ∈ devices, d.serial = serial → d.origin.isTcp = true →
    ∃ service, LeastService current serial service ∧ CarriesService service d
  present : (∃ service, Advertises current serial service) → ∃ d ∈ devices, d.serial = serial

variable {reg : DiscoveryRegistry} {reg' : DiscoveryRegistry} {serial : Text}

/-- A refreshed serial has the device of its least service. -/
theorem Refreshed.follows (h : Refreshed reg serial reg')
    (hs : DistinctSerials reg.registry.devices) :
    SerialFollows reg.mdnsServices.Current reg'.registry.devices serial := by
  have hs' := h.edits.distinctSerials hs
  cases h with
  | @kept e hf hu =>
    obtain ⟨he, hes⟩ := findBySerial_mem hf
    refine ⟨fun d hd hds ht => ?_, fun _ => ⟨e, he, hes⟩⟩
    rw [hs.eq hd he (hds.trans hes.symm), hu] at ht
    cases ht
  | @changed service e change hl hf ht hsl hi hc =>
    obtain ⟨he, hes⟩ := findBySerial_mem hf
    have hn : change e ∈ (reg.setDevices (modifyFirst (fun d => decide (d.serial = serial)) change
        reg.registry.devices)).registry.devices := by
      obtain ⟨front, back, -, hm⟩ := modifyFirst_of_find? (f := change) hf
      change _ ∈ modifyFirst _ _ _
      rw [hm]
      simp
    have hns := (hsl e).trans hes
    refine ⟨fun d hd hds _ => ⟨service, hl, ?_⟩, fun _ => ⟨_, hn, hns⟩⟩
    exact hs'.eq hd hn (hds.trans hns.symm) ▸ hc e
  | @added service e hl hf hsl hi hc =>
    refine ⟨fun d hd hds _ => ⟨service, hl, ?_⟩, fun _ => ⟨e, by simp, hsl⟩⟩
    rcases mem_append.mp hd with hd | hd
    · exact absurd hds (findBySerial_eq_none.mp hf d hd)
    · exact mem_singleton.mp hd ▸ hc
  | gone hno =>
    refine ⟨fun d hd hds ht => ?_, fun ⟨service, hsv⟩ => absurd hsv (hno service)⟩
    have hk := (mem_filter.mp hd).2
    simp [hds, ht] at hk

theorem Refreshed.follows_other {other : Text} (h : Refreshed reg serial reg') (hne : other ≠ serial)
    (hf : SerialFollows reg.mdnsServices.Current reg.registry.devices other) :
    SerialFollows reg'.mdnsServices.Current reg'.registry.devices other := by
  rw [h.services]
  constructor
  · intro d hd hds ht
    exact hf.carries d ((h.other (hds ▸ hne)).mp hd) hds ht
  · intro hs
    obtain ⟨d, hd, hds⟩ := hf.present hs
    exact ⟨d, (h.other (hds ▸ hne)).mpr hd, hds⟩

/-- What holds of the registry whatever the services are. -/
structure DiscoveryRegistry.Sound (usb : List DeviceEntry) (reg : DiscoveryRegistry) : Prop where
  usb : reg.registry.devices.filter (fun d => !d.origin.isTcp) = usb
  serials : DistinctSerials reg.registry.devices

/-- Every serial follows the services, other than those that are still to be refreshed. -/
def FollowsBut (stale : List Text) (reg : DiscoveryRegistry) : Prop :=
  ∀ serial ∉ stale, SerialFollows reg.mdnsServices.Current reg.registry.devices serial

section

variable {usb : List DeviceEntry} {reg : DiscoveryRegistry} {stale : List Text} {serial : Text}
  (order : IterationOrder MdnsService)

theorem refresh_sound (h : reg.Sound usb) (serial : Text) :
    (refreshDeviceForSerial order reg serial).Sound usb where
  usb := (refreshed order reg serial).usb.trans h.usb
  serials := (refreshed order reg serial).edits.distinctSerials h.serials

/-- Refreshing takes a serial off those that are stale. -/
theorem refresh_follows (h : reg.Sound usb) (hf : FollowsBut (serial :: stale) reg) :
    FollowsBut stale (refreshDeviceForSerial order reg serial) := by
  have hr := refreshed order reg serial
  intro other ho
  by_cases hne : other = serial
  · subst hne
    exact hr.services ▸ hr.follows h.serials
  · exact hr.follows_other hne (hf other (by simp [hne, ho]))

end

theorem SerialFollows.congr {current current' : MdnsService → Prop} {devices : List DeviceEntry}
    (h : SerialFollows current devices serial)
    (hsm : ∀ service, serviceSerial service = serial → (current' service ↔ current service)) :
    SerialFollows current' devices serial := by
  have had : ∀ service, Advertises current' serial service ↔ Advertises current serial service := by
    intro service
    exact ⟨fun ⟨hc, hs, ha⟩ => ⟨(hsm service hs).mp hc, hs, ha⟩,
      fun ⟨hc, hs, ha⟩ => ⟨(hsm service hs).mpr hc, hs, ha⟩⟩
  constructor
  · intro d hd hds ht
    obtain ⟨service, ⟨hadv, hl⟩, hcr⟩ := h.carries d hd hds ht
    exact ⟨service, ⟨(had service).mpr hadv, fun other ho => hl other ((had other).mp ho)⟩, hcr⟩
  · rintro ⟨service, hsv⟩
    exact h.present ⟨service, (had service).mp hsv⟩

section

variable {services : ServiceMap} {key : Text} {other : MdnsService}

theorem current_insert {service : MdnsService} (hn : serviceSerial other ≠ serviceSerial service)
    (ho : ∀ old, services.lookup key = some old → serviceSerial other ≠ serviceSerial old) :
    ServiceMap.Current (services.insert key service) other ↔ services.Current other := by
  constructor
  · rintro ⟨k, hk⟩
    by_cases hkey : k = key
    · subst hkey
      rw [lookup_insert] at hk
      exact absurd (congrArg serviceSerial (Option.some.inj hk)).symm hn
    · exact ⟨k, (lookup_insert_ne hkey).symm.trans hk⟩
  · rintro ⟨k, hk⟩
    by_cases hkey : k = key
    · exact absurd rfl (ho other (hkey ▸ hk))
    · exact ⟨k, (lookup_insert_ne hkey).trans hk⟩

theorem current_erase {old : MdnsService} (hkey : services.lookup key = some old)
    (ho : serviceSerial other ≠ serviceSerial old) :
    ServiceMap.Current (services.erase key) other ↔ services.Current other := by
  constructor
  · rintro ⟨k, hk⟩
    by_cases hk' : k = key
    · subst hk'
      rw [lookup_erase] at hk
      cases hk
    · exact ⟨k, (lookup_erase_ne hk').symm.trans hk⟩
  · rintro ⟨k, hk⟩
    by_cases hk' : k = key
    · subst hk'
      rw [hkey] at hk
      exact absurd (congrArg serviceSerial (Option.some.inj hk)).symm ho
    · exact ⟨k, (lookup_erase_ne hk').trans hk⟩

end

structure DiscoveryEvent where
  order : IterationOrder MdnsService
  update : AdbMdnsUpdate
  discovered : DiscoveredService

def DiscoveryRegistry.apply (reg : DiscoveryRegistry) (event : DiscoveryEvent) :
    DiscoveryRegistry :=
  applyDiscoveryEvent event.order reg event.update event.discovered

def refreshAll (order : IterationOrder MdnsService) (serials : List Text)
    (reg : DiscoveryRegistry) : DiscoveryRegistry :=
  serials.foldl (refreshDeviceForSerial order) reg

section

variable {usb : List DeviceEntry} {reg : DiscoveryRegistry} (order : IterationOrder MdnsService)
  (serials : List Text)

theorem refreshAll_services : (refreshAll order serials reg).mdnsServices = reg.mdnsServices := by
  induction serials generalizing reg with
  | nil => rfl
  | cons serial serials ih => exact ih.trans (refreshed order reg serial).services

theorem refreshAll_sound (h : reg.Sound usb) : (refreshAll order serials reg).Sound usb := by
  induction serials generalizing reg with
  | nil => exact h
  | cons serial serials ih => exact ih (refresh_sound order h serial)

theorem Refreshed.present {reg reg' : DiscoveryRegistry} {serial name : Text}
    (h : Refreshed reg serial reg')
    (hs : ∃ service, Advertises reg.mdnsServices.Current name service)
    (hp : ∃ d ∈ reg.registry.devices, d.serial = name) :
    ∃ d ∈ reg'.registry.devices, d.serial = name := by
  obtain ⟨d, hd, hds⟩ := hp
  by_cases hne : d.serial = serial
  · cases h with
    | kept hf hu => exact ⟨d, hd, hds⟩
    | @changed service e change hl hf ht hsl hi hc =>
      obtain ⟨front, back, -, hm⟩ := modifyFirst_of_find? (f := change) hf
      refine ⟨change e, ?_, ?_⟩
      · change _ ∈ modifyFirst _ _ _
        rw [hm]
        simp
      · rw [hsl, (findBySerial_mem hf).2, ← hne, hds]
    | added hl hf hsl hi hc =>
      exact absurd hne (findBySerial_eq_none.mp hf d hd)
    | gone hn =>
      obtain ⟨service, hs⟩ := hs
      exact absurd (hne.symm.trans hds ▸ hs) (hn service)
  · exact ⟨d, (h.other hne).mpr hd, hds⟩

variable (reg) in
theorem refreshAll_edits : TableEdits (fun name => name ∈ serials ∧
        (∃ service, Advertises reg.mdnsServices.Current name service) ∧
        ∀ e ∈ reg.registry.devices, e.serial ≠ name)
      reg.registry.table (refreshAll order serials reg).registry.table := by
  induction serials generalizing reg with
  | nil => exact .refl
  | cons serial serials ih =>
    have hr := refreshed order reg serial
    have hft := hr.edits.imp (fun name ⟨hn, hs, hf⟩ =>
      (⟨hn ▸ mem_cons_self, hn ▸ hs, hn ▸ hf⟩ :
        name ∈ serial :: serials ∧ (∃ service, Advertises reg.mdnsServices.Current name service) ∧
          ∀ e ∈ reg.registry.devices, e.serial ≠ name))
    refine hft.trans ((ih (refreshDeviceForSerial order reg serial)).imp ?_)
    rintro name ⟨hn, hs, hf⟩
    rw [hr.services] at hs
    refine ⟨mem_cons_of_mem serial hn, hs, fun e he heq => ?_⟩
    obtain ⟨d, hd, hds⟩ := hr.present hs ⟨e, he, heq⟩
    exact hf d hd hds

/-- With all stale serials refreshed, the devices follow the services. -/
theorem refreshAll_follows (h : reg.Sound usb) (hf : FollowsBut serials reg) :
    FollowsBut [] (refreshAll order serials reg) := by
  induction serials generalizing reg with
  | nil => exact hf
  | cons serial serials ih =>
    exact ih (refresh_sound order h serial) (refresh_follows order h hf)

end

/-- What an event does: the services change, and the serials that this concerns are refreshed. -/
inductive EventApplied (reg : DiscoveryRegistry) (event : DiscoveryEvent) : DiscoveryRegistry → Prop
  | ignored (hservice : toAdbService event.discovered = none) : EventApplied reg event reg
  | absent {service : MdnsService} (hservice : toAdbService event.discovered = some service)
      (hdelete : event.update = .delete)
      (hold : reg.mdnsServices.lookup (serviceKey service) = none) : EventApplied reg event reg
  | stored {service : MdnsService} (serials : List Text)
      (hservice : toAdbService event.discovered = some service) (hdelete : event.update ≠ .delete)
      (hold : ∀ old, reg.mdnsServices.lookup (serviceKey service) = some old →
        serviceSerial old ∈ serials)
      (hnew : serviceSerial service ∈ serials)
      (honly : ∀ serial ∈ serials, serial = serviceSerial service ∨
        ∃ old, reg.mdnsServices.lookup (serviceKey service) = some old ∧
          serial = serviceSerial old) :
      EventApplied reg event (refreshAll event.order serials
        (reg.setServices (reg.mdnsServices.insert (serviceKey service) service)))
  | deleted {service old : MdnsService} (hservice : toAdbService event.discovered = some service)
      (hdelete : event.update = .delete)
      (hold : reg.mdnsServices.lookup (serviceKey service) = some old) :
      EventApplied reg event (refreshAll event.order [serviceSerial old]
        (reg.setServices (reg.mdnsServices.erase (serviceKey service))))

variable {event : DiscoveryEvent}

theorem eventApplied_stored {service : MdnsService}
    (hsv : toAdbService event.discovered = some service) (hd : event.update ≠ .delete) :
    EventApplied reg event (refreshDeviceForSerial event.order
      (match reg.mdnsServices.lookup (serviceKey service) with
        | some old =>
          if serviceSerial old ≠ serviceSerial service then
            refreshDeviceForSerial event.order
              (reg.setServices (reg.mdnsServices.insert (serviceKey service) service))
              (serviceSerial old)
          else reg.setServices (reg.mdnsServices.insert (serviceKey service) service)
        | none => reg.setServices (reg.mdnsServices.insert (serviceKey service) service))
      (serviceSerial service)) := by
  split
  next old ho =>
    have hm : ∀ old', reg.mdnsServices.lookup (serviceKey service) = some old' → old' = old :=
      fun old' ho' => Option.some.inj (ho'.symm.trans ho)
    split
    next hne =>
      refine .stored [serviceSerial old, serviceSerial service] hsv hd
        (fun old' ho' => by simp [hm old' ho']) (by simp) fun serial hs => ?_
      rcases mem_cons.mp hs with rfl | hs
      · exact .inr ⟨old, ho, rfl⟩
      · exact .inl (mem_singleton.mp hs)
    next heq =>
      exact .stored [serviceSerial service] hsv hd
        (fun old' ho' => by simpa [hm old' ho'] using heq) (by simp)
        fun serial hs => .inl (mem_singleton.mp hs)
  next hn =>
    exact .stored [serviceSerial service] hsv hd
      (fun old' ho' => by cases hn.symm.trans ho') (by simp)
      fun serial hs => .inl (mem_singleton.mp hs)

/-- An event changes one service and refreshes the serials it touches. -/
theorem eventApplied (reg : DiscoveryRegistry) (event : DiscoveryEvent) :
    EventApplied reg event (reg.apply event) := by
  unfold apply applyDiscoveryEvent
  split
  next hs => exact .ignored hs
  next service hs =>
    dsimp only
    split
    next hu => exact eventApplied_stored hs (by simp [hu])
    next hu => exact eventApplied_stored hs (by simp [hu])
    next hu =>
      split
      next old ho => exact .deleted hs hu ho
      next hn => exact .absent hs hu hn

def eventServices (services : ServiceMap) (event : DiscoveryEvent) (service : MdnsService) :
    ServiceMap :=
  if event.update = .delete then services.erase (serviceKey service)
  else services.insert (serviceKey service) service

/-- The serials that an event can bring into the registry: those of its record, before and after the
event, that a service advertises then and no device has. -/
def EventGives (reg : DiscoveryRegistry) (event : DiscoveryEvent) (serial : Text) : Prop :=
  ∃ service, toAdbService event.discovered = some service ∧
    (serial = serviceSerial service ∨
      ∃ old, reg.mdnsServices.lookup (serviceKey service) = some old ∧ serial = serviceSerial old) ∧
    (∃ other, Advertises (ServiceMap.Current (eventServices reg.mdnsServices event service)) serial
      other) ∧
    ∀ d ∈ reg.registry.devices, d.serial ≠ serial

section

variable {usb : List DeviceEntry} {reg reg' : DiscoveryRegistry} {event : DiscoveryEvent}
  (h : EventApplied reg event reg')

include h

theorem EventApplied.sound (hs : reg.Sound usb) : reg'.Sound usb := by
  cases h with
  | ignored hsv | absent hsv hd ho => exact hs
  | stored serials hsv hd ho hn hon =>
    exact refreshAll_sound _ _ ⟨hs.usb, hs.serials⟩
  | deleted hsv hd ho => exact refreshAll_sound _ _ ⟨hs.usb, hs.serials⟩

theorem EventApplied.edits : TableEdits (EventGives reg event) reg.registry.table reg'.registry.table := by
  cases h with
  | ignored hs | absent hs hd ho => exact .refl
  | @stored service serials hs hd ho hnew hon =>
    have he := refreshAll_edits
      (reg.setServices (reg.mdnsServices.insert (serviceKey service) service)) event.order serials
    refine he.imp ?_
    rintro name ⟨hn, ha, hf⟩
    refine ⟨service, hs, hon name hn, ?_, hf⟩
    rwa [eventServices, if_neg hd]
  | @deleted service old hs hd ho =>
    have he := refreshAll_edits
      (reg.setServices (reg.mdnsServices.erase (serviceKey service))) event.order [serviceSerial old]
    refine he.imp ?_
    rintro name ⟨hn, ha, hf⟩
    refine ⟨service, hs, .inr ⟨old, ho, mem_singleton.mp hn⟩, ?_, hf⟩
    rwa [eventServices, if_pos hd]

/-- After an event the devices follow the services. -/
theorem EventApplied.follows (hsn : reg.Sound usb) (hf : FollowsBut [] reg) :
    FollowsBut [] reg' := by
  cases h with
  | ignored hsv | absent hsv hd ho => exact hf
  | @stored service serials hsv hd ho hn hon =>
    have hset :
        (reg.setServices (reg.mdnsServices.insert (serviceKey service) service)).Sound usb :=
      ⟨hsn.usb, hsn.serials⟩
    refine refreshAll_follows _ _ hset fun serial hs => ?_
    refine (hf serial (not_mem_nil)).congr fun other hot => ?_
    subst hot
    exact current_insert (fun heq => hs (heq ▸ hn)) fun old hl heq => hs (heq ▸ ho old hl)
  | @deleted service old hsv hd ho =>
    have hset : (reg.setServices (reg.mdnsServices.erase (serviceKey service))).Sound usb :=
      ⟨hsn.usb, hsn.serials⟩
    refine refreshAll_follows _ _ hset fun serial hs => ?_
    refine (hf serial (not_mem_nil)).congr fun other hot => ?_
    subst hot
    exact current_erase ho (by simpa using hs)

end

def serviceId (service : MdnsService) : Text × AdbMdnsServiceType :=
  (service.instanceName, service.serviceType)

def replayEvent (current : Text × AdbMdnsServiceType → Option MdnsService)
    (event : DiscoveryEvent) : Text × AdbMdnsServiceType → Option MdnsService :=
  match toAdbService event.discovered with
  | none => current
  | some service =>
    Function.update current (serviceId service)
      (if event.update = .delete then none else some service)

def replayServices (events : List DiscoveryEvent) :
    Text × AdbMdnsServiceType → Option MdnsService :=
  events.foldl replayEvent fun _ => none

theorem serviceKey_inj {a b : MdnsService} (h : serviceKey a = serviceKey b) :
    serviceId a = serviceId b := by
  have hs : ∀ service : MdnsService, splitOnce '\x00' (serviceKey service).reverse
      = some (service.serviceType.serviceName.reverse, service.instanceName.reverse) := by
    intro service
    have hn : '\x00' ∉ service.serviceType.serviceName.reverse := by
      cases service.serviceType <;> decide
    rw [serviceKey, reverse_append, reverse_cons, append_assoc]
    exact splitOnce_append hn _
  have hb := (hs a).symm.trans ((congrArg (fun t => splitOnce '\x00' t.reverse) h).trans (hs b))
  obtain ⟨hn, hi⟩ := Prod.mk.inj (Option.some.inj hb)
  have ht : a.serviceType = b.serviceType := by
    revert hn
    cases a.serviceType <;> cases b.serviceType <;> decide
  exact Prod.ext (reverse_inj.mp hi) ht

def Replayed (current : Text × AdbMdnsServiceType → Option MdnsService) (services : ServiceMap) :
    Prop :=
  ∀ key service, services.lookup key = some service ↔
    key = serviceKey service ∧ current (serviceId service) = some service

section

variable {current : Text × AdbMdnsServiceType → Option MdnsService}
  {services services' : ServiceMap}

theorem Replayed.current_iff (h : Replayed current services) (service : MdnsService) :
    services.Current service ↔ current (serviceId service) = some service := by
  constructor
  · rintro ⟨key, hk⟩
    exact ((h key service).mp hk).2
  · intro hc
    exact ⟨serviceKey service, (h _ service).mpr ⟨rfl, hc⟩⟩

/-- Storing or erasing a service is what replaying its event does. -/
theorem Replayed.update (h : Replayed current services) {service : MdnsService}
    {value : Option MdnsService} (hv : ∀ x ∈ value, x = service)
    (hkey : services'.lookup (serviceKey service) = value)
    (ho : ∀ key ≠ serviceKey service, services'.lookup key = services.lookup key) :
    Replayed (Function.update current (serviceId service) value) services' := by
  intro key other
  by_cases hi : serviceId other = serviceId service
  · rw [hi, Function.update_self]
    constructor
    · intro hl
      by_cases hk : key = serviceKey service
      · subst hk
        have hs := hkey.symm.trans hl
        exact ⟨congrArg serviceKey (hv other hs).symm, hs⟩
      rw [ho key hk] at hl
      obtain ⟨hkey', -⟩ := (h key other).mp hl
      have hsa : serviceKey other = serviceKey service := by
        simp only [serviceId, Prod.mk.injEq] at hi
        rw [serviceKey, serviceKey, hi.1, hi.2]
      exact absurd (hkey'.trans hsa) hk
    · rintro ⟨rfl, hs⟩
      rw [hv other hs, hkey, hs, hv other hs]
  · have hne : serviceKey other ≠ serviceKey service := fun heq => hi (serviceKey_inj heq)
    rw [Function.update_of_ne hi, ← h key other]
    by_cases hk : key = serviceKey service
    · subst hk
      constructor
      · intro hl
        exact absurd (congrArg serviceId (hv other (hkey.symm.trans hl))) hi
      · intro hl
        exact absurd ((h _ other).mp hl).1.symm hne
    · rw [ho key hk]

end

variable {current : Text × AdbMdnsServiceType → Option MdnsService}

theorem EventApplied.replayed (h : EventApplied reg event reg')
    (hr : Replayed current reg.mdnsServices) :
    Replayed (replayEvent current event) reg'.mdnsServices := by
  unfold replayEvent
  cases h with
  | ignored hs =>
    rw [hs]
    exact hr
  | absent hs hd ho =>
    simp only [hs, hd, if_true]
    exact hr.update (by simp) ho fun _ _ => rfl
  | stored serials hs hd ho hn hon =>
    simp only [hs, if_neg hd]
    rw [refreshAll_services]
    exact hr.update (by simp) (lookup_insert _) fun _ hne => lookup_insert_ne hne
  | deleted hs hd ho =>
    simp only [hs, hd, if_true]
    rw [refreshAll_services]
    exact hr.update (by simp) (lookup_erase ..) fun _ hne => lookup_erase_ne hne

/-- What holds after some events, in a registry that has only these devices over USB before them. -/
structure DiscoveredSo (usb : List DeviceEntry)
    (current : Text × AdbMdnsServiceType → Option MdnsService) (reg : DiscoveryRegistry) :
    Prop where
  sound : reg.Sound usb
  follows : FollowsBut [] reg
  replayed : Replayed current reg.mdnsServices

theorem discoveredSo_start {reg : TransportRegistry} (hu : ∀ d ∈ reg.devices, d.origin = .usb)
    (hs : DistinctSerials reg.devices) :
    DiscoveredSo reg.devices (fun _ => none) ⟨reg, ∅⟩ where
  sound := {
    usb := filter_eq_self.mpr fun d hd => by simp [hu d hd, DeviceOrigin.isTcp]
    serials := hs }
  follows := by
    intro serial _
    constructor
    · intro d hd _ ht
      simp [hu d hd, DeviceOrigin.isTcp] at ht
    · rintro ⟨service, ⟨key, hk⟩, -⟩
      simp at hk
  replayed := by
    intro key service
    simp

variable {usb : List DeviceEntry}

/-- An event keeps devices and services in step with the events so far. -/
theorem DiscoveredSo.apply (h : DiscoveredSo usb current reg) (event : DiscoveryEvent) :
    DiscoveredSo usb (replayEvent current event) (reg.apply event) where
  sound := (eventApplied reg event).sound h.sound
  follows := (eventApplied reg event).follows h.sound h.follows
  replayed := (eventApplied reg event).replayed h.replayed

theorem discoveredSo_run (h : DiscoveredSo usb current reg) (events : List DiscoveryEvent) :
    DiscoveredSo usb (events.foldl replayEvent current) (events.foldl apply reg) := by
  induction events generalizing current reg with
  | nil => exact h
  | cons event events ih => exact ih (h.apply event)

/-- No run of events gives an id twice. -/
theorem idsFresh_run (h : reg.registry.IdsFresh) (events : List DiscoveryEvent) :
    (events.foldl apply reg).registry.IdsFresh := by
  induction events generalizing reg with
  | nil => exact h
  | cons event events ih => exact ih ((eventApplied reg event).edits.keepsIds.fresh h)

/-- Whatever the events were and in whatever order they came, the services are their replay, and
the devices are what the services make of the serials that no device over USB has. -/
theorem discovery_devices_follow_services (reg : TransportRegistry)
    (husb : ∀ d ∈ reg.devices, d.origin = .usb) (hserials : DistinctSerials reg.devices)
    (events : List DiscoveryEvent) :
    let final := events.foldl DiscoveryRegistry.apply ⟨reg, ∅⟩
    let current := fun service => replayServices events (serviceId service) = some service
    (∀ key service, final.mdnsServices.lookup key = some service ↔
      key = serviceKey service ∧ current service) ∧
    (∀ d ∈ final.registry.devices, d.origin.isTcp = true →
      (∀ u ∈ reg.devices, u.serial ≠ d.serial) ∧
      ∃ service, LeastService current d.serial service ∧ CarriesService service d) ∧
    (∀ serial, (∃ service, Advertises current serial service) →
      (∀ u ∈ reg.devices, u.serial ≠ serial) →
      ∃! d, d ∈ final.registry.devices ∧ d.origin.isTcp = true ∧ d.serial = serial) ∧
    final.registry.devices.filter (fun d => !d.origin.isTcp) = reg.devices ∧
    DistinctSerials final.registry.devices ∧
    (reg.IdsFresh → final.registry.IdsFresh) := by
  intro final current
  have h : DiscoveredSo reg.devices (replayServices events) final :=
    discoveredSo_run (discoveredSo_start husb hserials) events
  have hc := funext fun service => propext (h.replayed.current_iff service)
  have hf := fun serial => hc ▸ h.follows serial not_mem_nil
  have husb' : ∀ d, d ∈ reg.devices ↔ d ∈ final.registry.devices ∧ d.origin.isTcp = false := by
    intro d
    rw [← h.sound.usb, mem_filter]
    simp
  refine ⟨h.replayed, fun d hd ht => ⟨?_, (hf d.serial).carries d hd rfl ht⟩, ?_,
    h.sound.usb, h.sound.serials, fun hi => idsFresh_run hi events⟩
  · intro u hu hs
    obtain ⟨hm, hn⟩ := (husb' u).mp hu
    rw [h.sound.serials.eq hm hd hs, ht] at hn
    cases hn
  · intro serial hsv hfr
    obtain ⟨d, hd, hs⟩ := (hf serial).present hsv
    have ht : d.origin.isTcp = true := by
      by_contra hn
      exact hfr d ((husb' d).mpr ⟨hd, Bool.not_eq_true _ ▸ hn⟩) hs
    refine ⟨d, ⟨hd, ht, hs⟩, fun e he => ?_⟩
    exact h.sound.serials.eq he.1 hd (he.2.2.trans hs.symm)

def usbDeviceU : DeviceEntry := ⟨"U".toList, 1, .device, .usb, none, none, none, none⟩

def createdA (serviceType : String) (addr : Ipv4Addr) : DiscoveryEvent :=
  ⟨.stored _, .create, ⟨"adb-A".toList, serviceType.toList, [], [addr], [], 5555, ∅⟩⟩

/-- Two records of one device, beside a device over USB. -/
theorem discovery_devices_follow_services_two :
    let events := [createdA "_adb._tcp.local" 1, createdA "_adb-tls-connect._tcp.local" 2]
    let final := events.foldl DiscoveryRegistry.apply ⟨⟨[usbDeviceU], [], [], [], 2⟩, ∅⟩
    ∃! d, d ∈ final.registry.devices ∧ d.origin.isTcp = true ∧ d.serial = "A".toList := by
  intro events final
  have ha := discovery_devices_follow_services ⟨[usbDeviceU], [], [], [], 2⟩
    (by simp [usbDeviceU]) (nodup_singleton _) events
  refine ha.2.2.1 "A".toList ⟨⟨.tlsConnect, "adb-A".toList, none, [.v4 2], 5555, ∅⟩, ?_⟩ ?_
  · exact ⟨by decide, by decide, by simp⟩
  · simp [usbDeviceU]

end AdbFastboot
