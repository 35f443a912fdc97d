import AdbFastboot.HostRegistry
import Mathlib.Data.List.Nodup
import Mathlib.Data.List.Perm.Subperm
import Mathlib.Logic.Relation

namespace AdbFastboot

open List

section

variable {α β : Type} {p : α → Bool} {f : α → α} {xs : List α}

/-- The first match is changed where it stands. -/
theorem modifyFirst_of_find? {x : α} (h : xs.find? p = some x) :
    ∃ front back, xs = front ++ x :: back ∧ modifyFirst p f xs = front ++ f x :: back := by
  induction xs with
  | nil => cases h
  | cons y ys ih =>
    by_cases hy : p y = true
    · rw [find?_cons_of_pos hy] at h
      cases h
      exact ⟨[], ys, rfl, by rw [modifyFirst, if_pos hy]; rfl⟩
    · rw [find?_cons_of_neg hy] at h
      obtain ⟨front, back, rfl, hm⟩ := ih h
      exact ⟨y :: front, back, rfl, by rw [modifyFirst, if_neg hy, hm]; rfl⟩

theorem modifyFirst_of_none (h : xs.find? p = none) : modifyFirst p f xs = xs := by
  induction xs with
  | nil => rfl
  | cons y ys ih =>
    rw [find?_eq_none] at h ih
    rw [modifyFirst, if_neg (h y (mem_cons_self ..)), ih fun x hx => h x (mem_cons_of_mem y hx)]

theorem modifyFirst_map {g : α → β} (h : ∀ x, g (f x) = g x) (xs : List α) :
    (modifyFirst p f xs).map g = xs.map g := by
  cases hf : xs.find? p with
  | none => rw [modifyFirst_of_none hf]
  | some x =>
    obtain ⟨front, back, hx, hm⟩ := modifyFirst_of_find? (f := f) hf
    rw [hm]
    simp [hx, h]

theorem mem_modifyFirst {y : α} (h : y ∈ modifyFirst p f xs) :
    y ∈ xs ∨ ∃ x, xs.find? p = some x ∧ y = f x := by
  cases hf : xs.find? p with
  | none =>
    rw [modifyFirst_of_none hf] at h
    exact .inl h
  | some x =>
    obtain ⟨front, back, hx, hm⟩ := modifyFirst_of_find? (f := f) hf
    rw [hm, mem_append, mem_cons] at h
    rw [hx, mem_append, mem_cons]
    rcases h with h | rfl | h
    · exact .inl (.inl h)
    · exact .inr ⟨x, rfl, rfl⟩
    · exact .inl (.inr (.inr h))

theorem nodup_map_append {g : α → β} {y : α} (h : (xs.map g).Nodup) (hf : ∀ x ∈ xs, g x ≠ g y) :
    ((xs ++ [y]).map g).Nodup := by
  rw [map_append, nodup_append]
  refine ⟨h, nodup_singleton _, ?_⟩
  intro a ha b hb
  obtain ⟨x, hx, rfl⟩ := mem_map.mp ha
  rw [map_singleton, mem_singleton] at hb
  exact hb ▸ hf x hx

end

structure DeviceTable where
  devices : List DeviceEntry
  nextId : Nat

def TransportRegistry.table (reg : TransportRegistry) : DeviceTable := ⟨reg.devices, reg.nextId⟩

/-- Each transport id stands for one device, and the next one for none yet. -/
structure DeviceTable.IdsFresh (table : DeviceTable) : Prop where
  distinct : (table.devices.map DeviceEntry.transportId).Nodup
  below : ∀ d ∈ table.devices, d.transportId < table.nextId

abbrev TransportRegistry.IdsFresh (reg : TransportRegistry) : Prop := reg.table.IdsFresh

def DistinctSerials (devices : List DeviceEntry) : Prop := (devices.map DeviceEntry.serial).Nodup

variable {devices : List DeviceEntry}

/-- With distinct serials, a serial names one device. -/
theorem DistinctSerials.eq (h : DistinctSerials devices) {a b : DeviceEntry} (ha : a ∈ devices)
    (hb : b ∈ devices) (hab : a.serial = b.serial) : a = b :=
  inj_on_of_nodup_map h ha hb hab

variable {reg : TransportRegistry}

theorem TransportRegistry.findBySerial_eq_none {serial : Text} :
    reg.findBySerial serial = none ↔ ∀ d ∈ reg.devices, d.serial ≠ serial := by
  unfold TransportRegistry.findBySerial
  simp

theorem TransportRegistry.findBySerial_mem {serial : Text}
    {d : DeviceEntry} (h : reg.findBySerial serial = some d) :
    d ∈ reg.devices ∧ d.serial = serial :=
  ⟨mem_of_find?_eq_some h, by simpa using List.find?_some h⟩

theorem nodup_map_of_subperm {α β : Type} {f : α → β} {xs ys : List α} (h : xs.Subperm ys)
    (hy : (ys.map f).Nodup) : (xs.map f).Nodup := by
  obtain ⟨zs, hp, hs⟩ := h
  exact (hp.map f).nodup_iff.mp (hy.sublist (hs.map f))

theorem DeviceTable.IdsFresh.append {n : Nat} {d : DeviceEntry}
    (h : DeviceTable.IdsFresh ⟨devices, n⟩) (hi : d.transportId = n) :
    DeviceTable.IdsFresh ⟨devices ++ [d], n + 1⟩ where
  distinct := nodup_map_append h.distinct fun e he => hi ▸ Nat.ne_of_lt (h.below e he)
  below := by
    intro e he
    rcases mem_append.mp he with he | he
    · exact Nat.lt_succ_of_lt (h.below e he)
    · cases mem_singleton.mp he
      exact hi ▸ Nat.lt_succ_self n

namespace DeviceTable

/-- The ids of a table stay fresh when it becomes the other, and no id that was given out before
comes back. -/
structure KeepsIds (table table' : DeviceTable) : Prop where
  fresh : table.IdsFresh → table'.IdsFresh
  next : table.nextId ≤ table'.nextId
  old : ∀ d ∈ table'.devices, d.transportId < table.nextId →
    ∃ e ∈ table.devices, e.transportId = d.transportId

namespace KeepsIds

variable {table table' table'' : DeviceTable} {rest : List DeviceEntry} {n : Nat}

theorem refl (table : DeviceTable) : table.KeepsIds table :=
  ⟨id, Nat.le_refl _, fun d hd _ => ⟨d, hd, rfl⟩⟩

theorem trans (h : table.KeepsIds table') (h' : table'.KeepsIds table'') :
    table.KeepsIds table'' where
  fresh hi := h'.fresh (h.fresh hi)
  next := Nat.le_trans h.next h'.next
  old d hd hlt := by
    obtain ⟨e, he, hi⟩ := h'.old d hd (Nat.lt_of_lt_of_le hlt h.next)
    exact hi ▸ h.old e he (hi ▸ hlt)

theorem of_subset (hn : (devices.map DeviceEntry.transportId).Nodup →
      (rest.map DeviceEntry.transportId).Nodup)
    (hs : ∀ d ∈ rest, ∃ e ∈ devices, e.transportId = d.transportId) :
    KeepsIds ⟨devices, n⟩ ⟨rest, n⟩ where
  fresh hi := ⟨hn hi.distinct, fun d hd => by
    obtain ⟨e, he, hid⟩ := hs d hd
    exact hid ▸ hi.below e he⟩
  next := Nat.le_refl n
  old d hd _ := hs d hd

theorem change {p : DeviceEntry → Bool} {f : DeviceEntry → DeviceEntry}
    (hf : ∀ d, (f d).transportId = d.transportId) :
    KeepsIds ⟨devices, n⟩ ⟨modifyFirst p f devices, n⟩ := by
  refine of_subset (fun h => modifyFirst_map hf devices ▸ h) fun d hd => ?_
  rcases mem_modifyFirst hd with hd | ⟨e, he, rfl⟩
  · exact ⟨d, hd, rfl⟩
  · exact ⟨e, mem_of_find?_eq_some he, (hf e).symm⟩

theorem append {d : DeviceEntry} (hi : d.transportId = n) :
    KeepsIds ⟨devices, n⟩ ⟨devices ++ [d], n + 1⟩ where
  fresh h := h.append hi
  next := Nat.le_succ n
  old e he hlt := by
    rcases mem_append.mp he with he | he
    · exact ⟨e, he, rfl⟩
    · cases mem_singleton.mp he
      exact absurd hi (Nat.ne_of_lt hlt)

end KeepsIds

end DeviceTable

/-- What the server does to the table: it changes a device that keeps its names, drops devices, or
adds one under the next id and a serial that is free. -/
inductive TableEdit (given : Text → Prop) : DeviceTable → DeviceTable → Prop
  | change {devices : List DeviceEntry} {n : Nat} {p : DeviceEntry → Bool}
      {f : DeviceEntry → DeviceEntry} (hserial : ∀ d, (f d).serial = d.serial)
      (hid : ∀ d, (f d).transportId = d.transportId) :
      TableEdit given ⟨devices, n⟩ ⟨modifyFirst p f devices, n⟩
  | drop {devices rest : List DeviceEntry} {n : Nat} (h : rest.Subperm devices) :
      TableEdit given ⟨devices, n⟩ ⟨rest, n⟩
  | add {devices : List DeviceEntry} {n : Nat} {d : DeviceEntry} (hid : d.transportId = n)
      (hfree : ∀ e ∈ devices, e.serial ≠ d.serial) (hgiven : given d.serial) :
      TableEdit given ⟨devices, n⟩ ⟨devices ++ [d], n + 1⟩

abbrev TableEdits (given : Text → Prop) : DeviceTable → DeviceTable → Prop :=
  Relation.ReflTransGen (TableEdit given)

variable {given : Text → Prop} {table table' : DeviceTable}

section

variable (h : TableEdit given table table')
include h

/-- An edit keeps the serials distinct. -/
theorem TableEdit.distinctSerials (hs : DistinctSerials table.devices) :
    DistinctSerials table'.devices := by
  cases h with
  | @change devices n p f hsl hi =>
    unfold DistinctSerials
    exact (modifyFirst_map hsl devices) ▸ hs
  | drop h => exact nodup_map_of_subperm h hs
  | add hi hf hg => exact nodup_map_append hs hf

/-- A device of the edited table was there before, or its name was given. -/
theorem TableEdit.named {d : DeviceEntry} (hd : d ∈ table'.devices) :
    (∃ e ∈ table.devices, e.serial = d.serial ∧ e.transportId = d.transportId) ∨
      given d.serial := by
  cases h with
  | change hs hi =>
    rcases mem_modifyFirst hd with hd | ⟨e, he, rfl⟩
    · exact .inl ⟨d, hd, rfl, rfl⟩
    · exact .inl ⟨e, mem_of_find?_eq_some he, (hs e).symm, (hi e).symm⟩
  | drop h => exact .inl ⟨d, h.subset hd, rfl, rfl⟩
  | add hi hf hg =>
    rcases mem_append.mp hd with hd | hd
    · exact .inl ⟨d, hd, rfl, rfl⟩
    · exact .inr (mem_singleton.mp hd ▸ hg)

end

section

variable (h : TableEdits given table table')
include h

theorem TableEdits.distinctSerials (hs : DistinctSerials table.devices) :
    DistinctSerials table'.devices := by
  induction h with
  | refl => exact hs
  | tail _ he ih => exact he.distinctSerials ih

/-- No sequence of edits gives an id twice. -/
theorem TableEdits.keepsIds : table.KeepsIds table' := by
  induction h with
  | refl => exact .refl _
  | tail _ he ih =>
    refine ih.trans ?_
    cases he with
    | change _ hi => exact .change hi
    | drop h => exact .of_subset (nodup_map_of_subperm h) fun d hd => ⟨d, h.subset hd, rfl⟩
    | add hi => exact .append hi

theorem TableEdits.named {d : DeviceEntry} (hd : d ∈ table'.devices) :
    (∃ e ∈ table.devices, e.serial = d.serial ∧ e.transportId = d.transportId) ∨
      given d.serial := by
  induction h generalizing d with
  | refl => exact .inl ⟨d, hd, rfl, rfl⟩
  | tail _ hed ih =>
    rcases hed.named hd with ⟨e, he, hs, hi⟩ | hg
    · exact hs ▸ hi ▸ ih he
    · exact .inr hg

end

section

variable {given' : Text → Prop} (himp : ∀ serial, given serial → given' serial)
include himp

theorem TableEdit.imp (h : TableEdit given table table') : TableEdit given' table table' := by
  cases h with
  | change hs hi => exact .change hs hi
  | drop h => exact .drop h
  | add hi hf hg => exact .add hi hf (himp _ hg)

theorem TableEdits.imp (h : TableEdits given table table') : TableEdits given' table table' := by
  induction h with
  | refl => exact .refl
  | tail _ he ih => exact ih.tail (he.imp himp)

end

theorem filter_edits (devices : List DeviceEntry) (n : Nat) (q : DeviceEntry → Bool) :
    TableEdits given ⟨devices, n⟩ ⟨devices.filter q, n⟩ :=
  .single (.drop filter_sublist.subperm)

end AdbFastboot
