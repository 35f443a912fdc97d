import AdbFastboot.DnsNameWalk
import AdbFastboot.MdnsAnswer

namespace AdbFastboot

section

variable {α β : Type}

/-- The call comes back with `r`, and with more turns no differently. -/
def Settles (x : Nat → MdnsResult α) (r : MdnsResult α) : Prop :=
  ∃ turns, ∀ fuel, turns ≤ fuel → x fuel = r

theorem settles_const (r : MdnsResult α) : Settles (fun _ => r) r := ⟨0, fun _ _ => rfl⟩

variable {x : Nat → MdnsResult α} {r : MdnsResult α}

theorem settles_of_eq {x : MdnsResult α} (h : x = r) : Settles (fun _ => x) r :=
  ⟨0, fun _ _ => h⟩

/-- Parsers that settle can be run one behind the other. -/
theorem Settles.bind {f : Nat → α → MdnsResult β} {a : α} {r : MdnsResult β}
    (hx : Settles x (.ok a)) (hf : Settles (fun fuel => f fuel a) r) :
    Settles (fun fuel => x fuel >>= f fuel) r := by
  obtain ⟨m, hm⟩ := hx
  obtain ⟨n, hn⟩ := hf
  refine ⟨m + n, fun fuel hle => ?_⟩
  change (x fuel >>= f fuel) = r
  rw [hm fuel (by omega)]
  exact hn fuel (by omega)

theorem Settles.andThen (hx : Settles x r) (f : α → MdnsResult β) :
    Settles (fun fuel => x fuel >>= f) (r >>= f) := by
  obtain ⟨turns, ht⟩ := hx
  exact ⟨turns, fun fuel hle => congrArg (· >>= f) (ht fuel hle)⟩

theorem Settles.panics (hx : Settles x panicked) (f : Nat → α → MdnsResult β) :
    Settles (fun fuel => x fuel >>= f fuel) panicked := by
  obtain ⟨turns, ht⟩ := hx
  refine ⟨turns, fun fuel hle => ?_⟩
  change (x fuel >>= f fuel) = panicked
  rw [ht fuel hle]
  rfl

variable {y : Nat → MdnsResult α}

theorem Settles.ite_pos {p : Prop} [Decidable p] (hp : p)
    (h : Settles x r) : Settles (fun fuel => if p then x fuel else y fuel) r := by
  simp only [if_pos hp]
  exact h

theorem Settles.ite_neg {p : Prop} [Decidable p] (hp : ¬p)
    (h : Settles y r) : Settles (fun fuel => if p then x fuel else y fuel) r := by
  simp only [if_neg hp]
  exact h

theorem Steady.settles (hx : Steady x) {fuel : Nat} (h : x fuel = r) (hr : r ≠ fail .running) :
    Settles x r := by
  refine ⟨fuel, fun more hle => ?_⟩
  rw [hx fuel more hle (h ▸ hr), h]

/-- A parser settles at one result. -/
theorem Settles.unique {r' : MdnsResult α} (h : Settles x r) (h' : Settles x r') : r = r' := by
  obtain ⟨m, hm⟩ := h
  obtain ⟨n, hn⟩ := h'
  rw [← hm (m + n) (by omega), hn (m + n) (by omega)]

end

/-- The name at an offset, and where its bytes end there: labels of at most 63 bytes, up to the root or
to a pointer that leads back. -/
inductive NameAt (data : Bytes) : Nat → Nat → List Bytes → Prop
  | root {offset : Nat} : data[offset]? = some 0 → NameAt data offset (offset + 1) []
  | label {offset stop : Nat} (len : UInt8) {labels : List Bytes} :
      data[offset]? = some len → len ≠ 0 → len.toNat < 64 → offset + 1 + len.toNat ≤ data.length →
        NameAt data (offset + 1 + len.toNat) stop labels →
          NameAt data offset stop (slice data (offset + 1) (offset + 1 + len.toNat) :: labels)
  | pointer {offset stop : Nat} (len low : UInt8) {labels : List Bytes} :
      data[offset]? = some len → isPointer len = true → data[offset + 1]? = some low →
        pointerTarget len low < offset → NameAt data (pointerTarget len low) stop labels →
          NameAt data offset (offset + 2) labels

def FieldAt (data : Bytes) (offset : Nat) (value : UInt16) : Prop :=
  offset + 2 ≤ data.length ∧ slice data offset (offset + 2) = beBytes 2 value.toNat

/-- The data of a record. A TXT record has at least one string. -/
inductive RecordData where
  | ptr (target : List Bytes)
  | srv (priority weight port : UInt16) (host : List Bytes)
  | a (addr : Ipv4Addr)
  | aaaa (addr : Ipv6Addr)
  | txt (strings : List Bytes)
  | other (rtype : UInt16)

def RecordData.rtype : RecordData → UInt16
  | .ptr _ => typePtr
  | .srv _ _ _ _ => typeSrv
  | .a _ => typeA
  | .aaaa _ => typeAaaa
  | .txt _ => typeTxt
  | .other rtype => rtype

structure AnswerRecord where
  owner : List Bytes
  data : RecordData

def txtBytes (strings : List Bytes) : Bytes :=
  strings.flatMap fun s => UInt8.ofNat s.length :: s

def RecordData.At (data : Bytes) (start stop : Nat) : RecordData → Prop
  | .ptr target => NameAt data start stop target
  | .srv priority weight port host => FieldAt data start priority ∧ FieldAt data (start + 2) weight ∧
      FieldAt data (start + 4) port ∧ NameAt data (start + 6) stop host
  | .a addr => stop = start + 4 ∧ slice data start stop = beBytes 4 addr.toNat
  | .aaaa addr => stop = start + 16 ∧ slice data start stop = beBytes 16 addr.toNat
  | .txt strings => strings ≠ [] ∧ (∀ s ∈ strings, s.length < 256) ∧
      slice data start stop = txtBytes strings
  | .other rtype => rtype ≠ typePtr ∧ rtype ≠ typeSrv ∧ rtype ≠ typeA ∧ rtype ≠ typeAaaa ∧
      rtype ≠ typeTxt

structure AnswerRecord.At (data : Bytes) (start stop : Nat) (record : AnswerRecord) : Prop where
  name : ∃ nameEnd rdlength, NameAt data start nameEnd record.owner ∧
    FieldAt data nameEnd record.data.rtype ∧ FieldAt data (nameEnd + 8) rdlength ∧
      stop = nameEnd + 10 + rdlength.toNat ∧ record.data.At data (nameEnd + 10) stop
  fits : stop ≤ data.length

inductive RecordsAt (data : Bytes) : Nat → List AnswerRecord → Prop
  | nil : RecordsAt data data.length []
  | cons {start : Nat} (stop : Nat) {record : AnswerRecord} {records : List AnswerRecord} :
      record.At data start stop → RecordsAt data stop records →
        RecordsAt data start (record :: records)

structure AnswerPacket (data : Bytes) (records : List AnswerRecord) : Prop where
  questions : FieldAt data 4 0
  answers : ∃ ancount, FieldAt data 6 ancount ∧ ancount.toNat = records.length
  records : RecordsAt data 12 records

variable {data : Bytes} {offset stop : Nat} {labels : List Bytes}

theorem NameAt.bounds (h : NameAt data offset stop labels) : offset < stop ∧ stop ≤ data.length := by
  induction h with
  | root hl =>
    obtain ⟨hlt, -⟩ := List.getElem?_eq_some_iff.mp hl
    omega
  | label len hl hne hlt hf hr ih => omega
  | pointer len low hl hp hlow hb hr ih =>
    obtain ⟨hlt, -⟩ := List.getElem?_eq_some_iff.mp hlow
    omega

variable {records : List AnswerRecord}

theorem RecordsAt.start_le {start : Nat} (h : RecordsAt data start records) : start ≤ data.length := by
  cases h with
  | nil => exact Nat.le_refl _
  | cons stop hr hrs =>
    obtain ⟨⟨nameEnd, rdlength, hn, -, -, hs, -⟩, hf⟩ := hr
    have hb := hn.bounds
    omega

theorem AnswerPacket.length (h : AnswerPacket data records) : 12 ≤ data.length := h.records.start_le

theorem isPointer_eq (len : UInt8) : isPointer len = decide (0xC0 ≤ len.toNat) := by
  have ha : ∀ n : Fin 256, isPointer (UInt8.ofNat n) = decide (0xC0 ≤ n.val) := by decide +kernel
  have h := ha ⟨len.toNat, len.toNat_lt⟩
  rwa [UInt8.ofNat_toNat] at h

theorem isPointer_of_label {len : UInt8} (h : len.toNat < 64) : isPointer len = false := by
  rw [isPointer_eq, decide_eq_false_iff_not]
  omega

/-- The labels of a name are decoded in finitely many turns. -/
theorem NameAt.runTurns_decode (h : NameAt data offset stop labels) (before : List Bytes) :
    ∃ turns, runTurns (decodeTurn data) turns (offset, before) = some (.ok (before ++ labels)) := by
  induction h generalizing before with
  | root hl =>
    refine ⟨1, runTurns_done ?_ 0⟩
    have hz : isPointer 0 = false := rfl
    simp [decodeTurn, hl, hz]
  | @label offset stop len labels hl hne hlt hf hrs ih =>
    obtain ⟨turns, hr⟩ :=
      ih (before ++ [slice data (offset + 1) (offset + 1 + len.toNat)])
    have ht : decodeTurn data (offset, before) = .next (offset + 1 + len.toNat,
        before ++ [slice data (offset + 1) (offset + 1 + len.toNat)]) := by
      simp [decodeTurn, hl, isPointer_of_label hlt, hne, Nat.not_lt.mpr hf]
    refine ⟨turns + 1, ?_⟩
    rw [runTurns_next ht, hr, List.append_assoc]
    rfl
  | @pointer offset stop len low labels hl hp hlow hb hrs ih =>
    obtain ⟨turns, hr⟩ := ih before
    have ht : decodeTurn data (offset, before) = .next (pointerTarget len low, before) := by
      simp [decodeTurn, hl, hp, hlow]
    exact ⟨turns + 1, (runTurns_next ht turns).trans hr⟩

theorem settles_of_runTurns {σ α : Type} {turn : σ → LoopStep σ (MdnsResult α)} {s : σ}
    {r : MdnsResult α} (h : ∃ turns, runTurns turn turns s = some r) :
    Settles (fun fuel => (runTurns turn fuel s).getD (fail .running)) r := by
  obtain ⟨turns, hr⟩ := h
  refine ⟨turns, fun fuel hle => ?_⟩
  change (runTurns turn fuel s).getD (fail .running) = r
  rw [runTurns_mono hr hle]
  rfl

section

variable (h : NameAt data offset stop labels)
include h

/-- A name is skipped to its end. -/
theorem NameAt.skips : Settles (fun fuel => skipDnsName fuel data offset) (.ok stop) := by
  refine settles_of_runTurns ?_
  induction h with
  | root hl =>
    refine ⟨1, runTurns_done ?_ 0⟩
    have hz : isPointer 0 = false := rfl
    simp [skipTurn, hl, hz]
  | @label offset stop len labels hl hne hlt hf hr ih =>
    obtain ⟨turns, hrun⟩ := ih
    have ht : skipTurn data offset = .next (offset + 1 + len.toNat) := by
      simp [skipTurn, hl, isPointer_of_label hlt, hne, Nat.not_lt.mpr hf]
    exact ⟨turns + 1, (runTurns_next ht turns).trans hrun⟩
  | @pointer offset stop len low labels hl hp hlow hb hr ih =>
    refine ⟨1, runTurns_done ?_ 0⟩
    simp [skipTurn, hl, hp]

theorem NameAt.runTurns_peek (consumed : Nat) : ∃ turns, runTurns (peekTurn data) turns (offset, consumed)
      = some (.ok (stop, consumed + (stop - offset))) := by
  induction h generalizing consumed with
  | root hl =>
    refine ⟨1, runTurns_done ?_ 0⟩
    have hz : isPointer 0 = false := rfl
    simp [peekTurn, hl, hz]
  | @label offset stop len labels hl hne hlt hf hr ih =>
    obtain ⟨turns, hrun⟩ := ih (consumed + (1 + len.toNat))
    have ht : peekTurn data (offset, consumed)
        = .next (offset + (1 + len.toNat), consumed + (1 + len.toNat)) := by
      simp [peekTurn, hl, isPointer_of_label hlt, hne]
    refine ⟨turns + 1, ?_⟩
    have hbn := hr.bounds
    rw [runTurns_next ht, ← Nat.add_assoc offset, hrun,
      show consumed + (1 + len.toNat) + (stop - (offset + 1 + len.toNat))
        = consumed + (stop - offset) by omega]
  | @pointer offset stop len low labels hl hp hlow hb hr ih =>
    refine ⟨1, runTurns_done ?_ 0⟩
    simp [peekTurn, hl, hp]

end

theorem FieldAt.reads {value : UInt16} (h : FieldAt data offset value) :
    u16BeAt data offset = .ok value := by
  obtain ⟨hl, hs⟩ := h
  rw [u16BeAt_ok hl]
  have hb : slice data offset (offset + 2) = [data[offset], data[offset + 1]] := by
    rw [slice, show offset + 2 - offset = 2 by omega, List.drop_eq_getElem_cons (by omega),
      List.drop_eq_getElem_cons (by omega)]
    rfl
  rw [← hb, hs, beNat_beBytes, Nat.mod_eq_of_lt (by simpa using value.toNat_lt), UInt16.ofNat_toNat]

/-- A record of the answer is peeked as it stands. -/
theorem AnswerRecord.At.peeks {start : Nat} {record : AnswerRecord} (h : record.At data start stop) :
    ∃ nameEnd rdlength, NameAt data start nameEnd record.owner ∧
      FieldAt data nameEnd record.data.rtype ∧ FieldAt data (nameEnd + 8) rdlength ∧
      stop = nameEnd + 10 + rdlength.toNat ∧ record.data.At data (nameEnd + 10) stop ∧
      Settles (fun fuel => peekDnsRecord fuel data start)
        (.ok (⟨stop - start, nameEnd - start⟩, rdlength.toNat)) := by
  obtain ⟨⟨nameEnd, rdlength, hn, ht, hl, hs, hd⟩, hf⟩ := h
  refine ⟨nameEnd, rdlength, hn, ht, hl, hs, hd, ?_⟩
  have hb := hn.bounds
  have hp := settles_of_runTurns (hn.runTurns_peek 0)
  refine Settles.ite_neg (by omega) (hp.bind ?_)
  dsimp only
  rw [if_neg (by omega), hl.reads, ok_bind, if_neg (by omega), Nat.zero_add, hs]
  exact settles_const _

end AdbFastboot
