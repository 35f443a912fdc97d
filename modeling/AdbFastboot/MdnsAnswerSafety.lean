import AdbFastboot.DnsNameWalk
import AdbFastboot.MdnsAnswer

namespace AdbFastboot

open MdnsClient Returned

theorem returned_sliceAt {data : Bytes} {a b : Nat} (ha : a ≤ b) (hb : b ≤ data.length) :
    Returned (sliceAt data a b : MdnsResult Bytes) := by
  rw [sliceAt_ok ha hb]
  exact returned_ok _

def NameReads (data : Bytes) (offset : Nat) : Prop :=
  ∃ labels, decodeLabels (data.length + 1) data offset = .ok labels

section

variable {data : Bytes} {fuel : Nat}

theorem peekDnsRecord_full (hfuel : data.length < fuel) (offset : Nat) :
    peekDnsRecord fuel data offset = peekDnsRecord (data.length + 1) data offset :=
  steady_peekDnsRecord data offset _ _ hfuel (returned_peekDnsRecord (Nat.lt_succ_self _) offset).2

/-- Skipping the questions returns. -/
theorem returned_skipQuestions (hfuel : data.length < fuel) (count offset : Nat) :
    Returned (skipQuestions fuel data count offset) := by
  induction count generalizing offset with
  | zero => exact returned_ok _
  | succ count ih => exact (returned_skipDnsName hfuel offset).bind fun _ _ => ih _

theorem steady_skipQuestions (data : Bytes) (count offset : Nat) :
    Steady fun fuel => skipQuestions fuel data count offset := by
  induction count generalizing offset with
  | zero => exact steady_const _
  | succ count ih => exact (steady_runTurns (skipTurn data) offset).bind fun _ => ih _

theorem skipQuestions_full (hfuel : data.length < fuel) (count offset : Nat) :
    skipQuestions fuel data count offset = skipQuestions (data.length + 1) data count offset :=
  steady_skipQuestions data count offset _ _ hfuel
    (returned_skipQuestions (Nat.lt_succ_self _) count offset).2

theorem steady_clientName (data : Bytes) (offset : Nat) :
    Steady fun fuel => decodeDnsName fuel data offset :=
  (steady_decodeLabels data offset).bind fun _ => steady_const _

variable (hloop : NoNameLoop data) (hcut : NoCutPointer data) (hfuel : data.length < fuel)

include hloop hcut hfuel

variable (offset : Nat)

theorem returned_serverName : Returned (MdnsServer.decodeDnsName fuel data offset) :=
  (returned_decodeLabels hloop hcut hfuel offset).bind fun _ _ => returned_ok _

theorem returned_clientName : Returned (decodeDnsName fuel data offset) :=
  (returned_decodeLabels hloop hcut hfuel offset).bind fun _ _ => returned_ok _

/-- The client reads a name exactly if its labels can be decoded. -/
theorem clientName_ok_iff :
    (∃ name, decodeDnsName fuel data offset = .ok name) ↔ NameReads data offset := by
  have hs : decodeLabels fuel data offset = decodeLabels (data.length + 1) data offset :=
    steady_decodeLabels data offset _ _ hfuel
      (returned_decodeLabels hloop hcut (Nat.lt_succ_self _) offset).2
  constructor
  · rintro ⟨name, hn⟩
    obtain ⟨labels, hl, -⟩ := bind_eq_ok.mp hn
    exact ⟨labels, hs ▸ hl⟩
  · rintro ⟨labels, hl⟩
    exact ⟨_, bind_eq_ok.mpr ⟨labels, hs.trans hl, rfl⟩⟩

end

namespace MdnsServer

variable {data : Bytes} {fuel : Nat} (hloop : NoNameLoop data) (hcut : NoCutPointer data)
  (hfuel : data.length < fuel)

include hloop hcut hfuel

variable (serviceType : AdbMdnsServiceType)

theorem returned_takeRecord (name : Text) (rtype : UInt16)
    (offset : Nat) {rrOffset rdlen : Nat} (hr : rrOffset + rdlen ≤ data.length)
    (records : Records) :
    Returned (takeRecord fuel data serviceType name rtype offset rrOffset rdlen records) := by
  have hn := returned_serverName hloop hcut hfuel
  have hd : Returned (sliceAt data rrOffset (rrOffset + rdlen) : MdnsResult Bytes) :=
    returned_sliceAt (by omega) hr
  unfold takeRecord
  split
  next => exact (hn rrOffset).bind fun _ _ => returned_ok _
  split
  next =>
    split
    next hs =>
      refine (returned_u16BeAt_iff.mpr (by omega)).bind fun _ _ => ?_
      refine (returned_u16BeAt_iff.mpr (by omega)).bind fun _ _ => ?_
      refine (returned_u16BeAt_iff.mpr (by omega)).bind fun _ _ => ?_
      exact (hn _).bind fun _ _ => (hn _).bind fun _ _ => returned_ok _
    next => exact returned_ok _
  next =>
    split
    next =>
      refine hd.bind fun rdata _ => ?_
      cases addressOf rtype rdata with
      | some addr | none => exact returned_ok _
    next =>
      split
      next =>
        refine hd.bind fun rdata _ => ?_
        cases parseTxtRecord rdata with
        | ok txt => exact (hn offset).bind fun _ _ => returned_ok _
        | error e => exact returned_ok _
      next => exact returned_ok _

/-- The server's loop over the records returns. -/
theorem returned_recordLoop (count offset : Nat) (records : Records) :
    Returned (recordLoop fuel data serviceType count offset records) := by
  induction count generalizing offset records with
  | zero => exact returned_ok _
  | succ count ih =>
    have hs := returned_skipDnsName hfuel offset
    unfold recordLoop
    split
    next => exact returned_ok _
    refine bind ((returned_serverName hloop hcut hfuel offset).bind fun _ _ =>
      hs.bind fun _ _ => returned_ok _) ?_
    rintro ⟨name, -⟩ -
    dsimp only
    split
    next => exact returned_ok _
    refine hs.bind fun rrOffset _ => ?_
    split
    next => exact returned_ok _
    next hf =>
      refine (returned_u16BeAt_iff.mpr (by omega)).bind fun rtype _ => ?_
      refine (returned_u16BeAt_iff.mpr (by omega)).bind fun _ _ => ?_
      refine bind ?_ fun _ _ => ?_
      · rw [u32BeAt_ok (by omega)]
        exact returned_ok _
      refine (returned_u16BeAt_iff.mpr (by omega)).bind fun rdlen _ => ?_
      split
      next => exact returned_ok _
      next hr =>
        refine (returned_takeRecord hloop hcut hfuel _ _ _ _ (by omega) _).bind fun _ _ => ?_
        exact hs.bind fun _ _ => ih _ _

theorem returned_parseMdnsResponse (order : IterationOrder (Sigma fun _ : Text => UInt16 × Text))
    (serviceType : AdbMdnsServiceType) :
    Returned (parseMdnsResponse fuel order data serviceType) := by
  unfold parseMdnsResponse
  split
  next => exact returned_parseError _
  refine (returned_u16BeAt_iff.mpr (by omega)).bind fun qdcount _ => ?_
  refine (returned_u16BeAt_iff.mpr (by omega)).bind fun ancount _ => ?_
  refine (returned_skipQuestions hfuel _ _).bind fun offset _ => ?_
  exact (returned_recordLoop hloop hcut hfuel _ _ _ _).bind fun _ _ => returned_ok _

end MdnsServer

namespace MdnsClient

def PtrAt (data : Bytes) (offset : Nat) (name : DnsRecordPeek) : Prop :=
  offset + 12 ≤ data.length ∧
    slice data (offset + name.lenDiff) (offset + name.lenDiff + 2) = [0x00, 0x0C]

/-- The name that is looked for ten bytes behind `rrOffset` can be read, if it is looked for. -/
def PtrNameReads (data : Bytes) (rrOffset : Nat) : Prop :=
  ∀ rdlength, u16BeAt data (rrOffset + 8) = .ok rdlength →
    rrOffset + 10 + rdlength.toNat ≤ data.length → NameReads data (rrOffset + 10)

/-- At each offset at which `parse_mdns_response` looks for a record: where a PTR record is found,
ten bytes follow it. The next offset is counted from the start of the packet, and a name that cannot
be read ends the search. -/
def PtrRoom (data : Bytes) : Nat → Nat → Prop
  | 0, _ => True
  | count + 1, offset => ∀ name rdlength,
      peekDnsRecord (data.length + 1) data offset = .ok (name, rdlength) →
        (PtrAt data offset name → offset + name.consumed + 10 ≤ data.length) ∧
          ((PtrAt data offset name → PtrNameReads data (offset + name.consumed)) →
            PtrRoom data count (name.consumed + 10 + rdlength))

def srvNext (rtype : UInt16) (rrOffset rdlen : Nat) : Nat :=
  if rtype = typeSrv ∨ rtype = typeA ∨ rtype = typeAaaa ∨ rtype = typeTxt then rrOffset
  else rrOffset + rdlen

/-- The names of an SRV record can be read where they are looked for. -/
def SrvNamesRead (data : Bytes) (rtype : UInt16) (offset rrOffset rdlen : Nat) : Prop :=
  rtype = typeSrv → rrOffset + rdlen ≤ data.length → 6 ≤ rdlen →
    NameReads data (rrOffset + 6) ∧ NameReads data offset

/-- At each offset at which `parse_srv_response` looks for a record: ten bytes follow the record that
is found. -/
def SrvRoom (data : Bytes) : Nat → Nat → Prop
  | 0, _ => True
  | count + 1, offset => ∀ name rdlength,
      peekDnsRecord (data.length + 1) data offset = .ok (name, rdlength) →
        offset + 12 ≤ data.length →
          offset + name.consumed + 10 ≤ data.length ∧
            ∀ rtype rdlen, u16BeAt data (offset + name.lenDiff) = .ok rtype →
              u16BeAt data (offset + name.consumed + 8) = .ok rdlen →
                SrvNamesRead data rtype offset (offset + name.consumed + 10) rdlen.toNat →
                  SrvRoom data count (srvNext rtype (offset + name.consumed + 10) rdlen.toNat)

def Answers (data : Bytes) (room : Nat → Nat → Prop) : Prop :=
  ∀ qdcount ancount offset, 12 ≤ data.length → u16BeAt data 4 = .ok qdcount →
    u16BeAt data 6 = .ok ancount →
      skipQuestions (data.length + 1) data qdcount.toNat 12 = .ok offset →
        room ancount.toNat offset

section

variable {data : Bytes} {fuel : Nat} {α : Type} (hfuel : data.length < fuel)
include hfuel

/-- A parser returns exactly if the answers have the room that it takes. -/
theorem returned_answers_iff {body : UInt16 → Nat → MdnsResult α} {room : Nat → Nat → Prop}
    (hb : ∀ count offset, Returned (body count offset) ↔ room count.toNat offset) :
    Returned (do
      if data.length < 12 then parseError "packet too short"
      else
        let qdcount ← u16BeAt data 4
        let ancount ← u16BeAt data 6
        let offset ← skipQuestions fuel data qdcount.toNat 12
        body ancount offset) ↔ Answers data room := by
  unfold Answers
  split
  next hs => exact ⟨fun _ _ _ _ hl => absurd hl (by omega), fun _ => returned_parseError _⟩
  next hln =>
    have hq := u16BeAt_ok (show 4 + 2 ≤ data.length by omega)
    have ha := u16BeAt_ok (show 6 + 2 ≤ data.length by omega)
    rw [hq, ok_bind, ha, ok_bind]
    constructor
    · intro h qdcount ancount offset _ hq' ha' ho
      cases hq'
      cases ha'
      rw [skipQuestions_full hfuel, ho, ok_bind] at h
      exact (hb _ _).mp h
    · intro h
      refine (returned_skipQuestions hfuel _ _).bind fun offset ho => ?_
      rw [skipQuestions_full hfuel] at ho
      exact (hb _ _).mpr (h _ _ offset (by omega) rfl rfl ho)

/-- Behind a peeked record only what follows can fail. -/
theorem returned_peek_iff {offset : Nat} {f : DnsRecordPeek × Nat → MdnsResult α}
    {room : DnsRecordPeek → Nat → Prop} (hf : ∀ name rdlength,
      peekDnsRecord (data.length + 1) data offset = .ok (name, rdlength) →
        (Returned (f (name, rdlength)) ↔ room name rdlength)) :
    Returned (peekDnsRecord fuel data offset >>= f) ↔ ∀ name rdlength,
      peekDnsRecord (data.length + 1) data offset = .ok (name, rdlength) → room name rdlength := by
  have hr := returned_peekDnsRecord hfuel offset
  rw [peekDnsRecord_full hfuel offset] at hr ⊢
  cases hp : peekDnsRecord (data.length + 1) data offset with
  | error e =>
    rw [hp] at hr
    refine ⟨fun _ _ _ h => ?_, fun _ => hr.bind fun _ h => ?_⟩
    · cases h
    · cases h
  | ok found =>
    rw [ok_bind, hf _ _ hp]
    refine ⟨fun h name rdlength heq => ?_, fun h => h _ _ rfl⟩
    cases heq
    exact h

end

theorem isPtrAt_ok {data : Bytes} {fuel offset rdlength : Nat} {name : DnsRecordPeek}
    (hp : peekDnsRecord fuel data offset = .ok (name, rdlength)) :
    ∃ isPtr, isPtrAt data offset name.lenDiff = .ok isPtr ∧
      (isPtr = true ↔ PtrAt data offset name) := by
  obtain ⟨-, hc, hle⟩ := peekDnsRecord_ok hp
  unfold isPtrAt
  split
  next hl =>
    rw [sliceAt_ok (by omega) (by omega)]
    exact ⟨_, rfl, by simp [PtrAt, show offset + 12 ≤ data.length from hl]⟩
  next hl => exact ⟨false, rfl, by simp [PtrAt, show ¬offset + 12 ≤ data.length from hl]⟩

section

variable {data : Bytes} {fuel : Nat} (hloop : NoNameLoop data) (hcut : NoCutPointer data)
  (hfuel : data.length < fuel)

include hloop hcut hfuel

variable (serviceType : AdbMdnsServiceType)

theorem returned_takePtr_iff (rrOffset : Nat) (names : List Text) :
    Returned (takePtr fuel data serviceType rrOffset names) ↔ rrOffset + 10 ≤ data.length := by
  constructor
  · intro h
    by_contra hr
    unfold takePtr at h
    by_cases hty : rrOffset + 2 ≤ data.length
    · rw [u16BeAt_ok hty, ok_bind] at h
      by_cases hc : rrOffset + 2 + 2 ≤ data.length
      · rw [u16BeAt_ok hc, ok_bind] at h
        by_cases ht : rrOffset + 4 + 4 ≤ data.length
        · rw [u32BeAt_ok ht, ok_bind] at h
          have hl := returned_u16BeAt_iff.mp h.of_bind
          omega
        · exact absurd (returned_u32BeAt_iff.mp h.of_bind) ht
      · exact absurd (returned_u16BeAt_iff.mp h.of_bind) hc
    · exact absurd (returned_u16BeAt_iff.mp h.of_bind) hty
  · intro hr
    refine (returned_u16BeAt_iff.mpr (by omega)).bind fun _ _ => ?_
    refine (returned_u16BeAt_iff.mpr (by omega)).bind fun _ _ => ?_
    refine (returned_u32BeAt_iff.mpr (by omega)).bind fun _ _ => ?_
    refine (returned_u16BeAt_iff.mpr (by omega)).bind fun rdlength _ => ?_
    split
    next => exact (returned_clientName hloop hcut hfuel _).bind fun _ _ => returned_ok _
    next => exact returned_ok _

variable {rrOffset : Nat}

theorem takePtr_ok_iff (hr : rrOffset + 10 ≤ data.length) (names : List Text) :
    (∃ names', takePtr fuel data serviceType rrOffset names = .ok names') ↔
      PtrNameReads data rrOffset := by
  have hl := u16BeAt_ok (by omega)
  have hn := clientName_ok_iff hloop hcut hfuel (rrOffset + 10)
  unfold takePtr PtrNameReads
  rw [u16BeAt_ok (by omega), ok_bind, u16BeAt_ok (by omega), ok_bind,
    u32BeAt_ok (by omega), ok_bind, hl, ok_bind]
  constructor
  · rintro ⟨names', h⟩ rdlength heq hf
    cases heq
    rw [if_pos hf] at h
    obtain ⟨text, ht, -⟩ := bind_eq_ok.mp h
    exact hn.mp ⟨text, ht⟩
  · intro h
    split
    next hf =>
      obtain ⟨text, ht⟩ := hn.mpr (h _ rfl hf)
      exact ⟨_, bind_eq_ok.mpr ⟨text, ht, rfl⟩⟩
    next => exact ⟨names, rfl⟩

/-- The PTR loop returns exactly if each record has room for its fields. -/
theorem returned_ptrLoop_iff (count offset : Nat) (names : List Text) :
    Returned (ptrLoop fuel data serviceType count offset names) ↔ PtrRoom data count offset := by
  induction count generalizing offset names with
  | zero => exact ⟨fun _ => trivial, fun _ => returned_ok _⟩
  | succ count ih =>
    unfold ptrLoop PtrRoom
    refine returned_peek_iff hfuel fun name rdlength hpk => ?_
    obtain ⟨isPtr, hip, hi⟩ := isPtrAt_ok hpk
    dsimp only
    rw [hip, ok_bind]
    cases isPtr with
    | false =>
      have hnot : ¬PtrAt data offset name := fun h => Bool.false_ne_true (hi.mpr h)
      exact (ih _ _).trans ⟨fun hrt => ⟨fun h => absurd h hnot, fun _ => hrt⟩,
        fun h => h.2 fun h => absurd h hnot⟩
    | true =>
      have hp := hi.mp rfl
      have ht := returned_takePtr_iff hloop hcut hfuel serviceType (offset + name.consumed) names
      constructor
      · intro h
        have hr := ht.mp h.of_bind
        refine ⟨fun _ => hr, fun hrs => ?_⟩
        obtain ⟨names', hn⟩ :=
          (takePtr_ok_iff hloop hcut hfuel serviceType hr names).mpr (hrs hp)
        rw [if_pos rfl, hn] at h
        exact (ih _ _).mp h
      · rintro ⟨hr, hrt⟩
        refine bind (ht.mpr (hr hp)) fun names' hn => ?_
        refine (ih _ _).mpr (hrt fun _ => ?_)
        exact (takePtr_ok_iff hloop hcut hfuel serviceType (hr hp) names).mp ⟨names', hn⟩

theorem returned_takeRecord (rtype : UInt16) (offset rrOffset rdlen : Nat) (fields : SrvFields) :
    Returned (takeRecord fuel data rtype offset rrOffset rdlen fields) := by
  have hn := returned_clientName hloop hcut hfuel
  unfold takeRecord
  split
  next =>
    split
    next hs =>
      refine (returned_u16BeAt_iff.mpr (by omega)).bind fun _ _ => ?_
      refine (returned_u16BeAt_iff.mpr (by omega)).bind fun _ _ => ?_
      refine (returned_u16BeAt_iff.mpr (by omega)).bind fun _ _ => ?_
      exact (hn _).bind fun _ _ => (hn _).bind fun _ _ => returned_ok _
    next => exact returned_ok _
  next =>
    split
    next =>
      split
      next hr => exact (returned_sliceAt (by omega) hr).bind fun _ _ => returned_ok _
      next => exact returned_ok _
    split
    next =>
      split
      next hr =>
        refine (returned_sliceAt (by omega) hr).bind fun rdata _ => ?_
        cases parseTxtRecord rdata with
        | ok txt | error e => exact returned_ok _
      next => exact returned_ok _
    next => exact returned_ok _

/-- An SRV record is taken exactly if its two names can be read. -/
theorem takeRecord_srv_iff {offset rdlen : Nat} (hrm : rrOffset + rdlen ≤ data.length)
    (hs : 6 ≤ rdlen) (fields : SrvFields) :
    (∃ fields', takeRecord fuel data typeSrv offset rrOffset rdlen fields = .ok (rrOffset, fields')) ↔
      NameReads data (rrOffset + 6) ∧ NameReads data offset := by
  have hht := clientName_ok_iff hloop hcut hfuel (rrOffset + 6)
  have ho := clientName_ok_iff hloop hcut hfuel offset
  unfold takeRecord
  rw [if_pos rfl, if_pos ⟨hrm, hs⟩, u16BeAt_ok (by omega), ok_bind, u16BeAt_ok (by omega), ok_bind,
    u16BeAt_ok (by omega), ok_bind]
  constructor
  · rintro ⟨fields', h⟩
    obtain ⟨hostname, hh, h⟩ := bind_eq_ok.mp h
    obtain ⟨fqdn, hf, -⟩ := bind_eq_ok.mp h
    exact ⟨hht.mp ⟨hostname, hh⟩, ho.mp ⟨fqdn, hf⟩⟩
  · rintro ⟨hr, hr'⟩
    obtain ⟨hostname, hh⟩ := hht.mpr hr
    obtain ⟨fqdn, hf⟩ := ho.mpr hr'
    exact ⟨_, bind_eq_ok.mpr ⟨hostname, hh, bind_eq_ok.mpr ⟨fqdn, hf, rfl⟩⟩⟩

omit hloop hcut hfuel in
variable (data fuel) in
theorem takeRecord_other {rtype : UInt16} (ho : rtype ≠ typeSrv) (offset rrOffset rdlen : Nat)
    (fields : SrvFields) :
    ∃ fields', takeRecord fuel data rtype offset rrOffset rdlen fields
      = .ok (srvNext rtype rrOffset rdlen, fields') := by
  unfold takeRecord
  rw [if_neg ho]
  split
  next ha =>
    have hn : srvNext rtype rrOffset rdlen = rrOffset :=
      if_pos (.inr (ha.elim .inl fun h => .inr (.inl h)))
    rw [hn]
    split
    next hr =>
      rw [sliceAt_ok (by omega) hr]
      exact ⟨_, rfl⟩
    next => exact ⟨_, rfl⟩
  next ha =>
    split
    next ht =>
      have hn : srvNext rtype rrOffset rdlen = rrOffset := if_pos (.inr (.inr (.inr ht)))
      rw [hn]
      split
      next hr =>
        rw [sliceAt_ok (by omega) hr, ok_bind]
        cases parseTxtRecord (slice data rrOffset (rrOffset + rdlen)) with
        | ok txt | error e => exact ⟨_, rfl⟩
      next => exact ⟨_, rfl⟩
    next ht =>
      have hn : srvNext rtype rrOffset rdlen = rrOffset + rdlen := by
        refine if_neg ?_
        rintro (h | h | h | h)
        · exact ho h
        · exact ha (.inl h)
        · exact ha (.inr h)
        · exact ht h
      rw [hn]
      exact ⟨_, rfl⟩

theorem takeRecord_ok_iff (rtype : UInt16) (offset rrOffset rdlen : Nat) (fields : SrvFields) :
    (∃ fields', takeRecord fuel data rtype offset rrOffset rdlen fields
        = .ok (srvNext rtype rrOffset rdlen, fields')) ↔
      SrvNamesRead data rtype offset rrOffset rdlen := by
  by_cases hs : rtype = typeSrv
  · subst hs
    by_cases hf : rrOffset + rdlen ≤ data.length ∧ 6 ≤ rdlen
    · refine (takeRecord_srv_iff hloop hcut hfuel hf.1 hf.2 fields).trans ?_
      exact ⟨fun h _ _ _ => h, fun h => h rfl hf.1 hf.2⟩
    refine ⟨fun _ _ hr hsix => absurd ⟨hr, hsix⟩ hf, fun _ => ⟨fields, ?_⟩⟩
    unfold takeRecord
    rw [if_pos rfl, if_neg hf]
    rfl
  · exact ⟨fun _ h => absurd h hs, fun _ => takeRecord_other _ _ hs _ _ _ _⟩

theorem takeRecord_next {rtype : UInt16} {offset rdlen next : Nat} {fields fields' : SrvFields}
    (h : takeRecord fuel data rtype offset rrOffset rdlen fields = .ok (next, fields')) :
    next = srvNext rtype rrOffset rdlen ∧ SrvNamesRead data rtype offset rrOffset rdlen := by
  by_cases hs : rtype = typeSrv
  · subst hs
    have hn : srvNext typeSrv rrOffset rdlen = rrOffset := if_pos (.inl rfl)
    have heq : next = rrOffset := by
      unfold takeRecord at h
      rw [if_pos rfl] at h
      split at h
      next =>
        obtain ⟨_, _, h⟩ := bind_eq_ok.mp h
        obtain ⟨_, _, h⟩ := bind_eq_ok.mp h
        obtain ⟨_, _, h⟩ := bind_eq_ok.mp h
        obtain ⟨_, _, h⟩ := bind_eq_ok.mp h
        obtain ⟨_, _, h⟩ := bind_eq_ok.mp h
        cases h
        rfl
      next =>
        cases h
        rfl
    subst heq
    exact ⟨hn.symm, (takeRecord_ok_iff hloop hcut hfuel _ _ _ _ _).mp ⟨fields', hn ▸ h⟩⟩
  · obtain ⟨fields'', ho⟩ := takeRecord_other data fuel hs offset rrOffset rdlen fields
    rw [ho] at h
    cases h
    exact ⟨rfl, fun h => absurd h hs⟩

/-- The SRV loop returns exactly if each record has room for its fields. -/
theorem returned_srvLoop_iff (count offset : Nat) (fields : SrvFields) :
    Returned (srvLoop fuel data count offset fields) ↔ SrvRoom data count offset := by
  induction count generalizing offset fields with
  | zero => exact ⟨fun _ => trivial, fun _ => returned_ok _⟩
  | succ count ih =>
    unfold srvLoop SrvRoom
    refine returned_peek_iff hfuel fun name rdlength hp => ?_
    obtain ⟨-, hc, hle⟩ := peekDnsRecord_ok hp
    dsimp only
    by_cases hl : offset + 12 ≤ data.length
    · have hty := u16BeAt_ok (show offset + name.lenDiff + 2 ≤ data.length by omega)
      rw [if_neg (by omega), hty, ok_bind]
      constructor
      · intro h _
        have hrm := returned_u16BeAt_iff.mp h.of_bind
        refine ⟨by omega, fun rtype rdlen hrt hr hrs => ?_⟩
        cases hrt
        rw [hr, ok_bind] at h
        obtain ⟨fields', hf⟩ := (takeRecord_ok_iff hloop hcut hfuel _ _ _ _ fields).mpr hrs
        rw [hf, ok_bind] at h
        exact (ih _ _).mp h
      · intro h
        obtain ⟨hrm, hre⟩ := h hl
        refine (returned_u16BeAt_iff.mpr (by omega)).bind fun rdlen hr => ?_
        refine (returned_takeRecord hloop hcut hfuel _ _ _ _ _).bind ?_
        rintro ⟨next, fields'⟩ ht
        obtain ⟨rfl, hrs⟩ := takeRecord_next hloop hcut hfuel ht
        exact (ih _ _).mpr (hre _ rdlen rfl hr hrs)
    · rw [if_pos (by omega)]
      exact ⟨fun _ h => absurd h hl, fun _ => returned_ok _⟩

theorem returned_parseMdnsResponse_iff :
    Returned (parseMdnsResponse fuel data serviceType) ↔ Answers data (PtrRoom data) := by
  refine returned_answers_iff hfuel fun count offset => ?_
  rw [← returned_ptrLoop_iff hloop hcut hfuel serviceType _ offset []]
  exact ⟨of_bind, fun h => h.bind fun _ _ => returned_ok _⟩

theorem returned_parseSrvResponse_iff :
    Returned (parseSrvResponse fuel data serviceType) ↔ Answers data (SrvRoom data) := by
  refine returned_answers_iff hfuel fun count offset => ?_
  rw [← returned_srvLoop_iff hloop hcut hfuel _ offset .empty]
  refine ⟨of_bind, fun h => h.bind fun fields _ => ?_⟩
  split
  next => exact returned_parseError _
  next => exact returned_ok _

end

variable (data : Bytes) (serviceType : AdbMdnsServiceType)

theorem steady_takePtr (rrOffset : Nat) (names : List Text) :
    Steady fun fuel => takePtr fuel data serviceType rrOffset names := by
  refine (steady_const _).bind fun _ => (steady_const _).bind fun _ => (steady_const _).bind fun _ =>
    (steady_const _).bind fun _ => Steady.ite ?_ (steady_const _)
  exact (steady_clientName data _).bind fun _ => steady_const _

theorem steady_ptrLoop (count offset : Nat) (names : List Text) :
    Steady fun fuel => ptrLoop fuel data serviceType count offset names := by
  induction count generalizing offset names with
  | zero => exact steady_const _
  | succ count ih =>
    refine (steady_peekDnsRecord data offset).bind ?_
    rintro ⟨name, rdlength⟩
    refine (steady_const _).bind fun isPtr => ?_
    cases isPtr with
    | false => exact ih _ _
    | true => exact (steady_takePtr data serviceType _ _).bind fun _ => ih _ _

theorem steady_takeRecord (rtype : UInt16) (offset rrOffset rdlen : Nat) (fields : SrvFields) :
    Steady fun fuel => takeRecord fuel data rtype offset rrOffset rdlen fields := by
  have hc : ∀ x : MdnsResult (Nat × SrvFields), Steady fun _ => x := steady_const
  refine Steady.ite (Steady.ite ?_ (hc _)) (hc _)
  refine (steady_const _).bind fun _ => (steady_const _).bind fun _ => (steady_const _).bind fun _ => ?_
  exact (steady_clientName data _).bind fun _ => (steady_clientName data _).bind fun _ => hc _

theorem steady_srvLoop (count offset : Nat) (fields : SrvFields) :
    Steady fun fuel => srvLoop fuel data count offset fields := by
  induction count generalizing offset fields with
  | zero => exact steady_const _
  | succ count ih =>
    refine (steady_peekDnsRecord data offset).bind ?_
    rintro ⟨name, rdlength⟩
    refine (steady_const _).ite ((steady_const _).bind fun _ => (steady_const _).bind fun _ => ?_)
    refine (steady_takeRecord data _ _ _ _ _).bind ?_
    rintro ⟨next, fields'⟩
    exact ih _ _

theorem steady_parseMdnsResponse : Steady fun fuel => parseMdnsResponse fuel data serviceType := by
  refine (steady_const _).ite ((steady_const _).bind fun _ => (steady_const _).bind fun _ => ?_)
  refine (steady_skipQuestions data _ _).bind fun _ => ?_
  exact (steady_ptrLoop data serviceType _ _ _).bind fun _ => steady_const _

theorem steady_parseSrvResponse : Steady fun fuel => parseSrvResponse fuel data serviceType := by
  refine (steady_const _).ite ((steady_const _).bind fun _ => (steady_const _).bind fun _ => ?_)
  refine (steady_skipQuestions data _ _).bind fun _ => ?_
  exact (steady_srvLoop data _ _ _).bind fun _ => steady_const _

end MdnsClient

/-- Every parser of an answer comes back, and so does the decoder of names at every offset. -/
structure ParsersReturn (data : Bytes) : Prop where
  clientName : ∀ offset, ∃ fuel, Returned (MdnsClient.decodeDnsName fuel data offset)
  serverName : ∀ offset, ∃ fuel, Returned (MdnsServer.decodeDnsName fuel data offset)
  clientPtr : ∀ serviceType, ∃ fuel, Returned (MdnsClient.parseMdnsResponse fuel data serviceType)
  clientSrv : ∀ serviceType, ∃ fuel, Returned (MdnsClient.parseSrvResponse fuel data serviceType)
  server : ∀ order serviceType, ∃ fuel,
    Returned (MdnsServer.parseMdnsResponse fuel order data serviceType)

/-- The parsers come back from a packet exactly when its pointers make no loop and none is cut off at
the end, and each record after which the client reads on has ten bytes behind it. -/
theorem mdns_parsers_return_iff (data : List UInt8) :
    ParsersReturn data ↔ NoNameLoop data ∧ NoCutPointer data ∧
      MdnsClient.Answers data (MdnsClient.PtrRoom data) ∧
      MdnsClient.Answers data (MdnsClient.SrvRoom data) := by
  constructor
  · intro h
    have hn : ∀ offset, ∃ fuel, Returned (decodeLabels fuel data offset) := by
      intro offset
      obtain ⟨fuel, hr⟩ := h.serverName offset
      exact ⟨fuel, hr.of_bind⟩
    obtain ⟨hloop, hcut⟩ := (returned_decodeLabels_iff data).mp hn
    obtain ⟨fuel, hp⟩ := h.clientPtr .classic
    obtain ⟨fuel', hs⟩ := h.clientSrv .classic
    refine ⟨hloop, hcut, ?_, ?_⟩
    · refine (returned_parseMdnsResponse_iff hloop hcut
        (show data.length < fuel + (data.length + 1) by omega) .classic).mp ?_
      exact (steady_parseMdnsResponse data .classic).returned hp (by omega)
    · refine (returned_parseSrvResponse_iff hloop hcut
        (show data.length < fuel' + (data.length + 1) by omega) .classic).mp ?_
      exact (steady_parseSrvResponse data .classic).returned hs (by omega)
  · rintro ⟨hloop, hcut, hp, hs⟩
    have hfuel : data.length < data.length + 1 := Nat.lt_succ_self _
    exact
      { clientName := fun offset => ⟨_, returned_clientName hloop hcut hfuel offset⟩
        serverName := fun offset => ⟨_, returned_serverName hloop hcut hfuel offset⟩
        clientPtr := fun serviceType =>
          ⟨_, (returned_parseMdnsResponse_iff hloop hcut hfuel serviceType).mpr hp⟩
        clientSrv := fun serviceType =>
          ⟨_, (returned_parseSrvResponse_iff hloop hcut hfuel serviceType).mpr hs⟩
        server := fun order serviceType =>
          ⟨_, MdnsServer.returned_parseMdnsResponse hloop hcut hfuel order serviceType⟩ }

def oneAnswerHeader : Bytes := [0, 0, 0x84, 0, 0, 0, 0, 1, 0, 0, 0, 0]

/-- The PTR record `_adb._tcp.local → a._adb._tcp.local`, its last name with a pointer. -/
def onePtrAnswer : Bytes :=
  oneAnswerHeader ++ [4, 0x5F, 0x61, 0x64, 0x62, 4, 0x5F, 0x74, 0x63, 0x70, 5, 0x6C, 0x6F, 0x63,
    0x61, 0x6C, 0, 0, 12, 0, 1, 0, 0, 0, 120, 0, 4, 1, 0x61, 0xC0, 12]

def selfPointer : Bytes :=
  oneAnswerHeader ++ [0xC0, 12, 0, 12, 0, 1, 0, 0, 0, 120, 0, 1, 0]

theorem mdns_parsers_do_not_return : ¬ParsersReturn onePtrAnswer ∧ ¬ParsersReturn selfPointer := by
  constructor
  · intro h
    obtain ⟨fuel, hr⟩ := h.clientPtr .classic
    have hp : parseMdnsResponse 60 onePtrAnswer .classic = panicked := by
      decide +kernel
    exact (steady_parseMdnsResponse onePtrAnswer .classic).not_returned hp fuel hr
  · intro h
    obtain ⟨fuel, hr⟩ := h.serverName 12
    have hs : NameStep selfPointer 12 12 := ⟨0xC0, rfl, .inl ⟨rfl, 12, rfl, rfl⟩⟩
    exact hr.of_bind.2 (decodeLabels_loop (.single hs) fuel)

end AdbFastboot
