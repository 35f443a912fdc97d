import AdbFastboot.MdnsAnswerSafety
import AdbFastboot.MdnsServerAnswer

namespace AdbFastboot

open MdnsClient List

def AnswerRecord.named (serviceType : AdbMdnsServiceType) (record : AnswerRecord) : Option Text :=
  match record.data with
  | .ptr target =>
    let domain := domainLabels serviceType
    let inst := target.take (target.length - domain.length)
    if record.owner = domain ∧ target = inst ++ domain ∧ inst ≠ [] then some (labelsText inst)
    else none
  | _ => none

def ClientPtrExact (data : Bytes) (serviceType : AdbMdnsServiceType)
    (answer : List AnswerRecord) : Prop :=
  ∃ services, Settles (fun fuel => MdnsClient.parseMdnsResponse fuel data serviceType)
      (.ok services) ∧
    services.map MdnsService.instanceName
      = answer.filterMap (AnswerRecord.named serviceType)

def AnswerRecord.IsSrv (record : AnswerRecord) (port : UInt16) (host : List Bytes) : Prop :=
  ∃ priority weight, record.data = .srv priority weight port host

/-- A service has the port and the host of an SRV record of the answer, its addresses, and the
attributes of a TXT record, if there is one. -/
structure CarriesAnswer (answer : List AnswerRecord) (service : MdnsService) : Prop where
  srv : ∃ record ∈ answer, ∃ port host, record.IsSrv port host ∧ service.port = port ∧
    service.hostName.map trimDots = some (trimDots (labelsText host))
  addresses : service.addresses = answer.filterMap fun record => record.data.address
  txt : ∀ record ∈ answer, ∀ strings, record.data = .txt strings → ∃ own ∈ answer, ∃ strings,
    own.data = .txt strings ∧ service.txtRecords = txtAttributes strings

/-- The client returns what the answer says, or an error where it has no SRV record. -/
def ClientSrvExact (data : Bytes) (serviceType : AdbMdnsServiceType)
    (answer : List AnswerRecord) : Prop :=
  (∃ service, Settles (fun fuel => MdnsClient.parseSrvResponse fuel data serviceType)
      (.ok service) ∧ CarriesAnswer answer service) ∨
    ((∀ record ∈ answer, ∀ port host, ¬record.IsSrv port host) ∧
      ∃ text, Settles (fun fuel => MdnsClient.parseSrvResponse fuel data serviceType)
        (fail (.parse text)))

namespace MdnsClient

section

variable {data : Bytes} {answer : List AnswerRecord} (h : AnswerPacket data answer)
  (serviceType : AdbMdnsServiceType)

include h

theorem parseMdnsResponse_settles {r : MdnsResult (List Text)}
    (hlp : Settles (fun fuel => ptrLoop fuel data serviceType answer.length 12 []) r) :
    Settles (fun fuel => parseMdnsResponse fuel data serviceType)
      (r >>= fun names => .ok (names.map fun name => MdnsService.new serviceType name 0)) := by
  obtain ⟨ancount, ha, hl⟩ := h.answers
  refine Settles.ite_neg (Nat.not_lt.mpr h.length) ((settles_of_eq h.questions.reads).bind ?_)
  refine (settles_of_eq ha.reads).bind ((settles_const _).bind ?_)
  rw [hl]
  exact hlp.andThen _

theorem parseSrvResponse_settles {r : MdnsResult SrvFields}
    (hlp : Settles (fun fuel => srvLoop fuel data answer.length 12 .empty) r) :
    Settles (fun fuel => parseSrvResponse fuel data serviceType) (r >>= fun fields =>
        if fields.port = 0 then parseError "no SRV record found"
        else .ok { MdnsService.new serviceType fields.instanceName fields.port with
          hostName := if fields.hostname = [] then none else some fields.hostname
          addresses := fields.addresses
          txtRecords := fields.txtRecords }) := by
  obtain ⟨ancount, ha, hl⟩ := h.answers
  refine Settles.ite_neg (Nat.not_lt.mpr h.length) ((settles_of_eq h.questions.reads).bind ?_)
  refine (settles_of_eq ha.reads).bind ((settles_const _).bind ?_)
  rw [hl]
  exact hlp.andThen _

end

variable {data : Bytes}

theorem isPtrAt_field {start nameEnd : Nat} {rtype : UInt16} (ht : FieldAt data nameEnd rtype)
    (hnm : start ≤ nameEnd) :
    isPtrAt data start (nameEnd - start) = .ok (decide (start + 12 ≤ data.length ∧ rtype = typePtr)) := by
  obtain ⟨hl, hs⟩ := ht
  unfold isPtrAt
  rw [show start + (nameEnd - start) = nameEnd by omega]
  split
  next hr =>
    have hb : beBytes 2 rtype.toNat = [0x00, 0x0C] ↔ rtype = typePtr := by
      constructor
      · intro heq
        have hn := congrArg beNat heq
        rw [beNat_beBytes, Nat.mod_eq_of_lt (by simpa using rtype.toNat_lt)] at hn
        exact UInt16.toNat_inj.mp hn
      · rintro rfl
        rfl
    rw [sliceAt_ok (by omega) hl, hs, ok_bind, pure_eq_ok]
    congr 1
    rw [Bool.eq_iff_iff, beq_iff_eq, hb, decide_eq_true_iff]
    exact ⟨fun heq => ⟨hr, heq⟩, fun heq => heq.2⟩
  next hr => simp [show ¬start + 12 ≤ data.length from hr]

theorem u16BeAt_behind (i : Nat) : u16BeAt data (data.length + i) = panicked := by
  rw [u16BeAt, byteAt_panicked (by omega)]
  rfl

variable {record : AnswerRecord} (h : record.At data 12 data.length)
include h

/-- The client's loop over one record panics on a PTR record. -/
theorem ptrLoop_one (serviceType : AdbMdnsServiceType) :
    Settles (fun fuel => ptrLoop fuel data serviceType 1 12 [])
      (if record.data.rtype = typePtr then panicked else .ok []) := by
  obtain ⟨nameEnd, rdlength, hn, hty, hl, hst, hd, hpk⟩ := h.peeks
  have hbn := hn.bounds
  have hi := isPtrAt_field hty (show 12 ≤ nameEnd by omega)
  refine hpk.bind ((settles_of_eq hi).bind ?_)
  by_cases hp : record.data.rtype = typePtr
  · have hr : 12 + 12 ≤ data.length := by
      by_contra hs
      obtain ⟨rtype, ho⟩ := hd.other (by omega)
      rw [ho] at hp hd
      exact hd.1 hp
    rw [if_pos hp, decide_eq_true ⟨hr, hp⟩]
    have hb : u16BeAt data (12 + (data.length - 12)) = panicked := by
      rw [show 12 + (data.length - 12) = data.length + 0 by omega]
      exact u16BeAt_behind 0
    have ht : Settles (fun fuel => takePtr fuel data serviceType (12 + (data.length - 12)) [])
        panicked := (settles_of_eq hb).panics _
    exact Settles.ite_pos rfl (ht.panics _)
  · rw [if_neg hp, decide_eq_false fun hbt => hp hbt.2]
    exact settles_const _

/-- The client's loop over one record panics from 24 bytes on. -/
theorem srvLoop_one : Settles (fun fuel => srvLoop fuel data 1 12 .empty)
      (if data.length < 24 then .ok .empty else panicked) := by
  obtain ⟨nameEnd, rdlength, hn, ht, hl, hst, hd, hp⟩ := h.peeks
  have hbn := hn.bounds
  refine hp.bind ?_
  by_cases hs : data.length < 24
  · rw [if_pos hs]
    exact Settles.ite_pos (by omega) (settles_const _)
  rw [if_neg hs]
  refine Settles.ite_neg (by omega) ?_
  have hr : u16BeAt data (12 + (nameEnd - 12)) = .ok record.data.rtype := by
    rw [show 12 + (nameEnd - 12) = nameEnd by omega]
    exact ht.reads
  have hb : u16BeAt data (12 + (data.length - 12) + 8) = panicked := by
    rw [show 12 + (data.length - 12) + 8 = data.length + 8 by omega]
    exact u16BeAt_behind 8
  exact (settles_of_eq hr).bind ((settles_of_eq hb).panics _)

end MdnsClient

variable {data : Bytes} {start : Nat} {record : AnswerRecord}

/-- A record takes at least eleven bytes. -/
theorem RecordsAt.size {records : List AnswerRecord} (h : RecordsAt data start records) :
    start + 11 * records.length ≤ data.length := by
  induction h with
  | nil => simp
  | cons stop hr hrs ih =>
    obtain ⟨⟨nameEnd, rdlength, hn, -, -, hs, -⟩, -⟩ := hr
    have hb := hn.bounds
    rw [length_cons]
    omega

theorem RecordsAt.one (h : RecordsAt data start [record]) : record.At data start data.length := by
  cases h with
  | cons stop hr hrs =>
    cases hrs
    exact hr

theorem AnswerRecord.At.isPtr_iff {stop : Nat} (h : record.At data start stop) :
    record.data.rtype = typePtr ↔ ∃ target, record.data = .ptr target := by
  obtain ⟨⟨nameEnd, rdlength, -, -, -, -, hd⟩, -⟩ := h
  constructor
  · intro ht
    cases hr : record.data with
    | ptr target => exact ⟨target, rfl⟩
    | srv priority weight port host =>
      rw [hr] at ht
      exact absurd ht (show typeSrv ≠ typePtr by decide)
    | a addr =>
      rw [hr] at ht
      exact absurd ht (show typeA ≠ typePtr by decide)
    | aaaa addr =>
      rw [hr] at ht
      exact absurd ht (show typeAaaa ≠ typePtr by decide)
    | txt strings =>
      rw [hr] at ht
      exact absurd ht (show typeTxt ≠ typePtr by decide)
    | other rtype =>
      rw [hr] at ht hd
      exact absurd ht hd.1
  · rintro ⟨target, htr⟩
    rw [htr]
    rfl

theorem AnswerRecord.At.other (h : record.At data 12 data.length) (hs : data.length < 24) :
    ∃ rtype, record.data = .other rtype := by
  obtain ⟨⟨nameEnd, rdlength, hn, -, -, hst, hd⟩, -⟩ := h
  have hb := hn.bounds
  exact hd.other (by omega)

section

variable {data : Bytes} {answer : List AnswerRecord} (h : AnswerPacket data answer)
  (serviceType : AdbMdnsServiceType)

include h

/-- The client reads a PTR answer right only where there is nothing to read. -/
theorem clientPtrExact_iff (ho : answer.length ≤ 1) : ClientPtrExact data serviceType answer ↔
      ∀ record ∈ answer, ∀ target, record.data ≠ .ptr target := by
  match answer, h, ho with
  | [], h, _ =>
    refine ⟨fun _ record hr => absurd hr not_mem_nil, fun _ => ⟨[], ?_, rfl⟩⟩
    exact parseMdnsResponse_settles h serviceType (settles_const (.ok []))
  | [record], h, _ =>
    have hr := h.records.one
    have hs := parseMdnsResponse_settles h serviceType (ptrLoop_one hr serviceType)
    by_cases hp : ∃ target, record.data = .ptr target
    · rw [if_pos (hr.isPtr_iff.mpr hp)] at hs
      constructor
      · rintro ⟨services, hsr, -⟩
        exact absurd (hsr.unique hs) (by simp [panicked, bind, Except.bind])
      · intro hno
        obtain ⟨target, ht⟩ := hp
        exact absurd ht (hno record (mem_singleton.mpr rfl) target)
    · rw [if_neg fun hty => hp (hr.isPtr_iff.mp hty)] at hs
      refine ⟨fun _ other hot target ht => ?_, fun _ => ⟨[], hs, ?_⟩⟩
      · rw [mem_singleton.mp hot] at ht
        exact hp ⟨target, ht⟩
      · have hn : record.named serviceType = none := by
          unfold AnswerRecord.named
          split
          next target ht => exact absurd ⟨target, ht⟩ hp
          next => rfl
        rw [filterMap_cons_none hn]
        rfl

/-- The client reads an SRV answer right only where it is too short to be one. -/
theorem clientSrvExact_iff (ho : answer.length ≤ 1) :
    ClientSrvExact data serviceType answer ↔ data.length < 24 := by
  match answer, h, ho with
  | [], h, _ =>
    have hl : data.length = 12 := by
      have hrd := h.records
      generalize 12 = start at hrd
      cases hrd
      rfl
    refine ⟨fun _ => by omega, fun _ => .inr ⟨forall_mem_nil _, "no SRV record found".toList, ?_⟩⟩
    exact parseSrvResponse_settles h serviceType (settles_const (.ok MdnsClient.SrvFields.empty))
  | [record], h, _ =>
    have hr := h.records.one
    have hst := parseSrvResponse_settles h serviceType (srvLoop_one hr)
    by_cases hs : data.length < 24
    · rw [if_pos hs] at hst
      refine ⟨fun _ => hs, fun _ => .inr ⟨?_, "no SRV record found".toList, hst⟩⟩
      obtain ⟨rtype, hot⟩ := hr.other hs
      rintro other hm port host ⟨priority, weight, hsrv⟩
      rw [mem_singleton.mp hm, hot] at hsrv
      cases hsrv
    · rw [if_neg hs] at hst
      refine ⟨?_, fun h => absurd h hs⟩
      rintro (⟨service, hsv, -⟩ | ⟨-, text, ht⟩)
      · exact absurd (hsv.unique hst) (by simp [panicked, bind, Except.bind])
      · exact absurd (ht.unique hst) (by simp [panicked, fail, bind, Except.bind])

end

/-- What becomes of the records of an answer. The server keeps what is said of the instances exactly
when it is next to nothing. The client, on at most one record, finds the instances exactly when there
are no PTR records, and the fields of an SRV record exactly when there are no data at all. -/
theorem mdns_answer_exact_iff {data : List UInt8} {answer : List AnswerRecord}
    (h : AnswerPacket data answer) (order : IterationOrder (Sigma fun _ : Text => UInt16 × Text))
    (serviceType : AdbMdnsServiceType) :
    (ServerExact data order serviceType answer ↔
        ∀ record ∈ answer, ∀ inst, record.Names serviceType inst →
          InstanceKept serviceType answer inst) ∧
      (answer.length ≤ 1 → (ClientPtrExact data serviceType answer ↔
          ∀ record ∈ answer, ∀ target, record.data ≠ .ptr target) ∧
        (ClientSrvExact data serviceType answer ↔ data.length < 24)) ∧
      (data.length < 24 → ServerExact data order serviceType answer ∧
        ClientPtrExact data serviceType answer ∧ ClientSrvExact data serviceType answer) := by
  have hsr := serverExact_iff h order serviceType
  refine ⟨hsr, fun ho => ⟨clientPtrExact_iff h serviceType ho,
    clientSrvExact_iff h serviceType ho⟩, fun hs => ?_⟩
  have hsz := h.records.size
  have ho : answer.length ≤ 1 := by omega
  have hp : ∀ record ∈ answer, ∀ target, record.data ≠ .ptr target := by
    match answer, h, ho with
    | [], _, _ => exact List.forall_mem_nil _
    | [record], h, _ =>
      obtain ⟨rtype, hot⟩ := h.records.one.other hs
      intro other hm target ht
      rw [List.mem_singleton.mp hm, hot] at ht
      cases ht
  refine ⟨hsr.mpr fun record hr inst hn => ?_, ?_, ?_⟩
  · exact absurd hn.2.1 (hp record hr _)
  · exact (clientPtrExact_iff h serviceType ho).mpr hp
  · exact (clientSrvExact_iff h serviceType ho).mpr hs

def ptrRecord : AnswerRecord := ⟨domainLabels .classic, .ptr ([[0x61]] ++ domainLabels .classic)⟩

def srvRecord : AnswerRecord :=
  ⟨[[0x61]] ++ domainLabels .classic, .srv 0 0 5555 [[0x68], utf8Bytes "local"]⟩

def ptrSrvAnswer : Bytes :=
  [0, 0, 0x84, 0, 0, 0, 0, 2, 0, 0, 0, 0, 4, 0x5F, 0x61, 0x64, 0x62, 4, 0x5F, 0x74, 0x63, 0x70, 5,
    0x6C, 0x6F, 0x63, 0x61, 0x6C, 0, 0, 12, 0, 1, 0, 0, 0, 120, 0, 4, 1, 0x61, 0xC0, 12, 0xC0, 39,
    0, 33, 0, 1, 0, 0, 0, 120, 0, 10, 0, 0, 0, 0, 0x15, 0xB3, 1, 0x68, 0xC0, 22]

theorem onePtrAnswer_packet : AnswerPacket onePtrAnswer [ptrRecord] := by
  have hd : NameAt onePtrAnswer 12 29 (domainLabels .classic) :=
    .label 4 rfl (by decide) (by decide) (by decide) (.label 4 rfl (by decide)
      (by decide) (by decide) (.label 5 rfl (by decide) (by decide) (by decide) (.root rfl)))
  refine ⟨⟨by decide, by decide⟩, ⟨1, ⟨by decide, by decide⟩, rfl⟩, .cons 43 ⟨⟨29, 4,
    hd, ⟨by decide, by decide⟩, ⟨by decide, by decide⟩, rfl, ?_⟩, by decide⟩ .nil⟩
  exact .label 1 rfl (by decide) (by decide) (by decide)
    (.pointer 0xC0 12 rfl (by decide) rfl (by decide) hd)

theorem ptrSrvAnswer_packet : AnswerPacket ptrSrvAnswer [ptrRecord, srvRecord] := by
  have hl : NameAt ptrSrvAnswer 22 29 [utf8Bytes "local"] :=
    .label 5 rfl (by decide) (by decide) (by decide) (.root rfl)
  have hd : NameAt ptrSrvAnswer 12 29 (domainLabels .classic) :=
    .label 4 rfl (by decide) (by decide) (by decide) (.label 4 rfl (by decide)
      (by decide) (by decide) hl)
  have hi : NameAt ptrSrvAnswer 39 43 ([[0x61]] ++ domainLabels .classic) :=
    .label 1 rfl (by decide) (by decide) (by decide)
      (.pointer 0xC0 12 rfl (by decide) rfl (by decide) hd)
  have ho : NameAt ptrSrvAnswer 43 45 ([[0x61]] ++ domainLabels .classic) :=
    .pointer 0xC0 39 rfl (by decide) rfl (by decide) hi
  have hh : NameAt ptrSrvAnswer 61 65 [[0x68], utf8Bytes "local"] :=
    .label 1 rfl (by decide) (by decide) (by decide)
      (.pointer 0xC0 22 rfl (by decide) rfl (by decide) hl)
  refine ⟨⟨by decide, by decide⟩, ⟨2, ⟨by decide, by decide⟩, rfl⟩, .cons 43 ⟨⟨29, 4,
    hd, ⟨by decide, by decide⟩, ⟨by decide, by decide⟩, rfl, hi⟩, by decide⟩
    (.cons 65 ⟨⟨45, 10, ho, ⟨by decide, by decide⟩, ⟨by decide, by decide⟩, rfl, ?_⟩,
      by decide⟩ .nil)⟩
  exact ⟨⟨by decide, by decide⟩, ⟨by decide, by decide⟩, ⟨by decide, by decide⟩, hh⟩

theorem mdns_answer_exact_iff_one_ptr :
    AnswerPacket onePtrAnswer [ptrRecord] ∧ ¬ClientPtrExact onePtrAnswer .classic [ptrRecord] := by
  refine ⟨onePtrAnswer_packet, fun h => ?_⟩
  have hi := ((mdns_answer_exact_iff onePtrAnswer_packet (.stored _) .classic).2.1
    (Nat.le_refl 1)).1
  exact hi.mp h ptrRecord (List.mem_singleton.mpr rfl) _ rfl

theorem mdns_answer_not_exact : AnswerPacket ptrSrvAnswer [ptrRecord, srvRecord] ∧
      ¬ServerExact ptrSrvAnswer (.stored _) .classic [ptrRecord, srvRecord] ∧
      ¬ClientPtrExact ptrSrvAnswer .classic [ptrRecord, srvRecord] ∧
      ¬ClientSrvExact ptrSrvAnswer .classic [ptrRecord, srvRecord] := by
  refine ⟨ptrSrvAnswer_packet, fun h => ?_, ?_, ?_⟩
  · have hk := (serverExact_iff ptrSrvAnswer_packet (.stored _) .classic).mp h ptrRecord
      (.head _) [[0x61]] ⟨rfl, rfl, by decide⟩
    exact hk.srv srvRecord (.tail _ (.head _)) 0 0 5555 _ rfl rfl
  · rintro ⟨services, hsr, -⟩
    have hr : parseMdnsResponse 66 ptrSrvAnswer .classic
        = parseError "record extends past end of packet" := by decide +kernel
    have hs := (steady_parseMdnsResponse ptrSrvAnswer .classic).settles hr
      (by simp [parseError, fail])
    exact absurd (hsr.unique hs) (by simp [parseError, fail])
  · have hr : parseSrvResponse 66 ptrSrvAnswer .classic
        = parseError "offset past end" := by decide +kernel
    have hs := (steady_parseSrvResponse ptrSrvAnswer .classic).settles hr
      (by simp [parseError, fail])
    rintro (⟨service, hsv, -⟩ | ⟨hn, -⟩)
    · exact absurd (hsv.unique hs) (by simp [parseError, fail])
    · exact hn srvRecord (.tail _ (.head _)) 5555 _ ⟨0, 0, rfl⟩

end AdbFastboot
