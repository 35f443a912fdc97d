import AdbFastboot.DnsWire

namespace AdbFastboot

open Settles List MdnsServer

def txtAttributes (strings : List Bytes) : TxtAttributes :=
  strings.foldl (fun attributes s => if s = [] then attributes else insertTxt attributes s) ∅

theorem parseTxtAfter_skip (s rest : Bytes) (attributes : TxtAttributes) :
    parseTxtAfter s.length (s ++ rest) attributes = parseTxtAfter 0 rest attributes := by
  induction s with
  | nil => rfl
  | cons b s ih => exact ih

variable {strings : List Bytes}

theorem parseTxtAfter_strings (h : ∀ s ∈ strings, s.length < 256) (attributes : TxtAttributes) :
    parseTxtAfter 0 (txtBytes strings) attributes = .ok (strings.foldl
      (fun attributes s => if s = [] then attributes else insertTxt attributes s) attributes) := by
  induction strings generalizing attributes with
  | nil => rfl
  | cons s strings ih =>
    obtain ⟨hs, hst⟩ := forall_mem_cons.mp h
    have hl := byte_toNat hs
    have hb : txtBytes (s :: strings) = UInt8.ofNat s.length :: (s ++ txtBytes strings) := rfl
    rw [hb, parseTxtAfter, hl, foldl_cons]
    by_cases hn : s = []
    · subst hn
      exact ih hst attributes
    · rw [if_neg (fun h => hn (length_eq_zero_iff.mp h)), if_neg (by simp),
        take_left, parseTxtAfter_skip, if_neg hn]
      exact ih hst _

/-- The strings of a TXT record become its attributes. -/
theorem parseTxtRecord_strings (h : ∀ s ∈ strings, s.length < 256) :
    parseTxtRecord (txtBytes strings) = .ok (txtAttributes strings) :=
  parseTxtAfter_strings h ∅

theorem addressOf_a (addr : Ipv4Addr) : addressOf typeA (beBytes 4 addr.toNat) = some (.v4 addr) := by
  have ha : BitVec.ofNat 32 (beNat (beBytes 4 addr.toNat)) = addr := by
    rw [beNat_beBytes, Nat.mod_eq_of_lt (by simpa using addr.isLt), BitVec.ofNat_toNat, BitVec.setWidth_eq]
  rw [addressOf, if_pos ⟨rfl, beBytes_length 4 _⟩, ha]

theorem addressOf_aaaa (addr : Ipv6Addr) :
    addressOf typeAaaa (beBytes 16 addr.toNat) = some (.v6 addr) := by
  have ha : BitVec.ofNat 128 (beNat (beBytes 16 addr.toNat)) = addr := by
    rw [beNat_beBytes, Nat.mod_eq_of_lt (by simpa using addr.isLt), BitVec.ofNat_toNat, BitVec.setWidth_eq]
  rw [addressOf, if_neg (fun h => absurd h.1 (by decide)), if_pos ⟨rfl, beBytes_length 16 _⟩, ha]

theorem RecordData.At.other {data : Bytes} {start stop : Nat} {rdata : RecordData}
    (h : rdata.At data start stop) (hs : stop = start) : ∃ rtype, rdata = .other rtype := by
  subst hs
  cases rdata with
  | ptr target =>
    have hbn := NameAt.bounds h
    omega
  | srv priority weight port host =>
    have hbn := h.2.2.2.bounds
    omega
  | a addr | aaaa addr => exact absurd h.1 (by omega)
  | txt strings =>
    obtain ⟨hne, -, hb⟩ := h
    rw [slice, Nat.sub_self, take_zero] at hb
    cases strings with
    | nil => exact absurd rfl hne
    | cons s strings => cases hb
  | other rtype => exact ⟨rtype, rfl⟩

namespace MdnsServer

def Records.addAddress (records : Records) (name : Text) (addr : IpAddr) : Records :=
  { records with
    addresses := records.addresses.insert name ((records.addresses.lookup name).getD [] ++ [addr]) }

def Records.add (serviceType : AdbMdnsServiceType) (records : Records) (record : AnswerRecord) :
    Records :=
  match record.data with
  | .ptr target =>
    if instanceOf serviceType (labelsText target) = [] then records
    else { records with
      instanceNames := records.instanceNames ++ [instanceOf serviceType (labelsText target)] }
  | .srv _ _ port host => { records with
      srvs := records.srvs.insert (trimDots (labelsText record.owner))
        (port, trimDots (labelsText host)) }
  | .a addr => records.addAddress (trimDots (labelsText record.owner)) (.v4 addr)
  | .aaaa addr => records.addAddress (trimDots (labelsText record.owner)) (.v6 addr)
  | .txt strings => { records with
      txts := records.txts.insert (trimDots (labelsText record.owner)) (txtAttributes strings) }
  | .other _ => records

variable {data : Bytes} {records : Records}

theorem decodeDnsName_settles {offset stop : Nat} {labels : List Bytes}
    (h : NameAt data offset stop labels) :
    Settles (fun fuel => decodeDnsName fuel data offset) (.ok (labelsText labels)) :=
  (settles_of_runTurns (h.runTurns_decode [])).bind (settles_const _)

variable (serviceType : AdbMdnsServiceType)

/-- A record of the answer is added to those taken. -/
theorem takeRecord_settles {start nameEnd stop rdlen : Nat} {record : AnswerRecord}
    (hn : NameAt data start nameEnd record.owner)
    (hd : record.data.At data (nameEnd + 10) stop) (hsp : stop = nameEnd + 10 + rdlen)
    (hf : stop ≤ data.length) (records : Records) :
    Settles (fun fuel => takeRecord fuel data serviceType (labelsText record.owner)
      record.data.rtype start (nameEnd + 10) rdlen records)
      (.ok (records.add serviceType record)) := by
  obtain ⟨owner, rdata⟩ := record
  have ho := decodeDnsName_settles hn
  have hs : (sliceAt data (nameEnd + 10) (nameEnd + 10 + rdlen) : MdnsResult Bytes)
      = .ok (slice data (nameEnd + 10) stop) := by
    rw [hsp]
    exact sliceAt_ok (by omega) (by omega)
  cases rdata with
  | ptr target =>
    refine ite_pos rfl ((decodeDnsName_settles hd).bind ?_)
    exact settles_const _
  | srv priority weight port host =>
    obtain ⟨hpr, hw, hpt, hh⟩ := hd
    have hbn := hh.bounds
    refine ite_neg (show typeSrv ≠ typePtr by decide) (ite_pos rfl
      (ite_pos (by omega) ((settles_of_eq hpr.reads).bind ?_)))
    refine (settles_of_eq hw.reads).bind ((settles_of_eq hpt.reads).bind ?_)
    exact (decodeDnsName_settles hh).bind (ho.bind (settles_const _))
  | a addr =>
    obtain ⟨hl, hb⟩ := hd
    refine ite_neg (show typeA ≠ typePtr by decide) (ite_neg
      (show typeA ≠ typeSrv by decide) (ite_pos (.inl rfl) ((settles_of_eq hs).bind ?_)))
    have had := addressOf_a addr
    rw [← hb] at had
    simp only [RecordData.rtype, had]
    exact settles_const _
  | aaaa addr =>
    obtain ⟨hl, hb⟩ := hd
    refine ite_neg (show typeAaaa ≠ typePtr by decide) (ite_neg (show typeAaaa ≠ typeSrv by decide)
      (ite_pos (.inr rfl) ((settles_of_eq hs).bind ?_)))
    have had := addressOf_aaaa addr
    rw [← hb] at had
    simp only [RecordData.rtype, had]
    exact settles_const _
  | txt strings =>
    obtain ⟨-, hst, hb⟩ := hd
    have hp := parseTxtRecord_strings hst
    rw [← hb] at hp
    refine ite_neg (show typeTxt ≠ typePtr by decide) (ite_neg
      (show typeTxt ≠ typeSrv by decide) (ite_neg
      (show ¬(typeTxt = typeA ∨ typeTxt = typeAaaa) by decide)
      (ite_pos rfl ((settles_of_eq hs).bind ?_))))
    simp only [hp]
    exact ho.bind (settles_const _)
  | other rtype =>
    obtain ⟨hptr, hsrv, ha, haa, ht⟩ := hd
    refine ite_neg hptr (ite_neg hsrv (ite_neg ?_ (ite_neg ht ?_)))
    · exact fun h => h.elim ha haa
    · exact settles_const _

/-- The loop adds the records one by one. -/
theorem recordLoop_settles {offset : Nat} {answer : List AnswerRecord}
    (h : RecordsAt data offset answer) (records : Records) :
    Settles (fun fuel => recordLoop fuel data serviceType answer.length offset records)
      (.ok (answer.foldl (Records.add serviceType) records)) := by
  induction h generalizing records with
  | nil => exact settles_const _
  | @cons start stop record answer hr hrs ih =>
    obtain ⟨⟨nameEnd, rdlength, hn, ht, hl, hs, hd⟩, hf⟩ := hr
    have hb := hn.bounds
    rw [length_cons]
    refine ite_neg (by omega) ?_
    have hbt : Settles (fun fuel => skipAndDecodeDnsName fuel data start)
        (.ok (labelsText record.owner, nameEnd)) :=
      (decodeDnsName_settles hn).bind (hn.skips.bind (settles_const _))
    refine hbt.bind ?_
    by_cases hsh : start + 12 > data.length
    · refine ite_pos hsh ?_
      have hnil : answer = [] := by
        cases hrs with
        | nil => rfl
        | cons _ hnx _ =>
          obtain ⟨⟨_, _, hn', _, _, hs', _⟩, hf'⟩ := hnx
          have hb' := hn'.bounds
          omega
      have ha : records.add serviceType record = records := by
        obtain ⟨rtype, ho⟩ := hd.other (by omega)
        rw [Records.add, ho]
      subst hnil
      rw [foldl_cons, ha]
      exact settles_const _
    · refine ite_neg hsh (hn.skips.bind (ite_neg (by omega) ?_))
      refine (settles_of_eq ht.reads).bind ?_
      refine (settles_of_eq (u16BeAt_ok (by omega))).bind ?_
      refine (settles_of_eq (u32BeAt_ok (by omega))).bind ?_
      refine (settles_of_eq hl.reads).bind (ite_neg (by omega) ?_)
      refine (takeRecord_settles serviceType hn hd hs hf records).bind ?_
      refine hn.skips.bind ?_
      rw [← Nat.add_assoc, ← hs]
      exact ih _

def ptrInstance (serviceType : AdbMdnsServiceType) (record : AnswerRecord) : Option Text :=
  match record.data with
  | .ptr target =>
    if instanceOf serviceType (labelsText target) = [] then none
    else some (instanceOf serviceType (labelsText target))
  | _ => none

theorem Records.add_instanceNames (records : Records)
    (record : AnswerRecord) : (records.add serviceType record).instanceNames
      = records.instanceNames ++ (ptrInstance serviceType record).toList := by
  obtain ⟨owner, rdata⟩ := record
  cases rdata with
  | ptr target =>
    simp only [Records.add, ptrInstance]
    split
    next => simp
    next => rfl
  | _ => simp [Records.add, Records.addAddress, ptrInstance]

variable (answer : List AnswerRecord)

theorem foldl_instanceNames
    (records : Records) : (answer.foldl (Records.add serviceType) records).instanceNames
      = records.instanceNames ++ answer.filterMap (ptrInstance serviceType) := by
  induction answer generalizing records with
  | nil => simp
  | cons record answer ih =>
    rw [foldl_cons, ih, Records.add_instanceNames, append_assoc]
    cases hn : ptrInstance serviceType record with
    | none | some name => simp [hn]

def Records.Trimmed (records : Records) : Prop :=
  ∀ name : Text, name.getLast? = some '.' →
    records.srvs.lookup name = none ∧ records.txts.lookup name = none

theorem trimDots_getLast? (text : Text) : (trimDots text).getLast? ≠ some '.' := by
  intro h
  have hne : trimDots text ≠ [] := by
    intro hnil
    rw [hnil] at h
    cases h
  have hl : (trimDots text).getLast hne = '.' := by
    rw [getLast?_eq_some_getLast hne] at h
    exact Option.some.inj h
  have hn := rdropWhile_last_not (· == '.') text hne
  rw [show (text.rdropWhile (· == '.')).getLast hne = '.' from hl] at hn
  exact hn rfl

theorem Records.add_trimmed (h : records.Trimmed)
    (record : AnswerRecord) : (records.add serviceType record).Trimmed := by
  intro name hn
  obtain ⟨hs, ht⟩ := h name hn
  have ho : ∀ text, name ≠ trimDots text := by
    rintro text rfl
    exact trimDots_getLast? text hn
  obtain ⟨owner, rdata⟩ := record
  cases rdata with
  | ptr target =>
    simp only [Records.add]
    split
    next => exact ⟨hs, ht⟩
    next => exact ⟨hs, ht⟩
  | srv priority weight port host =>
    refine ⟨?_, ht⟩
    change (records.srvs.insert _ _).lookup name = none
    rw [AList.lookup_insert_ne (ho _)]
    exact hs
  | txt strings =>
    refine ⟨hs, ?_⟩
    change (records.txts.insert _ _).lookup name = none
    rw [AList.lookup_insert_ne (ho _)]
    exact ht
  | _ => exact ⟨hs, ht⟩

/-- No name that was taken ends with a dot. -/
theorem foldl_trimmed
    (h : records.Trimmed) : (answer.foldl (Records.add serviceType) records).Trimmed := by
  induction answer generalizing records with
  | nil => exact h
  | cons record answer ih => exact ih (Records.add_trimmed serviceType h record)

def txtUnder (name : Text) (found : Option TxtAttributes) (record : AnswerRecord) :
    Option TxtAttributes :=
  match record.data with
  | .txt strings =>
    if trimDots (labelsText record.owner) = name then some (txtAttributes strings) else found
  | _ => found

variable (name : Text)

theorem foldl_txts (answer : List AnswerRecord)
    (records : Records) : (answer.foldl (Records.add serviceType) records).txts.lookup name
      = answer.foldl (txtUnder name) (records.txts.lookup name) := by
  induction answer generalizing records with
  | nil => rfl
  | cons record answer ih =>
    rw [foldl_cons, ih, foldl_cons]
    congr 1
    obtain ⟨owner, rdata⟩ := record
    cases rdata with
    | ptr target =>
      simp only [Records.add, txtUnder]
      split
      next => rfl
      next => rfl
    | txt strings =>
      change (records.txts.insert (trimDots (labelsText owner)) (txtAttributes strings)).lookup name
        = if trimDots (labelsText owner) = name then _ else _
      by_cases hn : trimDots (labelsText owner) = name
      · rw [if_pos hn, ← hn, AList.lookup_insert]
      · rw [if_neg hn, AList.lookup_insert_ne (Ne.symm hn)]
    | _ => rfl

def serviceTxt (serviceType : AdbMdnsServiceType) (answer : List AnswerRecord) : TxtAttributes :=
  (answer.foldl (txtUnder (trimDots serviceType.fullDomain)) none).getD ∅

theorem fullDomain_getLast? : (dotted name serviceType.fullDomain).getLast? = some '.' := by
  have hl : serviceType.fullDomain.getLast? = some '.' := by cases serviceType <;> rfl
  rw [dotted, getLast?_append, getLast?_cons, hl]
  rfl

/-- The service of a PTR record has no port and no address. -/
theorem ptrService_eq : ptrService serviceType (answer.foldl (Records.add serviceType) .empty) name
      = ⟨serviceType, name, none, [], 0, serviceTxt serviceType answer⟩ := by
  have hm : Records.empty.Trimmed := fun _ _ => ⟨AList.lookup_empty _, AList.lookup_empty _⟩
  obtain ⟨hsrv, ht⟩ := foldl_trimmed serviceType answer hm _ (fullDomain_getLast? serviceType name)
  have hs := foldl_txts serviceType (trimDots serviceType.fullDomain) answer .empty
  rw [show Records.empty.txts.lookup (trimDots serviceType.fullDomain) = none from
    AList.lookup_empty _] at hs
  unfold ptrService serviceTxt
  simp only [hsrv, ht, hs]
  cases answer.foldl (txtUnder (trimDots serviceType.fullDomain)) none with
  | none | some txt => rfl

theorem srvService_name {serviceType : AdbMdnsServiceType} {fqdn hostname : Text} {port : UInt16}
    {service : MdnsService} (h : srvService serviceType records fqdn port hostname = some service) :
    service.instanceName = instanceOf serviceType fqdn ∧ service.instanceName ≠ [] := by
  unfold srvService at h
  dsimp only at h
  split at h
  next => cases h
  next hne =>
    cases h
    exact ⟨rfl, hne⟩

end MdnsServer

def domainLabels : AdbMdnsServiceType → List Bytes
  | .classic => ["_adb", "_tcp", "local"].map utf8Bytes
  | .tlsConnect => ["_adb-tls-connect", "_tcp", "local"].map utf8Bytes
  | .tlsPairing => ["_adb-tls-pairing", "_tcp", "local"].map utf8Bytes

def AnswerRecord.Names (serviceType : AdbMdnsServiceType) (record : AnswerRecord)
    (inst : List Bytes) : Prop :=
  record.owner = domainLabels serviceType ∧ record.data = .ptr (inst ++ domainLabels serviceType) ∧
    inst ≠ []

def RecordData.address : RecordData → Option IpAddr
  | .a addr => some (.v4 addr)
  | .aaaa addr => some (.v6 addr)
  | _ => none

def addressesUnder (answer : List AnswerRecord) (host : List Bytes) : List IpAddr :=
  answer.filterMap fun record => if record.owner = host then record.data.address else none

/-- A service has the port, the host and the addresses of an SRV record of its instance, if there is
one, and the attributes of a TXT record of its instance, if there is one. -/
structure CarriesOwn (answer : List AnswerRecord) (name : List Bytes)
    (service : MdnsService) : Prop where
  srv : ∀ record ∈ answer, ∀ priority weight port host, record.owner = name →
    record.data = .srv priority weight port host →
      ∃ own ∈ answer, ∃ priority weight port host, own.owner = name ∧
        own.data = .srv priority weight port host ∧ service.port = port ∧
          service.hostName.map trimDots = some (trimDots (labelsText host)) ∧
            service.addresses = addressesUnder answer host
  txt : ∀ record ∈ answer, ∀ strings, record.owner = name → record.data = .txt strings →
    ∃ own ∈ answer, ∃ strings, own.owner = name ∧ own.data = .txt strings ∧
      service.txtRecords = txtAttributes strings

/-- The server returns for every instance that a PTR record names a service with what the answer says
of that instance. -/
def ServerExact (data : Bytes) (order : IterationOrder (Sigma fun _ : Text => UInt16 × Text))
    (serviceType : AdbMdnsServiceType) (answer : List AnswerRecord) : Prop :=
  ∃ services, Settles (fun fuel => MdnsServer.parseMdnsResponse fuel order data serviceType)
      (.ok services) ∧
    ∀ record ∈ answer, ∀ inst, record.Names serviceType inst →
      ∃ service ∈ services, service.instanceName = labelsText inst ∧
        CarriesOwn answer (inst ++ domainLabels serviceType) service

/-- What an answer may say of an instance without the server losing it: its name does not end with a
dot, it has no SRV record, and TXT records only with the attributes of the service itself. -/
structure InstanceKept (serviceType : AdbMdnsServiceType) (answer : List AnswerRecord)
    (inst : List Bytes) : Prop where
  name : labelsText inst ≠ [] ∧ (labelsText inst).getLast? ≠ some '.'
  srv : ∀ record ∈ answer, ∀ priority weight port host,
    record.owner = inst ++ domainLabels serviceType → record.data ≠ .srv priority weight port host
  txt : ∀ record ∈ answer, ∀ strings, record.owner = inst ++ domainLabels serviceType →
    record.data = .txt strings → ∃ own ∈ answer, ∃ strings,
      own.owner = inst ++ domainLabels serviceType ∧ own.data = .txt strings ∧
        MdnsServer.serviceTxt serviceType answer = txtAttributes strings

variable (serviceType : AdbMdnsServiceType)

theorem labelsText_domain :
    labelsText (domainLabels serviceType) = trimDots serviceType.fullDomain := by
  cases serviceType <;> decide +kernel

theorem intercalate_append {α : Type} (sep : List α) {front back : List (List α)} (hf : front ≠ [])
    (hb : back ≠ []) :
    sep.intercalate (front ++ back) = sep.intercalate front ++ sep ++ sep.intercalate back := by
  induction front with
  | nil => exact absurd rfl hf
  | cons x front ih =>
    cases front with
    | nil =>
      rw [singleton_append, intercalate_cons_of_ne_nil hb, intercalate_singleton]
    | cons y front =>
      have hne : y :: front ≠ [] := cons_ne_nil _ _
      rw [cons_append, intercalate_cons_of_ne_nil (by simp), ih hne, intercalate_cons_of_ne_nil hne]
      simp

theorem labelsText_instance {inst : List Bytes}
    (h : inst ≠ []) : labelsText (inst ++ domainLabels serviceType)
      = labelsText inst ++ '.' :: trimDots serviceType.fullDomain := by
  have hd : domainLabels serviceType ≠ [] := by cases serviceType <;> exact cons_ne_nil _ _
  rw [← labelsText_domain, labelsText, map_append,
    intercalate_append _ (by simpa using h) (by simpa using hd), append_assoc]
  rfl

theorem trimDots_eq_self {text : Text} (h : text.getLast? ≠ some '.') : trimDots text = text := by
  refine rdropWhile_eq_self_iff.mpr fun hne hd => h ?_
  rw [getLast?_eq_some_getLast hne, beq_iff_eq.mp hd]

theorem domain_getLast? : (trimDots serviceType.fullDomain).getLast? = some 'l' := by
  cases serviceType <;> decide +kernel

/-- The instance is what stands before the domain. -/
theorem instanceOf_full (text : Text) :
    instanceOf serviceType (text ++ '.' :: trimDots serviceType.fullDomain) = trimDots text := by
  have hl := domain_getLast? serviceType
  have hs : trimDots (text ++ '.' :: trimDots serviceType.fullDomain)
      = text ++ '.' :: trimDots serviceType.fullDomain := by
    refine trimDots_eq_self ?_
    rw [getLast?_append, getLast?_cons, hl]
    exact fun h => absurd (Option.some.inj h) (by decide)
  have hh : (trimDots serviceType.fullDomain).reverse.head? = some 'l' := by
    rw [head?_reverse]
    exact hl
  unfold instanceOf
  rw [hs]
  generalize trimDots serviceType.fullDomain = domain at hh ⊢
  have hrv : (text ++ '.' :: domain).reverse = domain.reverse ++ '.' :: text.reverse := by simp
  have hln : (text ++ '.' :: domain).length = text.length + domain.length + 1 := by
    simp only [length_append, length_cons]
    omega
  obtain ⟨rest, hd⟩ : ∃ rest, domain.reverse = 'l' :: rest := by
    cases hr : domain.reverse with
    | nil =>
      rw [hr] at hh
      cases hh
    | cons c rest =>
      rw [hr] at hh
      cases hh
      exact ⟨rest, rfl⟩
  have ht : trimEndMatches domain (text ++ '.' :: domain) = text ++ ['.'] := by
    have ho : domain.reverse.isPrefixOf (domain.reverse ++ '.' :: text.reverse) = true := by simp
    have hst : domain.reverse.isPrefixOf ('.' :: text.reverse) = false := by
      rw [hd]
      simp [isPrefixOf]
    rw [trimEndMatches, hrv, hln, trimStartMatches, if_pos ho, drop_left]
    cases text.length + domain.length with
    | zero => simp [trimStartMatches]
    | succ n => simp [trimStartMatches, hst]
  rw [ht]
  exact rdropWhile_concat_pos _ _ _ rfl

namespace MdnsServer

variable {answer : List AnswerRecord} {serviceType : AdbMdnsServiceType} {service : MdnsService}
  {record : AnswerRecord} {inst : List Bytes}

/-- A well-formed answer is parsed to the services built of its records. -/
theorem parseMdnsResponse_settles {data : Bytes} (h : AnswerPacket data answer)
    (order : IterationOrder (Sigma fun _ : Text => UInt16 × Text))
    (serviceType : AdbMdnsServiceType) :
    Settles (fun fuel => parseMdnsResponse fuel order data serviceType)
      (.ok (buildServices order serviceType (answer.foldl (Records.add serviceType) .empty))) := by
  obtain ⟨ancount, ha, hl⟩ := h.answers
  refine ite_neg (Nat.not_lt.mpr h.length) ((settles_of_eq h.questions.reads).bind ?_)
  refine (settles_of_eq ha.reads).bind ((settles_const _).bind ?_)
  rw [hl]
  exact (recordLoop_settles serviceType h.records .empty).bind (settles_const _)

theorem buildServices_name {order : IterationOrder (Sigma fun _ : Text => UInt16 × Text)}
    (h : service ∈ buildServices order serviceType
      (answer.foldl (Records.add serviceType) .empty)) :
    service.instanceName ≠ [] ∧ service.instanceName.getLast? ≠ some '.' := by
  rcases mem_append.mp h with h | h
  · obtain ⟨name, hn, rfl⟩ := mem_map.mp h
    rw [foldl_instanceNames] at hn
    obtain ⟨record, -, hi⟩ := mem_filterMap.mp hn
    rw [ptrService_eq]
    unfold ptrInstance at hi
    split at hi
    next target =>
      split at hi
      next => cases hi
      next hne =>
        cases hi
        exact ⟨hne, trimDots_getLast? _⟩
    next => cases hi
  · split at h
    next =>
      obtain ⟨entry, -, hs⟩ := mem_filterMap.mp h
      obtain ⟨hn, hne⟩ := srvService_name hs
      refine ⟨hne, ?_⟩
      rw [hn]
      exact trimDots_getLast? _
    next => cases h

theorem ptrInstance_names (h : record.Names serviceType inst)
    (hn : labelsText inst ≠ [] ∧ (labelsText inst).getLast? ≠ some '.') :
    ptrInstance serviceType record = some (labelsText inst) := by
  obtain ⟨-, hd, hne⟩ := h
  have hi : instanceOf serviceType (labelsText (inst ++ domainLabels serviceType))
      = labelsText inst := by
    rw [labelsText_instance serviceType hne, instanceOf_full, trimDots_eq_self hn.2]
  simp [ptrInstance, hd, hi, if_neg hn.1]

/-- The services of a name are those of its PTR record. -/
theorem buildServices_named (order : IterationOrder (Sigma fun _ : Text => UInt16 × Text))
    (hr : record ∈ answer) (h : record.Names serviceType inst)
    (hn : labelsText inst ≠ [] ∧ (labelsText inst).getLast? ≠ some '.') (service : MdnsService) :
    (service ∈ buildServices order serviceType (answer.foldl (Records.add serviceType) .empty) ∧
        service.instanceName = labelsText inst) ↔
      service = ⟨serviceType, labelsText inst, none, [], 0, serviceTxt serviceType answer⟩ := by
  have hm : labelsText inst ∈ (answer.foldl (Records.add serviceType) .empty).instanceNames := by
    rw [foldl_instanceNames]
    exact mem_append_right _ (mem_filterMap.mpr ⟨record, hr, ptrInstance_names h hn⟩)
  constructor
  · rintro ⟨hs, heq⟩
    rcases mem_append.mp hs with hs | hs
    · obtain ⟨name, -, rfl⟩ := mem_map.mp hs
      rw [ptrService_eq] at heq ⊢
      cases heq
      rfl
    · rw [if_neg (ne_nil_of_mem hm)] at hs
      cases hs
  · rintro rfl
    refine ⟨mem_append_left _ (mem_map.mpr ⟨_, hm, ?_⟩), rfl⟩
    exact ptrService_eq serviceType answer _

end MdnsServer

/-- The server keeps what an answer says of the instances exactly when it says next to nothing. -/
theorem serverExact_iff {data : Bytes} {answer : List AnswerRecord} (h : AnswerPacket data answer)
    (order : IterationOrder (Sigma fun _ : Text => UInt16 × Text))
    (serviceType : AdbMdnsServiceType) :
    ServerExact data order serviceType answer ↔
      ∀ record ∈ answer, ∀ inst, record.Names serviceType inst →
        InstanceKept serviceType answer inst := by
  have hst := parseMdnsResponse_settles h order serviceType
  constructor
  · rintro ⟨services, hsr, hexact⟩ record hr inst hn
    cases hsr.unique hst
    obtain ⟨service, hs, hna, hown⟩ := hexact record hr inst hn
    have hp := buildServices_name hs
    rw [hna] at hp
    have heq := (buildServices_named order hr hn hp service).mp ⟨hs, hna⟩
    subst heq
    refine ⟨hp, fun other ho priority weight port host how hd => ?_, hown.txt⟩
    obtain ⟨_, _, _, _, _, _, _, _, _, hh, _⟩ :=
      hown.srv other ho priority weight port host how hd
    cases hh
  · intro hk
    refine ⟨_, hst, fun record hr inst hn => ?_⟩
    obtain ⟨hna, hsrv, ht⟩ := hk record hr inst hn
    have hs := (buildServices_named order hr hn hna _).mpr rfl
    refine ⟨_, hs.1, hs.2, ⟨?_, ht⟩⟩
    intro other ho priority weight port host how hd
    exact absurd hd (hsrv other ho priority weight port host how)

end AdbFastboot
