import AdbFastboot.DnsName
import AdbFastboot.HostRegistry
import Mathlib.Data.Finmap
import Mathlib.Data.List.DropRight

namespace AdbFastboot

def dotted (left right : Text) : Text := left ++ '.' :: right

abbrev Ipv4Addr := BitVec 32

abbrev Ipv6Addr := BitVec 128

abbrev TxtAttributes := Finmap fun _ : Text => Text

/-- The order in which a hash set or map is iterated. It can be any. -/
structure IterationOrder (α : Type) where
  arrange : List α → List α
  perm : ∀ xs, (arrange xs).Perm xs

def IterationOrder.stored (α : Type) : IterationOrder α := ⟨id, List.Perm.refl⟩

def AdbMdnsServiceType.fullDomain : AdbMdnsServiceType → Text
  | .classic => "_adb._tcp.local.".toList
  | .tlsConnect => "_adb-tls-connect._tcp.local.".toList
  | .tlsPairing => "_adb-tls-pairing._tcp.local.".toList

inductive IpAddr where
  | v4 (addr : Ipv4Addr)
  | v6 (addr : Ipv6Addr)
deriving DecidableEq

structure MdnsService where
  serviceType : AdbMdnsServiceType
  instanceName : Text
  hostName : Option Text
  addresses : List IpAddr
  port : UInt16
  txtRecords : TxtAttributes
deriving DecidableEq

def MdnsService.new (serviceType : AdbMdnsServiceType) (instanceName : Text)
    (port : UInt16) : MdnsService :=
  ⟨serviceType, instanceName, none, [], port, ∅⟩

inductive MdnsError where
  | invalidTxtLength (expected got : Nat)
deriving DecidableEq, Repr

def txtEntry (text : Text) : Text × Text :=
  match splitOnce '=' text with
  | some (k, v) => (strTrim k, strTrim v)
  | none => (strTrim text, [])

def insertTxt (attributes : TxtAttributes) (kv : Bytes) : TxtAttributes :=
  match utf8StrictAfter 0 kv with
  | some text => attributes.insert (txtEntry text).1 (txtEntry text).2
  | none => attributes

/-- The loop of `parse_txt_record`: `skip` bytes are still those of the attribute before. -/
def parseTxtAfter : Nat → Bytes → TxtAttributes → Except MdnsError TxtAttributes
  | _, [], attributes => .ok attributes
  | skip + 1, _ :: rest, attributes => parseTxtAfter skip rest attributes
  | 0, len :: rest, attributes =>
    if len.toNat = 0 then parseTxtAfter 0 rest attributes
    else if rest.length < len.toNat then .error (.invalidTxtLength len.toNat rest.length)
    else parseTxtAfter len.toNat rest (insertTxt attributes (rest.take len.toNat))

def parseTxtRecord (raw : Bytes) : Except MdnsError TxtAttributes := parseTxtAfter 0 raw ∅

def typeA : UInt16 := 0x0001

def typePtr : UInt16 := 0x000C

def typeTxt : UInt16 := 0x0010

def typeAaaa : UInt16 := 0x001C

def typeSrv : UInt16 := 0x0021

def addressOf (rtype : UInt16) (rdata : Bytes) : Option IpAddr :=
  if rtype = typeA ∧ rdata.length = 4 then some (.v4 (BitVec.ofNat 32 (beNat rdata)))
  else if rtype = typeAaaa ∧ rdata.length = 16 then some (.v6 (BitVec.ofNat 128 (beNat rdata)))
  else none

def trimDots (text : Text) : Text := text.rdropWhile (· == '.')

def instanceOf (serviceType : AdbMdnsServiceType) (fqdn : Text) : Text :=
  trimDots (trimEndMatches (trimDots serviceType.fullDomain) (trimDots fqdn))

def skipQuestions (fuel : Nat) (data : Bytes) : Nat → Nat → MdnsResult Nat
  | 0, offset => .ok offset
  | count + 1, offset => do
    let behind ← skipDnsName fuel data offset
    skipQuestions fuel data count (behind + 4)

namespace MdnsClient

def isPtrAt (data : Bytes) (offset lenDiff : Nat) : MdnsResult Bool :=
  if data.length ≥ offset + 12 then do
    let field ← sliceAt data (offset + lenDiff) (offset + lenDiff + 2)
    pure (field == [0x00, 0x0C])
  else pure false

/-- What a PTR record adds to the names. The fields are read from `offset + name.consumed` on, which
is where the record ends. -/
def takePtr (fuel : Nat) (data : Bytes) (serviceType : AdbMdnsServiceType) (rrOffset : Nat)
    (names : List Text) : MdnsResult (List Text) := do
  let _ ← u16BeAt data rrOffset
  let _ ← u16BeAt data (rrOffset + 2)
  let _ ← u32BeAt data (rrOffset + 4)
  let rdlength ← u16BeAt data (rrOffset + 8)
  if rrOffset + 10 + rdlength.toNat ≤ data.length then
    let fqdn ← decodeDnsName fuel data (rrOffset + 10)
    let name := instanceOf serviceType fqdn
    pure (if name = [] then names else names ++ [name])
  else pure names

def ptrLoop (fuel : Nat) (data : Bytes) (serviceType : AdbMdnsServiceType) :
    Nat → Nat → List Text → MdnsResult (List Text)
  | 0, _, names => .ok names
  | count + 1, offset, names => do
    let (name, rdlength) ← peekDnsRecord fuel data offset
    let isPtr ← isPtrAt data offset name.lenDiff
    let names ←
      if isPtr then takePtr fuel data serviceType (offset + name.consumed) names
      else pure names
    ptrLoop fuel data serviceType count (name.consumed + 10 + rdlength) names

def parseMdnsResponse (fuel : Nat) (data : Bytes) (serviceType : AdbMdnsServiceType) :
    MdnsResult (List MdnsService) := do
  if data.length < 12 then parseError "packet too short"
  else
    let qdcount ← u16BeAt data 4
    let ancount ← u16BeAt data 6
    let offset ← skipQuestions fuel data qdcount.toNat 12
    let names ← ptrLoop fuel data serviceType ancount.toNat offset []
    pure (names.map fun name => MdnsService.new serviceType name 0)

structure SrvFields where
  hostname : Text
  port : UInt16
  instanceName : Text
  addresses : List IpAddr
  txtRecords : TxtAttributes
deriving DecidableEq

def SrvFields.empty : SrvFields := ⟨[], 0, [], [], ∅⟩

/-- The arms of the match on the type, from the data of the record on. `rrOffset` is where the data
is looked for, and the result says where the next record is looked for. -/
def takeRecord (fuel : Nat) (data : Bytes) (rtype : UInt16) (offset rrOffset rdlen : Nat)
    (fields : SrvFields) : MdnsResult (Nat × SrvFields) := do
  if rtype = typeSrv then
    if rrOffset + rdlen ≤ data.length ∧ rdlen ≥ 6 then
      let _ ← u16BeAt data rrOffset
      let _ ← u16BeAt data (rrOffset + 2)
      let port ← u16BeAt data (rrOffset + 4)
      let hostname ← decodeDnsName fuel data (rrOffset + 6)
      let fqdn ← decodeDnsName fuel data offset
      pure (rrOffset, { fields with hostname, port, instanceName := trimDots fqdn })
    else pure (rrOffset, fields)
  else if rtype = typeA ∨ rtype = typeAaaa then
    if rrOffset + rdlen ≤ data.length then
      let rdata ← sliceAt data rrOffset (rrOffset + rdlen)
      pure (rrOffset, { fields with
        addresses := fields.addresses ++ (addressOf rtype rdata).toList })
    else pure (rrOffset, fields)
  else if rtype = typeTxt then
    if rrOffset + rdlen ≤ data.length then
      let rdata ← sliceAt data rrOffset (rrOffset + rdlen)
      match parseTxtRecord rdata with
      | .ok txtRecords => pure (rrOffset, { fields with txtRecords })
      | .error _ => pure (rrOffset, fields)
    else pure (rrOffset, fields)
  else pure (rrOffset + rdlen, fields)

def srvLoop (fuel : Nat) (data : Bytes) : Nat → Nat → SrvFields → MdnsResult SrvFields
  | 0, _, fields => .ok fields
  | count + 1, offset, fields => do
    let (name, _) ← peekDnsRecord fuel data offset
    if offset + 12 > data.length then pure fields
    else
      let rtype ← u16BeAt data (offset + name.lenDiff)
      let rrOffset := offset + name.consumed
      let rdlen ← u16BeAt data (rrOffset + 8)
      let (next, fields) ←
        takeRecord fuel data rtype offset (rrOffset + 10) rdlen.toNat fields
      srvLoop fuel data count next fields

def parseSrvResponse (fuel : Nat) (data : Bytes) (serviceType : AdbMdnsServiceType) :
    MdnsResult MdnsService := do
  if data.length < 12 then parseError "packet too short"
  else
    let qdcount ← u16BeAt data 4
    let ancount ← u16BeAt data 6
    let offset ← skipQuestions fuel data qdcount.toNat 12
    let fields ← srvLoop fuel data ancount.toNat offset .empty
    if fields.port = 0 then parseError "no SRV record found"
    else pure { MdnsService.new serviceType fields.instanceName fields.port with
        hostName := if fields.hostname = [] then none else some fields.hostname
        addresses := fields.addresses
        txtRecords := fields.txtRecords }

end MdnsClient

namespace MdnsServer

structure Records where
  instanceNames : List Text
  srvs : AList fun _ : Text => UInt16 × Text
  addresses : AList fun _ : Text => List IpAddr
  txts : AList fun _ : Text => TxtAttributes

def Records.empty : Records := ⟨[], ∅, ∅, ∅⟩

def takeRecord (fuel : Nat) (data : Bytes) (serviceType : AdbMdnsServiceType) (name : Text)
    (rtype : UInt16) (offset rrOffset rdlen : Nat) (records : Records) : MdnsResult Records := do
  if rtype = typePtr then
    let fqdn ← decodeDnsName fuel data rrOffset
    let inst := instanceOf serviceType fqdn
    pure (if inst = [] then records
      else { records with instanceNames := records.instanceNames ++ [inst] })
  else if rtype = typeSrv then
    if rdlen ≥ 6 then
      let _ ← u16BeAt data rrOffset
      let _ ← u16BeAt data (rrOffset + 2)
      let port ← u16BeAt data (rrOffset + 4)
      let hostname ← decodeDnsName fuel data (rrOffset + 6)
      let fqdn ← decodeDnsName fuel data offset
      pure { records with srvs := records.srvs.insert (trimDots fqdn) (port, trimDots hostname) }
    else pure records
  else if rtype = typeA ∨ rtype = typeAaaa then
    let rdata ← sliceAt data rrOffset (rrOffset + rdlen)
    let hostname := trimDots name
    match addressOf rtype rdata with
    | some addr => pure { records with
        addresses := records.addresses.insert hostname
          ((records.addresses.lookup hostname).getD [] ++ [addr]) }
    | none => pure records
  else if rtype = typeTxt then
    let rdata ← sliceAt data rrOffset (rrOffset + rdlen)
    match parseTxtRecord rdata with
    | .ok txt =>
      let fqdn ← decodeDnsName fuel data offset
      pure { records with txts := records.txts.insert (trimDots fqdn) txt }
    | .error _ => pure records
  else pure records

def recordLoop (fuel : Nat) (data : Bytes) (serviceType : AdbMdnsServiceType) :
    Nat → Nat → Records → MdnsResult Records
  | 0, _, records => .ok records
  | count + 1, offset, records =>
    if offset ≥ data.length then pure records
    else do
      let (name, _) ← skipAndDecodeDnsName fuel data offset
      if offset + 12 > data.length then pure records
      else
        let rrOffset ← skipDnsName fuel data offset
        if rrOffset + 10 > data.length then pure records
        else
          let rtype ← u16BeAt data rrOffset
          let _ ← u16BeAt data (rrOffset + 2)
          let _ ← u32BeAt data (rrOffset + 4)
          let rdlen ← u16BeAt data (rrOffset + 8)
          if rrOffset + 10 + rdlen.toNat > data.length then pure records
          else
            let records ← takeRecord fuel data serviceType name rtype offset (rrOffset + 10)
              rdlen.toNat records
            let behind ← skipDnsName fuel data offset
            recordLoop fuel data serviceType count (behind + (10 + rdlen.toNat)) records

def ptrService (serviceType : AdbMdnsServiceType) (records : Records) (inst : Text) : MdnsService :=
  let fqdn := dotted inst serviceType.fullDomain
  let service := MdnsService.new serviceType inst 0
  let service := match records.srvs.lookup fqdn with
    | some (port, hostname) => { service with
        port
        hostName := some hostname
        addresses := (records.addresses.lookup hostname).getD service.addresses }
    | none => service
  match records.txts.lookup fqdn with
  | some txt => { service with txtRecords := txt }
  | none =>
    match records.txts.lookup (trimDots serviceType.fullDomain) with
    | some txt => { service with txtRecords := txt }
    | none => service

def srvService (serviceType : AdbMdnsServiceType) (records : Records) (fqdn : Text) (port : UInt16)
    (hostname : Text) : Option MdnsService :=
  let inst := instanceOf serviceType fqdn
  if inst = [] then none
  else
    let service := MdnsService.new serviceType inst port
    some { service with
      hostName := some hostname
      addresses := (records.addresses.lookup hostname).getD service.addresses
      txtRecords := (records.txts.lookup fqdn).getD service.txtRecords }

def buildServices (order : IterationOrder (Sigma fun _ : Text => UInt16 × Text))
    (serviceType : AdbMdnsServiceType) (records : Records) : List MdnsService :=
  records.instanceNames.map (ptrService serviceType records)
    ++ if records.instanceNames = [] then
        (order.arrange records.srvs.entries).filterMap fun entry =>
          srvService serviceType records entry.1 entry.2.1 entry.2.2
      else []

/-- `order` is the one in which the map of the SRV records is iterated. -/
def parseMdnsResponse (fuel : Nat) (order : IterationOrder (Sigma fun _ : Text => UInt16 × Text))
    (data : Bytes) (serviceType : AdbMdnsServiceType) : MdnsResult (List MdnsService) := do
  if data.length < 12 then parseError "packet too short"
  else
    let qdcount ← u16BeAt data 4
    let ancount ← u16BeAt data 6
    let offset ← skipQuestions fuel data qdcount.toNat 12
    let records ← recordLoop fuel data serviceType ancount.toNat offset .empty
    pure (buildServices order serviceType records)

end MdnsServer

end AdbFastboot
