import AdbFastboot.Bytes
import AdbFastboot.StepRun

namespace AdbFastboot

def asI16 (x : Int) : Int := x.bmod (2 ^ 16)

def asI32 (x : Int) : Int := x.bmod (2 ^ 32)

def asUsize (x : Int) : Nat := (x % 2 ^ 64).toNat

/-- A sum or a difference of `i32`s, which panics if it does not fit. -/
def checkedI32 (x : Int) : Option Int := if -2 ^ 31 ≤ x ∧ x < 2 ^ 31 then some x else none

def i16Be (x : Int) : Bytes := beBytes 2 (x % 2 ^ 16).toNat

def i32Be (x : Int) : Bytes := beBytes 4 (x % 2 ^ 32).toNat

def kBlockSize : Nat := 4096

def digestSize : Nat := 32

def hashesPerBlock : Nat := kBlockSize / digestSize

def compressedSizeMax : Nat := kBlockSize * 95 / 100

def chunkFlushSize : Nat := 31 * kBlockSize

def incrMagic : Nat := 0x494e4352

def servingComplete : Int := 0
def blockMissing : Int := 1
def prefetch : Int := 2
def destroy : Int := 3

def numBytesToNumBlocks (bytes : Int) : Int :=
  if bytes ≤ 0 then 0 else asI32 ((bytes + kBlockSize - 1) / kBlockSize)

/-- The blocks of the levels of a hash tree above a level of `count` blocks. -/
def treeBlocksAbove : Nat → Nat → Nat
  | 0, _ => 0
  | fuel + 1, count =>
    if 1 < count then
      let above := (count + hashesPerBlock - 1) / hashesPerBlock
      above + treeBlocksAbove fuel above
    else 0

def verityTreeBlocksForFile (fileSize : Int) : Nat :=
  if fileSize = 0 then 0
  else
    let blockCount := (1 + (fileSize - 1).tdiv kBlockSize).toNat
    treeBlocksAbove blockCount blockCount

structure RequestCommand where
  requestType : Int16
  fileId : Int16
  blockIdx : Int32
deriving DecidableEq, Repr

def RequestCommand.wireSize : Nat := 8

def RequestCommand.decode (bytes : Bytes) : Option RequestCommand :=
  if bytes.length < RequestCommand.wireSize then none
  else some {
    requestType := Int16.ofInt (beNat (slice bytes 0 2))
    fileId := Int16.ofInt (beNat (slice bytes 2 4))
    blockIdx := Int32.ofInt (beNat (slice bytes 4 8)) }

inductive BlockType where
  | data
  | hash
deriving DecidableEq, Repr

def BlockType.code : BlockType → UInt8
  | .data => 0
  | .hash => 1

inductive CompressionType where
  | none
  | lz4
deriving DecidableEq, Repr

def CompressionType.code : CompressionType → UInt8
  | .none => 0
  | .lz4 => 1

structure ResponseHeader where
  fileId : Int
  blockType : BlockType
  compressionType : CompressionType
  blockIdx : Int
  blockSize : Int
deriving DecidableEq, Repr

namespace ResponseHeader

def wireSize : Nat := 10

def encode (h : ResponseHeader) : Bytes :=
  i16Be h.fileId ++ [h.blockType.code, h.compressionType.code] ++ i32Be h.blockIdx
    ++ i16Be h.blockSize

def doneMarker : ResponseHeader := ⟨-1, .data, .none, 0, 0⟩

end ResponseHeader

structure Response where
  header : ResponseHeader
  payload : Bytes
deriving DecidableEq, Repr

def Response.encode (r : Response) : Bytes := r.header.encode ++ r.payload

/-- Where the blocks of a file come from; `none` is a read that fails. What a read returns may depend
on how many the server has made before. -/
structure BlockSource where
  readDataBlock : Nat → Int → Option Bytes
  readTreeBlock : Nat → Int → Option Bytes
  hasTree : Bool

structure ServerFile where
  size : Int
  sentBlocks : List Bool
  sentBlocksCount : Int
  sentTreeBlocks : List Bool
  priorityBlocks : List Int32
  source : BlockSource

def ServerFile.new (size : Int) (source : BlockSource) (priorityBlocks : List Int32) :
    ServerFile where
  size := size
  sentBlocks := List.replicate (numBytesToNumBlocks size).toNat false
  sentBlocksCount := 0
  sentTreeBlocks :=
    if source.hasTree then List.replicate (verityTreeBlocksForFile size) false else []
  priorityBlocks := priorityBlocks
  source := source

structure PrefetchState where
  fileIndex : Nat
  overallIndex : Int
  overallEnd : Int
  priorityIndex : Nat
deriving DecidableEq, Repr

namespace PrefetchState

/-- The end is a `saturating_add` in `i32`. -/
def new (fileIndex : Nat) (file : ServerFile) (start count : Int) : PrefetchState where
  fileIndex := fileIndex
  overallIndex := start
  overallEnd := min (min (start + count) (2 ^ 31 - 1)) (asI32 file.sentBlocks.length)
  priorityIndex := 0

def full (fileIndex : Nat) (file : ServerFile) : PrefetchState :=
  new fileIndex file 0 (asI32 file.sentBlocks.length)

def done (p : PrefetchState) (file : ServerFile) : Bool :=
  decide (p.overallEnd ≤ p.overallIndex)
    && (file.priorityBlocks.isEmpty || decide (file.priorityBlocks.length ≤ p.priorityIndex))

end PrefetchState

inductive SendResult where
  | sent
  | skipped
  | error
deriving DecidableEq, Repr

/-- The server. Of the pending chunk the slot for its size in front is left out. -/
structure IncrementalServer where
  files : List ServerFile
  incoming : Bytes
  pending : Bytes
  output : Bytes
  prefetches : List PrefetchState
  prefetchedFiles : List Int16
  compressedBlocks : Nat
  uncompressedBlocks : Nat
  sentSize : Nat
  servingComplete : Bool
  destroyed : Bool
  doneSent : Bool
  reads : Nat
  /-- The history of what went into the chunks, which the source does not keep. -/
  emitted : List Response

namespace IncrementalServer

def new (files : List ServerFile) : IncrementalServer :=
  ⟨files, [], [], [], [], [], 0, 0, 0, false, false, false, 0, []⟩

variable (s : IncrementalServer)

def feed (data : Bytes) : IncrementalServer := { s with incoming := s.incoming ++ data }

/-- The loop that looks for the magic. It ends where the magic stands or where the input does. -/
def findMagic (incoming : Bytes) (bsize : Int) : Nat → Int → Option (Int × Bool)
  | 0, _ => none
  | turns + 1, bcur => do
    let last ← checkedI32 (bcur + 4)
    if last < bsize then
      let start := asUsize bcur
      if start + 4 ≤ incoming.length then
        if beNat (slice incoming start (start + 4)) = incrMagic then pure (bcur, true)
        else findMagic incoming bsize turns (← checkedI32 (bcur + 1))
      else none
    else pure (bcur, false)

/-- The request that stands in the input, what goes to the output stream, and what input is left. -/
def takeRequest (incoming : Bytes) : Option (Option RequestCommand × Bytes × Bytes) := do
  let (bcur, magicFound) ← findMagic incoming (asI32 incoming.length) (incoming.length + 1) 0
  let forward := incoming.take (asUsize bcur)
  let incoming := incoming.drop (asUsize bcur)
  if magicFound && decide (4 + RequestCommand.wireSize ≤ incoming.length) then
    pure (RequestCommand.decode (slice incoming 4 (4 + RequestCommand.wireSize)), forward,
      incoming.drop (4 + RequestCommand.wireSize))
  else pure (none, forward, incoming)

def flush : IncrementalServer :=
  if s.pending = [] then s
  else { s with
    output := s.output ++ i32Be (asI32 s.pending.length) ++ s.pending
    sentSize := s.sentSize + (4 + s.pending.length)
    pending := [] }

def send (data : Bytes) (flush : Bool) : IncrementalServer :=
  let s := { s with pending := s.pending ++ data }
  if flush || decide (chunkFlushSize < 4 + s.pending.length) then s.flush else s

def record (r : Response) : IncrementalServer := { s with emitted := s.emitted ++ [r] }

def emitBlock (fileId blockIdx : Int) (blockType : BlockType) (compressionType : CompressionType)
    (payload : Bytes) (flush : Bool) : IncrementalServer :=
  let header : ResponseHeader :=
    ⟨fileId, blockType, compressionType, blockIdx, asI16 payload.length⟩
  (s.record ⟨header, payload⟩).send (Response.encode ⟨header, payload⟩) flush

def setFile (i : Nat) (file : ServerFile) : IncrementalServer :=
  { s with files := s.files.set i file }

def markTreeSent (i index : Nat) : Option IncrementalServer := do
  let file ← s.files[i]?
  if index < file.sentTreeBlocks.length then
    pure (s.setFile i { file with sentTreeBlocks := file.sentTreeBlocks.set index true })
  else none

def markSent (i index : Nat) : Option IncrementalServer := do
  let file ← s.files[i]?
  if index < file.sentBlocks.length then
    let count ← checkedI32 (file.sentBlocksCount + 1)
    pure (s.setFile i
      { file with sentBlocks := file.sentBlocks.set index true, sentBlocksCount := count })
  else none

def readOne : IncrementalServer := { s with reads := s.reads + 1 }

def sendTreeBlock (fileId blockIdx : Int) : Option (Bool × IncrementalServer) := do
  let file ← s.files[asUsize fileId]?
  match file.source.readTreeBlock s.reads blockIdx with
  | none => pure (false, s.readOne)
  | some data => pure (true, s.readOne.emitBlock fileId blockIdx .hash .none data false)

def sendUpperTree (fileId : Int) (s : IncrementalServer) :
    Nat → Nat → Option (Bool × IncrementalServer)
  | 0, _ => some (true, s)
  | todo + 1, index => do
    let (ok, s) ← s.sendTreeBlock fileId (asI32 index)
    if ok then
      let s ← s.markTreeSent (asUsize fileId) index
      sendUpperTree fileId s todo (index + 1)
    else pure (false, s)

def sendTreeBlocksForDataBlock (fileId blockIdx : Int) : Option (Bool × IncrementalServer) :=
  match s.files[asUsize fileId]? with
  | none => some (false, s)
  | some file =>
    if !file.source.hasTree then some (true, s)
    else
      let dataBlockCount := numBytesToNumBlocks file.size
      let totalNodes : Int := file.sentTreeBlocks.length
      let leafNodesCount := (dataBlockCount + hashesPerBlock - 1).tdiv hashesPerBlock
      let leafNodesOffset := totalNodes - leafNodesCount
      if totalNodes ≤ 0 then some (true, s)
      else
        let leafIdx := asUsize (leafNodesOffset + blockIdx.tdiv hashesPerBlock)
        if file.sentTreeBlocks[leafIdx]? ≠ some false then some (true, s)
        else do
          let (ok, s) ← s.sendTreeBlock fileId (asI32 leafIdx)
          if !ok then return (false, s)
          let s ← s.markTreeSent (asUsize fileId) leafIdx
          if leafNodesOffset = 0 then return (true, s)
          let file ← s.files[asUsize fileId]?
          if ← file.sentTreeBlocks[0]? then return (true, s)
          sendUpperTree fileId s (asUsize leafNodesOffset) 0

def packBlock (compress : Bytes → Bytes) (data : Bytes) : CompressionType × Bytes :=
  let compressed := compress data
  if compressed ≠ [] ∧ compressed.length < compressedSizeMax then (.lz4, compressed)
  else (.none, data)

def countPacked (compressionType : CompressionType) : IncrementalServer :=
  match compressionType with
  | .lz4 => { s with compressedBlocks := s.compressedBlocks + 1 }
  | .none => { s with uncompressedBlocks := s.uncompressedBlocks + 1 }

def sendDataBlock (compress : Bytes → Bytes) (fileId blockIdx : Int) (flush : Bool) :
    Option (SendResult × IncrementalServer) :=
  match s.files[asUsize fileId]? with
  | none => some (.skipped, s)
  | some file =>
    if blockIdx < 0 ∨ file.sentBlocks.length ≤ asUsize blockIdx then some (.skipped, s)
    else do
      if ← file.sentBlocks[asUsize blockIdx]? then return (.skipped, s)
      let (ok, s) ← s.sendTreeBlocksForDataBlock fileId blockIdx
      if !ok then return (.error, s)
      let file ← s.files[asUsize fileId]?
      match file.source.readDataBlock s.reads blockIdx with
      | none => return (.error, s.readOne)
      | some data =>
        let (compressionType, payload) := packBlock compress data
        let s ← (s.readOne.countPacked compressionType).markSent (asUsize fileId) (asUsize blockIdx)
        return (.sent, s.emitBlock fileId blockIdx .data compressionType payload flush)

def sendDone : IncrementalServer :=
  (s.record ⟨ResponseHeader.doneMarker, []⟩).send ResponseHeader.doneMarker.encode true

def allFilesSent : Bool :=
  s.files.all fun file => decide (file.sentBlocksCount = asI32 file.sentBlocks.length)

/-- The two loops of `run_prefetching`: as long as blocks may be sent, those that `blockAt` names,
from `index` on. Returns how many more may be sent, and the index after the last. -/
def sendBlocks (compress : Bytes → Bytes) (fileIndex : Nat) (blockAt : Nat → Option Int)
    (s : IncrementalServer) : Nat → Int → Nat → Option (Int × Nat × IncrementalServer)
  | 0, blocksToSend, index => some (blocksToSend, index, s)
  | todo + 1, blocksToSend, index =>
    if blocksToSend ≤ 0 then some (blocksToSend, index, s)
    else do
      let block ← blockAt index
      let (result, s) ← s.sendDataBlock compress (asI16 fileIndex) block false
      sendBlocks compress fileIndex blockAt s todo
        (if result = .sent then blocksToSend - 1 else blocksToSend) (index + 1)

/-- One turn of `run_prefetching` with the prefetch at the front of the queue. -/
def prefetchTurn (compress : Bytes → Bytes) (p : PrefetchState)
    (rest : List PrefetchState) (blocksToSend : Int) : Option (Int × IncrementalServer) := do
  let file ← s.files[p.fileIndex]?
  let priority := fun i : Nat => (file.priorityBlocks[i]?).map Int32.toInt
  let (blocksToSend, priorityIndex, s) ← sendBlocks compress p.fileIndex priority s
    (file.priorityBlocks.length - p.priorityIndex) blocksToSend p.priorityIndex
  let overall := fun i : Nat => checkedI32 (p.overallIndex + i)
  let (blocksToSend, sent, s) ← sendBlocks compress p.fileIndex overall s
    (p.overallEnd - p.overallIndex).toNat blocksToSend 0
  let overallIndex ← checkedI32 (p.overallIndex + sent)
  let p := { p with priorityIndex := priorityIndex, overallIndex := overallIndex }
  let file ← s.files[p.fileIndex]?
  pure (blocksToSend, { s with prefetches := if p.done file then rest else p :: rest })

def prefetchLoop (compress : Bytes → Bytes) (s : IncrementalServer) :
    Nat → Int → Option IncrementalServer
  | 0, _ => none
  | turns + 1, blocksToSend =>
    match s.prefetches with
    | [] => some s
    | p :: rest =>
      if blocksToSend ≤ 0 then some s
      else do
        let (blocksToSend, s) ← s.prefetchTurn compress p rest blocksToSend
        prefetchLoop compress s turns blocksToSend

/-- A turn takes the prefetch from the queue or uses up what may be sent. -/
def runPrefetching (compress : Bytes → Bytes) : Option IncrementalServer :=
  prefetchLoop compress s (s.prefetches.length + 1) 128

def handleRequest (compress : Bytes → Bytes) (request : RequestCommand) :
    Option IncrementalServer :=
  let fileId := request.fileId.toInt
  let blockIdx := request.blockIdx.toInt
  if request.requestType.toInt = destroy then some { s with destroyed := true }
  else if request.requestType.toInt = AdbFastboot.servingComplete then
    some { s with servingComplete := true }
  else if request.requestType.toInt = blockMissing then
    if fileId < 0 ∨ s.files.length ≤ asUsize fileId ∨ blockIdx < 0 then some s
    else do
      let file ← s.files[asUsize fileId]?
      if file.sentBlocks.length ≤ asUsize blockIdx then return s
      let (result, s) ← s.sendDataBlock compress fileId blockIdx true
      if result = .sent then
        let file ← s.files[asUsize fileId]?
        let start ← checkedI32 (blockIdx + 1)
        return { s with prefetches := .new (asUsize fileId) file start 7 :: s.prefetches }
      else return s
  else if request.requestType.toInt = prefetch then
    if fileId < 0 then some s
    else if request.fileId ∈ s.prefetchedFiles then some s
    else do
      let file ← s.files[asUsize fileId]?
      return { s with
        prefetchedFiles := request.fileId :: s.prefetchedFiles
        prefetches := s.prefetches ++ [.full (asUsize fileId) file] }
  else some s

def drainOutput : Bytes × IncrementalServer :=
  (s.flush.output, { s.flush with output := [] })

def notifyDone : IncrementalServer :=
  if !s.doneSent && s.prefetches.isEmpty && s.allFilesSent then
    { s.sendDone with doneSent := true }
  else s

def flushIfBlocking : IncrementalServer := if s.prefetches.isEmpty then s.flush else s

/-- What goes to the output stream, whether the server goes on, and the server after it. -/
def serveStep (compress : Bytes → Bytes) : Option (Bytes × Bool × IncrementalServer) := do
  let s := s.notifyDone.flushIfBlocking
  let (request, forward, incoming) ← takeRequest s.incoming
  let s := { s with incoming := incoming }
  let s ← match request with
    | none => some s
    | some request => s.handleRequest compress request
  let s ← s.runPrefetching compress
  pure (forward, !s.destroyed, s)

end IncrementalServer

end AdbFastboot
