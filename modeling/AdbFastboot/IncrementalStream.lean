import AdbFastboot.IncrementalSafety

namespace AdbFastboot

section

namespace IncrementalServer

inductive Act (compress : Bytes → Bytes) :
    IncrementalServer → IncrementalServer → Prop where
  | send {s s' : IncrementalServer} {i : Nat} {b : Int} {result : SendResult} (hi : i < 2 ^ 15)
      (h : DataOut compress i b s result s') : Act compress s s'
  | flush (s : IncrementalServer) : Act compress s s.flush
  | done {s : IncrementalServer} (hfirst : s.doneSent = false) (hall : s.allFilesSent = true) :
      Act compress s { s.sendDone with doneSent := true }
  | keep (s : IncrementalServer) (incoming : Bytes) (prefetches : List PrefetchState)
      (prefetchedFiles : List Int16) (servingComplete destroyed : Bool) :
      Act compress s { s with
        incoming := incoming, prefetches := prefetches, prefetchedFiles := prefetchedFiles,
        servingComplete := servingComplete, destroyed := destroyed }

def Acts (compress : Bytes → Bytes) : IncrementalServer → IncrementalServer → Prop :=
  Relation.ReflTransGen (Act compress)

variable {compress : Bytes → Bytes} {s s' : IncrementalServer}

/-- What each act keeps, a chain of acts keeps. -/
theorem Acts.invariant {inv : IncrementalServer → Prop}
    (ha : ∀ {s s'}, Act compress s s' → inv s → inv s') (h : Acts compress s s') (hs : inv s) :
    inv s' := by
  induction h with
  | refl => exact hs
  | tail _ hst ih => exact ha hst ih

theorem Works.acts (h : Works compress s s') : Acts compress s s' := by
  induction h with
  | refl => exact .refl
  | tail _ hs ih =>
    cases hs with
    | send hi h => exact ih.tail (.send hi h)
    | requeue q => exact ih.tail (.keep _ _ q _ _ _)

theorem Handled.acts {request : RequestCommand} (h : Handled compress s request s') :
    Acts compress s s' := by
  cases h with
  | ignored => exact .refl
  | destroyed => exact .single (.keep s _ _ _ _ true)
  | complete => exact .single (.keep s _ _ _ true _)
  | unsent hi h => exact .single (.send hi h)
  | missing hi h => exact .tail (.single (.send hi h)) (.keep _ _ _ _ _ _)
  | prefetch => exact .single (.keep s _ _ _ _ _)

variable (s : IncrementalServer)

theorem notifyDone_acts : Acts compress s s.notifyDone := by
  unfold notifyDone
  split
  next h =>
    simp only [Bool.and_eq_true, Bool.not_eq_true'] at h
    exact .single (.done h.1.1 h.2)
  next => exact .refl

theorem awaiting_acts (incoming : Bytes) : Acts compress s (s.awaiting incoming) := by
  have hf : Acts compress s.notifyDone s.notifyDone.flushIfBlocking := by
    unfold flushIfBlocking
    split
    next => exact .single (.flush _)
    next => exact .refl
  exact ((notifyDone_acts s).trans hf).tail (.keep _ incoming _ _ _ _)

end IncrementalServer

namespace IncrementalSession

variable {compress : Bytes → Bytes} {t t' : IncrementalSession} {a : IncrementalStep}

/-- A step is a chain of acts, or takes the output away. -/
theorem Stepped.acts (h : Stepped compress t a t') :
    t'.drained = t.drained ∧ IncrementalServer.Acts compress t.server t'.server
      ∨ t' = ⟨t.server.drainOutput.2, t.drained ++ t.server.drainOutput.1⟩ := by
  cases h with
  | feed data => exact .inl ⟨rfl, .single (.keep _ _ _ _ _ _)⟩
  | idle _ h => exact .inl ⟨rfl, (IncrementalServer.awaiting_acts _ _).trans h.works.acts⟩
  | served _ _ h1 h =>
    exact .inl ⟨rfl, ((IncrementalServer.awaiting_acts _ _).trans h1.acts).trans h.works.acts⟩
  | handleRequest _ h => exact .inl ⟨rfl, h.acts⟩
  | runPrefetching h => exact .inl ⟨rfl, h.works.acts⟩
  | drainOutput => exact .inr rfl

end IncrementalSession

end

open List

def encodeChunk (blocks : List Response) : Bytes :=
  i32Be (asI32 (blocks.flatMap Response.encode).length) ++ blocks.flatMap Response.encode

/-- Up to its last block a chunk stays below the size at which it is sent. -/
def ChunkCut (blocks : List Response) : Prop :=
  ∃ front r, blocks = front ++ [r] ∧ 4 + (front.flatMap Response.encode).length ≤ chunkFlushSize

theorem Response.encode_ne_nil (r : Response) : r.encode ≠ [] := by
  intro h
  have hl := congrArg length h
  simp only [Response.encode, ResponseHeader.encode, i16Be, length_append, beBytes_length,
    length_nil] at hl
  omega

theorem ChunkCut.of_room {blocks : List Response} (hne : blocks ≠ [])
    (h : 4 + (blocks.flatMap Response.encode).length ≤ chunkFlushSize) : ChunkCut blocks := by
  obtain ⟨front, r, rfl⟩ := eq_nil_or_concat' blocks |>.resolve_left hne
  refine ⟨front, r, rfl, ?_⟩
  rw [flatMap_append, length_append] at h
  omega

namespace IncrementalServer

/-- Where the emitted blocks stand: in the chunks that were drained, in those of the output, and in
the pending chunk. -/
structure Framed (s : IncrementalServer) (drained : Bytes) (before chunks : List (List Response))
    (tail : List Response) : Prop where
  emitted : s.emitted = before.flatten ++ chunks.flatten ++ tail
  drained : drained = before.flatMap encodeChunk
  output : s.output = chunks.flatMap encodeChunk
  pending : s.pending = tail.flatMap Response.encode
  cut : ∀ c ∈ before ++ chunks, ChunkCut c
  room : 4 + s.pending.length ≤ chunkFlushSize

variable {compress : Bytes → Bytes} {s s' : IncrementalServer} {drained : Bytes}
  {before chunks : List (List Response)} {tail : List Response}

theorem Framed.congr (h : s.Framed drained before chunks tail) (he : s'.emitted = s.emitted)
    (ho : s'.output = s.output) (hp : s'.pending = s.pending) :
    s'.Framed drained before chunks tail := by
  refine ⟨he.trans h.emitted, h.drained, ho.trans h.output, hp.trans h.pending, h.cut, ?_⟩
  rw [hp]
  exact h.room

/-- A flush closes the chunk that was begun. -/
theorem flush_framed (he : s.emitted = before.flatten ++ chunks.flatten ++ tail)
    (hd : drained = before.flatMap encodeChunk) (ho : s.output = chunks.flatMap encodeChunk)
    (hp : s.pending = tail.flatMap Response.encode) (hcut : ∀ c ∈ before ++ chunks, ChunkCut c)
    (hl : ChunkCut tail) : s.flush.Framed drained before (chunks ++ [tail]) [] := by
  have hne : s.pending ≠ [] := by
    obtain ⟨front, r, rfl, -⟩ := hl
    rw [hp, flatMap_append]
    intro hn
    have hr := (append_eq_nil_iff.mp hn).2
    rw [flatMap_singleton] at hr
    exact r.encode_ne_nil hr
  unfold flush
  rw [if_neg hne]
  refine ⟨?_, hd, ?_, rfl, ?_, (by decide : 4 + 0 ≤ chunkFlushSize)⟩
  · simp [he]
  · simp [ho, hp, encodeChunk]
  · intro c hc
    rw [← append_assoc] at hc
    obtain hc | hc := mem_append.mp hc
    · exact hcut c hc
    · rw [mem_singleton.mp hc]
      exact hl

/-- A server whose emitted blocks stand in its chunks, the drained ones first. -/
def Streams (s : IncrementalServer) (drained : Bytes) (before : List (List Response)) : Prop :=
  ∃ chunks tail, s.Framed drained before chunks tail

section

variable (h : s.Streams drained before)
include h

theorem Streams.congr (he : s'.emitted = s.emitted) (ho : s'.output = s.output)
    (hp : s'.pending = s.pending) : s'.Streams drained before := by
  obtain ⟨chunks, tail, h⟩ := h
  exact ⟨chunks, tail, h.congr he ho hp⟩

theorem Streams.flush : s.flush.Streams drained before := by
  obtain ⟨chunks, tail, h⟩ := h
  by_cases ht : tail = []
  · have hn : s.pending = [] := by
      rw [h.pending, ht]
      rfl
    refine ⟨chunks, tail, ?_⟩
    rw [IncrementalServer.flush, if_pos hn]
    exact h
  · have hr := h.room
    rw [h.pending] at hr
    exact ⟨_, _, flush_framed h.emitted h.drained h.output h.pending h.cut (.of_room ht hr)⟩

/-- A response goes into the chunk begun, or into a new one. -/
theorem Streams.send (r : Response) (flush : Bool) :
    ((s.record r).send r.encode flush).Streams drained before := by
  obtain ⟨chunks, tail, h⟩ := h
  have he : s.emitted ++ [r] = before.flatten ++ chunks.flatten ++ (tail ++ [r]) := by
    rw [h.emitted, append_assoc]
  have hp : s.pending ++ r.encode = (tail ++ [r]).flatMap Response.encode := by
    rw [h.pending, flatMap_append, flatMap_singleton]
  have hr := h.room
  rw [h.pending] at hr
  unfold IncrementalServer.send
  dsimp only
  split
  next => exact ⟨_, _, flush_framed he h.drained h.output hp h.cut ⟨tail, r, rfl, hr⟩⟩
  next hk =>
    simp only [Bool.or_eq_true, decide_eq_true_eq, not_or] at hk
    exact ⟨chunks, tail ++ [r], he, h.drained, h.output, hp, h.cut, Nat.not_lt.mp hk.2⟩

/-- What is drained are whole chunks. -/
theorem Streams.drain : ∃ more, s.drainOutput.2.Streams (drained ++ s.drainOutput.1) (before ++ more) := by
  obtain ⟨chunks, tail, h⟩ := h.flush
  refine ⟨chunks, [], tail, ?_, ?_, rfl, h.pending, ?_, h.room⟩
  · show s.flush.emitted = _
    rw [h.emitted, flatten_append]
    simp
  · show drained ++ s.flush.output = _
    rw [h.drained, h.output, flatMap_append]
  · rw [append_nil]
    exact h.cut

end

theorem EmitTree.streams {i : Nat} (h : EmitTree i s s') (hs : s.Streams drained before) :
    s'.Streams drained before := by
  cases h with
  | miss => exact hs.congr rfl rfl rfl
  | emit =>
    have hs' : s.readOne.Streams drained before := hs.congr rfl rfl rfl
    exact (hs'.send _ false).congr rfl rfl rfl

theorem emitData_streams (hs : s.Streams drained before) (i b : Nat) (f : ServerFile)
    (data : Bytes) (flush : Bool) :
    (s.emitData compress i b f data flush).Streams drained before := by
  have hm : ((s.readOne.countPacked (packBlock compress data).1).setFile i
      (f.markData b)).Streams drained before := by
    cases (packBlock compress data).1 <;> exact hs.congr rfl rfl rfl
  exact hm.send _ flush

theorem Emits.streams (h : Emits compress s s') (hs : s.Streams drained before) :
    s'.Streams drained before := by
  induction h with
  | refl => exact hs
  | tail _ hst ih =>
    cases hst with
    | tree hi h => exact h.streams ih
    | data => exact emitData_streams ih _ _ _ _ _

theorem Act.streams (h : Act compress s s') (hs : s.Streams drained before) :
    s'.Streams drained before := by
  cases h with
  | send hi h => exact (h.emits hi).streams hs
  | flush => exact hs.flush
  | done => exact (hs.send ⟨ResponseHeader.doneMarker, []⟩ true).congr rfl rfl rfl
  | keep => exact hs.congr rfl rfl rfl

end IncrementalServer

namespace IncrementalSession

variable {compress : Bytes → Bytes} {t t' : IncrementalSession} {a : IncrementalStep}

def Streams (t : IncrementalSession) : Prop := ∃ before, t.server.Streams t.drained before

/-- Every step keeps the stream a sequence of chunks. -/
theorem Stepped.streams (h : Stepped compress t a t') (hs : t.Streams) : t'.Streams := by
  obtain ⟨before, hs⟩ := hs
  obtain ⟨hd, ha⟩ | rfl := h.acts
  · refine ⟨before, ?_⟩
    rw [hd]
    exact ha.invariant IncrementalServer.Act.streams hs
  · obtain ⟨more, hs⟩ := hs.drain
    exact ⟨before ++ more, hs⟩

theorem start_streams (specs : List FileSpec) : (start specs).Streams := by
  refine ⟨[], [], [], rfl, rfl, rfl, rfl, ?_, (by decide : 4 + 0 ≤ chunkFlushSize)⟩
  intro c hc
  cases hc

end IncrementalSession

end AdbFastboot
