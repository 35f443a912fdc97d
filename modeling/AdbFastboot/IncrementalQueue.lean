import AdbFastboot.IncrementalSend

namespace AdbFastboot

open ServerFile List PrefetchState

def PrefetchState.names (p : PrefetchState) (file : ServerFile) (b : Nat) : Bool :=
  decide (p.overallIndex ≤ b ∧ b < p.overallEnd)
    || (file.priorityBlocks.drop p.priorityIndex).any fun block => block.toInt == b

theorem PrefetchState.names_of_later {p p' : PrefetchState} {f : ServerFile} {b : Nat}
    (hst : p.overallIndex ≤ p'.overallIndex) (he : p'.overallEnd = p.overallEnd)
    (hp : p.priorityIndex ≤ p'.priorityIndex) (h : p'.names f b = true) :
    p.names f b = true := by
  simp only [names, Bool.or_eq_true, decide_eq_true_eq, any_eq_true] at h ⊢
  obtain ⟨hle, hlt⟩ | ⟨block, hm, hb⟩ := h
  · exact .inl ⟨by omega, by omega⟩
  · refine .inr ⟨block, ?_, hb⟩
    rw [← Nat.add_sub_cancel' hp, ← drop_drop] at hm
    exact mem_of_mem_drop hm

namespace IncrementalServer

variable {compress : Bytes → Bytes} {s s' : IncrementalServer} {i : Nat} {f : ServerFile}

def Sent (s : IncrementalServer) (i b : Nat) : Prop :=
  ∃ f, s.files[i]? = some f ∧ f.sentBlocks[b]? = some true

/-- Data block `b` of file `i` is one of those that a queued prefetch has before it. -/
def Ahead (s : IncrementalServer) (i b : Nat) : Prop :=
  ∃ p ∈ s.prefetches, p.fileIndex = i ∧ p.overallIndex ≤ b ∧ b < p.overallEnd

def AllReads (s : IncrementalServer) : Prop := ∀ f ∈ s.files, f.source.Reads

structure PrefetchOk (s : IncrementalServer) (p : PrefetchState) : Prop where
  small : p.fileIndex < 2 ^ 15
  start : 0 ≤ p.overallIndex
  fits : p.overallIndex < 2 ^ 31
  file : ∃ f, s.files[p.fileIndex]? = some f ∧ p.overallEnd ≤ f.sentBlocks.length

def QueueOk (s : IncrementalServer) : Prop := ∀ p ∈ s.prefetches, s.PrefetchOk p

variable {b : Nat} {budget budget' : Int}

theorem Sent.grown (h : s.Sent i b) (hg : Grown s s') : s'.Sent i b := by
  obtain ⟨f, hf, hfg⟩ := h
  obtain ⟨f', hf', -⟩ := hg.file hf
  exact ⟨f', hf', hg.sent hf hf' hfg⟩

variable {p : PrefetchState} {rest : List PrefetchState}

theorem PrefetchOk.grown (h : s.PrefetchOk p) (hg : Grown s s') : s'.PrefetchOk p := by
  obtain ⟨f, hf, he⟩ := h.file
  obtain ⟨f', hf', hb⟩ := hg.file hf
  refine ⟨h.small, h.start, h.fits, f', hf', ?_⟩
  rw [length_of_blank hb]
  exact he

theorem PrefetchOk.of_files (h : s.PrefetchOk p) (hfs : s'.files = s.files) : s'.PrefetchOk p := by
  obtain ⟨f, hf, he⟩ := h.file
  exact ⟨h.small, h.start, h.fits, f, by rw [hfs, hf], he⟩

theorem AllReads.of_blank (h : s.AllReads)
    (hb : s'.files.map ServerFile.blank = s.files.map ServerFile.blank) : s'.AllReads := by
  intro f' hf'
  obtain ⟨i, hfl'⟩ := mem_iff_getElem?.mp hf'
  have hm := congrArg (·[i]?) hb
  simp only [getElem?_map, hfl', Option.map_some] at hm
  obtain ⟨f, hfl, hb⟩ := Option.map_eq_some_iff.mp hm.symm
  rw [source_of_blank hb.symm]
  exact h f (mem_of_getElem? hfl)

theorem AllReads.grown (h : s.AllReads) (hg : Grown s s') : s'.AllReads := h.of_blank hg.blank

def Named (s : IncrementalServer) (i b : Nat) : Prop :=
  ∃ p ∈ s.prefetches, p.fileIndex = i ∧ ∃ f, s.files[i]? = some f ∧ p.names f b = true

theorem EmitTrees.sent_back {j : Nat} (h : EmitTrees i s s') (hsn : s'.Sent j b) : s.Sent j b := by
  obtain ⟨f', hf', hfg⟩ := hsn
  have hm := congrArg (·[j]?) h.blocks
  simp only [getElem?_map, hf', Option.map_some] at hm
  obtain ⟨f, hf, hb⟩ := Option.map_eq_some_iff.mp hm.symm
  exact ⟨f, hf, by rw [hb]; exact hfg⟩

/-- A data block that was sent is the one that was asked for. -/
theorem DataOut.sent_back {b : Int} {result : SendResult} {j k : Nat}
    (h : DataOut compress i b s result s') (hsn : s'.Sent j k) : s.Sent j k ∨ j = i ∧ b = k := by
  cases h with
  | skipped => exact .inl hsn
  | failed _ ht => exact .inl (ht.sent_back hsn)
  | @sent f f1 s1 n data flush hb hf ht hf1 =>
    by_cases hsm : j = i ∧ b = k
    · exact .inr hsm
    refine .inl (ht.sent_back ?_)
    obtain ⟨f', hf', hfg⟩ := hsn
    rw [emitData_files] at hf'
    by_cases hj : j = i
    · subst hj
      rw [List.getElem?_set_self (List.getElem?_eq_some_iff.mp hf1).1] at hf'
      cases hf'
      refine ⟨f1, hf1, ?_⟩
      have hk : n ≠ k := fun h => hsm ⟨rfl, by rw [hb, h]⟩
      exact (List.getElem?_set_ne hk).symm.trans hfg
    · rw [List.getElem?_set_ne (Ne.symm hj)] at hf'
      exact ⟨f', hf', hfg⟩

structure BlocksOut (compress : Bytes → Bytes) (i : Nat) (blockAt : Nat → Option Int)
    (s : IncrementalServer) (budget : Int) (index todo : Nat) (budget' : Int) (index' : Nat)
    (s' : IncrementalServer) : Prop where
  works : Works compress s s'
  le : index ≤ index'
  le_end : index' ≤ index + todo
  stops : budget' ≤ 0 ∨ index' = index + todo
  spends : budget' ≤ budget
  spent : (s'.unsent : Int) - budget' = s.unsent - budget
  marked : s.AllReads → ∀ k, index ≤ k → k < index' → ∀ b : Nat, blockAt k = some (b : Int) →
    ∀ f, s.files[i]? = some f → b < f.sentBlocks.length → s'.Sent i b
  back : ∀ j b, s'.Sent j b → s.Sent j b
    ∨ j = i ∧ ∃ k, index ≤ k ∧ k < index + todo ∧ blockAt k = some (b : Int)

theorem DataOut.sentBlock {result : SendResult} (h : DataOut compress i b s result s')
    (hi : i < 2 ^ 15) (hr : s.AllReads) (hf : s.files[i]? = some f)
    (hb : b < f.sentBlocks.length) : s'.Sent i b := by
  obtain ⟨f', hf', -⟩ := (h.emits hi).grown.file hf
  refine ⟨f', hf', ?_⟩
  exact h.marked hf hf' (hr f (mem_of_getElem? hf)) (Int.natCast_nonneg b) hb

/-- The loop sends blocks until the budget is spent or none is left. -/
theorem sendBlocks_spec (compress : Bytes → Bytes) (blockAt : Nat → Option Int)
    (todo : Nat) (budget : Int) (index : Nat) (hok : s.FilesOk) (hi : i < 2 ^ 15)
    (hbk : ∀ k, index ≤ k → k < index + todo → ∃ b, blockAt k = some b ∧ b < 2 ^ 31) :
    ∃ budget' index' s', sendBlocks compress i blockAt s todo budget index = some (budget', index', s')
      ∧ BlocksOut compress i blockAt s budget index todo budget' index' s' := by
  induction todo generalizing s budget index with
  | zero =>
    refine ⟨budget, index, s, rfl, .refl, Nat.le_refl _, Nat.le_refl _, .inr rfl,
      Int.le_refl _, rfl, ?_, fun _ _ h => .inl h⟩
    intro _ k hk hk'
    omega
  | succ todo ih =>
    unfold sendBlocks
    by_cases hbd : budget ≤ 0
    · refine ⟨budget, index, s, if_pos hbd, .refl, Nat.le_refl _, Nat.le_add_right _ _,
        .inl hbd, Int.le_refl _, rfl, ?_, fun _ _ h => .inl h⟩
      intro _ k hk hk'
      omega
    · obtain ⟨b, hb, hlt⟩ := hbk index (Nat.le_refl _) (by omega)
      obtain ⟨result, s1, hsd, ho⟩ := sendDataBlock_spec compress hok hi hlt false
      have hw : Work compress s s1 := .send hi ho
      obtain ⟨budget', index', s', hrun, hr⟩ := ih
        (if result = .sent then budget - 1 else budget) (index + 1) (hw.filesOk hok)
        (fun k hk hk' => hbk k (by omega) (by omega))
      have hi16 : asI16 (i : Int) = i := asI16_of_fits (by omega) (by omega)
      refine ⟨budget', index', s', ?_, .head hw hr.works, ?_, ?_, ?_, ?_, ?_, ?_, ?_⟩
      · rw [if_neg hbd, hb, hi16]
        simp only [Option.bind_eq_bind, Option.bind_some, hsd]
        exact hrun
      · have := hr.le
        omega
      · have := hr.le_end
        omega
      · obtain hstp | hstp := hr.stops
        · exact .inl hstp
        · exact .inr (by omega)
      · have hsn := hr.spends
        split at hsn <;> omega
      · have hsp := hr.spent
        have hu := ho.unsent
        split at hu
        next hst =>
          rw [if_pos hst] at hsp
          omega
        next hst =>
          rw [if_neg hst] at hsp
          omega
      · intro hrs k hk hk' b' hb' f hf hl
        by_cases hft : k = index
        · subst hft
          cases hb.symm.trans hb'
          exact (ho.sentBlock hi hrs hf hl).grown hr.works.grown
        · obtain ⟨f1, hf1, hbl⟩ := hw.grown.file hf
          rw [← length_of_blank hbl] at hl
          exact hr.marked (hrs.grown hw.grown) k (by omega) hk' b' hb' f1 hf1 hl
      · intro j b' hst
        obtain hst | ⟨rfl, k, hk, hk', hb'⟩ := hr.back j b' hst
        · obtain hst | ⟨rfl, rfl⟩ := ho.sent_back hst
          · exact .inl hst
          · exact .inr ⟨rfl, index, Nat.le_refl _, by omega, hb⟩
        · exact .inr ⟨rfl, k, by omega, by omega, hb'⟩

structure TurnOut (compress : Bytes → Bytes) (s : IncrementalServer) (p : PrefetchState)
    (rest : List PrefetchState) (budget budget' : Int) (s' : IncrementalServer) : Prop where
  works : Works compress s s'
  /-- The prefetch leaves the queue, unless no more may be sent. -/
  queue : s'.prefetches = rest
    ∨ budget' ≤ 0 ∧ ∃ p', s'.PrefetchOk p' ∧ s'.prefetches = p' :: rest
      ∧ p'.fileIndex = p.fileIndex ∧ ∀ f b, p'.names f b = true → p.names f b = true
  spent : (s'.unsent : Int) - budget' = s.unsent - budget
  covers : s.AllReads → ∀ b : Nat, p.overallIndex ≤ b → b < p.overallEnd →
    s'.Sent p.fileIndex b ∨ s'.Ahead p.fileIndex b
  back : ∀ j b, s'.Sent j b → s.Sent j b
    ∨ j = p.fileIndex ∧ ∃ f, s.files[j]? = some f ∧ p.names f b = true

/-- One turn sends of a prefetch what the budget allows, and requeues the rest. -/
theorem prefetchTurn_spec (compress : Bytes → Bytes) (rest : List PrefetchState)
    (budget : Int) (hok : s.FilesOk) (hp : s.PrefetchOk p) :
    ∃ budget' s', s.prefetchTurn compress p rest budget = some (budget', s')
      ∧ TurnOut compress s p rest budget budget' s' := by
  obtain ⟨f, hf, he⟩ := hp.file
  have hlen := (hok f (mem_of_getElem? hf)).length_lt
  have hst := hp.start
  have hft := hp.fits
  obtain ⟨budget1, priorityIndex, s1, hpr, ho1⟩ := sendBlocks_spec compress
    (fun i => (f.priorityBlocks[i]?).map Int32.toInt) (f.priorityBlocks.length - p.priorityIndex)
    budget p.priorityIndex hok hp.small
    (by
      intro k _ hk
      refine ⟨(f.priorityBlocks.get ⟨k, by omega⟩).toInt, ?_, Int32.toInt_lt _⟩
      rw [getElem?_eq_getElem (by omega)]
      rfl)
  obtain ⟨budget2, sent, s2, hov, ho2⟩ := sendBlocks_spec compress
    (fun i => checkedI32 (p.overallIndex + i)) (p.overallEnd - p.overallIndex).toNat budget1 0
    (ho1.works.filesOk hok) hp.small
    (by
      intro k _ hk
      exact ⟨p.overallIndex + k, checkedI32_of_fits (by omega) (by omega), by omega⟩)
  have hle := ho2.le_end
  have hw : Works compress s s2 := ho1.works.trans ho2.works
  obtain ⟨f2, hf2, hbl⟩ := hw.grown.file hf
  have hnx : checkedI32 (p.overallIndex + sent) = some (p.overallIndex + sent) :=
    checkedI32_of_fits (by omega) (by omega)
  let p' : PrefetchState :=
    { p with priorityIndex := priorityIndex, overallIndex := p.overallIndex + sent }
  let s3 : IncrementalServer :=
    { s2 with prefetches := if p'.done f2 then rest else p' :: rest }
  have htn : s.prefetchTurn compress p rest budget = some (budget2, s3) := by
    unfold prefetchTurn
    simp only [hf, hpr, hov, hnx, hf2, Option.bind_eq_bind, Option.bind_some]
    rfl
  have hl : Works compress s s3 := hw.tail (.requeue s2 _)
  have hd : p'.done f2 = false → budget2 ≤ 0 := by
    intro hd
    by_contra hm
    have ha2 := ho2.stops.resolve_left hm
    have ha1 := ho1.stops.resolve_left (fun h => hm (Int.le_trans ho2.spends h))
    have ht : p'.done f2 = true := by
      unfold done
      simp only [Bool.and_eq_true, Bool.or_eq_true, decide_eq_true_eq]
      refine ⟨?_, .inr ?_⟩
      · show p.overallEnd ≤ p.overallIndex + sent
        omega
      · rw [priorityBlocks_of_blank hbl]
        show f.priorityBlocks.length ≤ priorityIndex
        omega
    rw [ht] at hd
    cases hd
  refine ⟨budget2, s3, htn, hl, ?_, ?_, ?_, ?_⟩
  · cases hc : p'.done f2 with
    | true => exact .inl (if_pos hc)
    | false =>
      refine .inr ⟨hd hc, p', ⟨hp.small, ?_, ?_, f2, hf2, ?_⟩, ?_, rfl, ?_⟩
      · show 0 ≤ p.overallIndex + sent
        omega
      · show p.overallIndex + sent < 2 ^ 31
        omega
      · rw [length_of_blank hbl]
        exact he
      · show (if p'.done f2 then rest else p' :: rest) = _
        rw [hc]
        rfl
      · intro g b
        refine names_of_later ?_ rfl ho1.le
        show p.overallIndex ≤ p.overallIndex + sent
        omega
  · have hsp1 := ho1.spent
    have hsp2 := ho2.spent
    show (s2.unsent : Int) - budget2 = _
    omega
  · intro hr b hb hb'
    by_cases hd' : (b : Int) < p.overallIndex + sent
    · obtain ⟨f1, hf1, hbl1⟩ := ho1.works.grown.file hf
      refine .inl (ho2.marked (hr.grown ho1.works.grown) (b - p.overallIndex).toNat
        (Nat.zero_le _) (by omega) b ?_ f1 hf1 ?_)
      · have hi : p.overallIndex + ((b - p.overallIndex).toNat : Int) = b := by omega
        rw [hi]
        exact checkedI32_of_fits (by omega) (by omega)
      · rw [length_of_blank hbl1]
        omega
    · have hn : p'.done f2 = false := by
        rw [← Bool.not_eq_true]
        intro ht
        unfold done at ht
        simp only [Bool.and_eq_true, decide_eq_true_eq] at ht
        have hps : p.overallEnd ≤ p.overallIndex + sent := ht.1
        omega
      refine .inr ⟨p', ?_, rfl, Int.not_lt.mp hd', hb'⟩
      show p' ∈ (if p'.done f2 then rest else p' :: rest)
      rw [hn]
      exact mem_cons_self
  · intro j b hsn
    have hsn2 := hsn
    obtain hsn1 | ⟨rfl, k, -, hk, hb⟩ := ho2.back j b hsn2
    · obtain hsn | ⟨rfl, k, hk, -, hb⟩ := ho1.back j b hsn1
      · exact .inl hsn
      refine .inr ⟨rfl, f, hf, ?_⟩
      obtain ⟨block, hbk, hb⟩ := Option.map_eq_some_iff.mp hb
      rw [names, Bool.or_eq_true, any_eq_true]
      refine .inr ⟨block, ?_, beq_iff_eq.mpr hb⟩
      refine mem_iff_getElem?.mpr ⟨k - p.priorityIndex, ?_⟩
      rw [getElem?_drop, Nat.add_sub_cancel' hk, hbk]
    · refine .inr ⟨rfl, f, hf, ?_⟩
      obtain ⟨hb, -⟩ := checkedI32_eq_some hb
      rw [names, Bool.or_eq_true, decide_eq_true_eq]
      exact .inl ⟨by omega, by omega⟩

structure LoopOut (compress : Bytes → Bytes) (s : IncrementalServer) (budget : Int)
    (s' : IncrementalServer) : Prop where
  works : Works compress s s'
  queue : s'.QueueOk
  ends : s'.prefetches = [] ∨ (s'.unsent : Int) + budget ≤ s.unsent
  covers : s.AllReads → ∀ i b, s.Sent i b ∨ s.Ahead i b → s'.Sent i b ∨ s'.Ahead i b
  back : ∀ i b, s'.Sent i b → s.Sent i b ∨ s.Named i b

theorem LoopOut.stays (hq : s.QueueOk) (h : s.prefetches = [] ∨ budget ≤ 0) :
    LoopOut compress s budget s where
  works := .refl
  queue := hq
  ends := h.imp_right (by omega)
  covers _ _ _ h := h
  back _ _ h := .inl h

section

variable (h : TurnOut compress s p rest budget budget' s') (hs : s.prefetches = p :: rest)
include h hs

theorem TurnOut.named (hb : s'.Named i b) : s.Named i b := by
  obtain ⟨q, hq, rfl, f', hf', hn⟩ := hb
  obtain ⟨f, hf, hbl⟩ := h.works.grown.file_back hf'
  have hsm : ∀ q : PrefetchState, q.names f' b = q.names f b := by
    intro q
    rw [names, names, priorityBlocks_of_blank hbl]
  rw [hsm] at hn
  have hr : ∀ q ∈ rest, q ∈ s.prefetches := by
    intro q hq
    rw [hs]
    exact mem_cons_of_mem _ hq
  obtain hqu | ⟨-, p', -, hqu, hi, hl⟩ := h.queue
  · rw [hqu] at hq
    exact ⟨q, hr q hq, rfl, f, hf, hn⟩
  rw [hqu] at hq
  obtain rfl | hq := mem_cons.mp hq
  · refine ⟨p, ?_, hi.symm, f, hf, hl f b hn⟩
    rw [hs]
    exact mem_cons_self
  · exact ⟨q, hr q hq, rfl, f, hf, hn⟩

/-- No block ahead in the queue is lost in a turn. -/
theorem TurnOut.ahead (hrs : s.AllReads) (hb : s.Ahead i b) : s'.Sent i b ∨ s'.Ahead i b := by
  obtain ⟨q, hq, rfl, hle, hlt⟩ := hb
  rw [hs] at hq
  obtain rfl | hq := mem_cons.mp hq
  · exact h.covers hrs b hle hlt
  refine .inr ⟨q, ?_, rfl, hle, hlt⟩
  obtain hr | ⟨-, p', -, hr, -⟩ := h.queue
  · rw [hr]
    exact hq
  · rw [hr]
    exact mem_cons_of_mem _ hq

theorem TurnOut.queueOk (hq : s.QueueOk) : s'.QueueOk := by
  have hk : ∀ q ∈ rest, s'.PrefetchOk q := by
    intro q hm
    refine (hq q ?_).grown h.works.grown
    rw [hs]
    exact mem_cons_of_mem _ hm
  intro q hm
  obtain hr | ⟨-, p', hp', hr, -⟩ := h.queue
  · rw [hr] at hm
    exact hk q hm
  rw [hr] at hm
  obtain rfl | hm := mem_cons.mp hm
  · exact hp'
  · exact hk q hm

end

/-- Each turn takes a prefetch from the queue or is the last, so the turns are enough. -/
theorem prefetchLoop_spec (compress : Bytes → Bytes) {turns : Nat} (budget : Int)
    (hok : s.FilesOk) (hq : s.QueueOk)
    (htr : s.prefetches.length < turns ∨ budget ≤ 0 ∧ 0 < turns) :
    ∃ s', prefetchLoop compress s turns budget = some s' ∧ LoopOut compress s budget s' := by
  induction turns generalizing s budget with
  | zero => omega
  | succ turns ih =>
    unfold prefetchLoop
    cases hs : s.prefetches with
    | nil => exact ⟨s, rfl, .stays hq (.inl hs)⟩
    | cons p rest =>
      by_cases hbd : budget ≤ 0
      · exact ⟨s, if_pos hbd, .stays hq (.inr hbd)⟩
      obtain ⟨budget1, s1, ht, ho⟩ := prefetchTurn_spec compress rest budget hok
        (hq p (by rw [hs]; exact mem_cons_self))
      obtain ⟨s', hl, hr⟩ := ih budget1 (ho.works.filesOk hok) (ho.queueOk hs hq) (by
          rw [hs, length_cons] at htr
          obtain hqu | ⟨hst, -⟩ := ho.queue
          · rw [hqu]
            omega
          · exact .inr ⟨hst, by omega⟩)
      refine ⟨s', ?_, ho.works.trans hr.works, hr.queue, ?_, ?_, ?_⟩
      · simp only [if_neg hbd, ht, Option.bind_eq_bind, Option.bind_some]
        exact hl
      · have hsp := ho.spent
        exact hr.ends.imp_right (by omega)
      · intro hrs i b hb
        refine hr.covers (hrs.grown ho.works.grown) i b ?_
        obtain hsn | ha := hb
        · exact .inl (hsn.grown ho.works.grown)
        · exact ho.ahead hs hrs ha
      · intro i b hsn
        obtain hsn | hn := hr.back i b hsn
        · obtain hsn | ⟨rfl, f, hf, hns⟩ := ho.back i b hsn
          · exact .inl hsn
          · refine .inr ⟨p, ?_, rfl, f, hf, hns⟩
            rw [hs]
            exact mem_cons_self
        · exact .inr (ho.named hs hn)

theorem runPrefetching_spec (compress : Bytes → Bytes) (ho : s.FilesOk) (hq : s.QueueOk) :
    ∃ s', s.runPrefetching compress = some s' ∧ LoopOut compress s 128 s' :=
  prefetchLoop_spec compress 128 ho hq (.inl (Nat.lt_succ_self _))

end IncrementalServer

end AdbFastboot
