import AdbFastboot.DnsName

namespace AdbFastboot

section

variable {α β : Type}

def Returned (r : MdnsResult α) : Prop := r ≠ panicked ∧ r ≠ fail .running

@[simp] theorem returned_ok (a : α) : Returned (.ok a : MdnsResult α) := by
  simp [Returned, panicked, fail]

@[simp] theorem returned_parseError (text : String) : Returned (parseError text : MdnsResult α) := by
  simp [Returned, parseError, panicked, fail]

variable {f : α → MdnsResult β}

theorem Returned.bind {x : MdnsResult α} (hx : Returned x)
    (hf : ∀ a, x = .ok a → Returned (f a)) : Returned (x >>= f) := by
  cases x with
  | ok a => exact hf a rfl
  | error e => exact ⟨fun h => hx.1 (by cases h; rfl), fun h => hx.2 (by cases h; rfl)⟩

theorem Returned.of_bind {x : MdnsResult α} (h : Returned (x >>= f)) : Returned x := by
  cases x with
  | ok a => exact returned_ok a
  | error e => exact ⟨fun he => h.1 (by cases he; rfl), fun he => h.2 (by cases he; rfl)⟩

/-- With more turns a call that has come back does the same. -/
def Steady (x : Nat → MdnsResult α) : Prop :=
  ∀ fuel more, fuel ≤ more → x fuel ≠ fail .running → x more = x fuel

theorem steady_const (r : MdnsResult α) : Steady fun _ => r := fun _ _ _ _ => rfl

variable {x : Nat → MdnsResult α}

theorem Steady.bind {f : Nat → α → MdnsResult β} (hx : Steady x)
    (hf : ∀ a, Steady fun fuel => f fuel a) : Steady fun fuel => x fuel >>= f fuel := by
  intro fuel more hle hne
  have hft : x fuel ≠ fail .running := fun h => hne (by simp [h])
  have hm := hx fuel more hle hft
  change (x more >>= f more) = (x fuel >>= f fuel)
  rw [hm]
  cases hfl : x fuel with
  | error e => rfl
  | ok a =>
    refine hf a fuel more hle fun h => hne ?_
    change (x fuel >>= f fuel) = _
    rw [hfl]
    exact h

theorem Steady.ite {p : Prop} [Decidable p] {y : Nat → MdnsResult α} (hx : Steady x)
    (hy : Steady y) : Steady fun fuel => if p then x fuel else y fuel := by
  split
  next => exact hx
  next => exact hy

/-- A parser that returned does so with more fuel, too. -/
theorem Steady.returned (hx : Steady x) {fuel more : Nat} (h : Returned (x fuel))
    (hle : fuel ≤ more) : Returned (x more) := by
  rw [hx fuel more hle h.2]
  exact h

/-- A parser that panics with some fuel returns with none. -/
theorem Steady.not_returned (hx : Steady x) {fuel : Nat} (h : x fuel = panicked) (other : Nat) :
    ¬Returned (x other) := by
  intro hr
  rcases Nat.le_total fuel other with hle | hle
  · have hs := hx fuel other hle (by rw [h]; simp [panicked, fail])
    exact hr.1 (hs.trans h)
  · have hs := hx other fuel hle hr.2
    exact hr.1 (hs.symm.trans h)

theorem steady_runTurns {σ : Type} (turn : σ → LoopStep σ (MdnsResult α)) (s : σ) :
    Steady fun fuel => (runTurns turn fuel s).getD (fail .running) := by
  intro fuel more hle hne
  cases hr : runTurns turn fuel s with
  | none =>
    refine absurd ?_ hne
    change (runTurns turn fuel s).getD (fail .running) = _
    rw [hr]
    rfl
  | some r =>
    change (runTurns turn more s).getD (fail .running) = (runTurns turn fuel s).getD _
    rw [runTurns_mono hr hle, hr]

end

variable {data : Bytes} {fuel offset : Nat} {i : Nat}

theorem byteAt_ok (h : i < data.length) : byteAt data i = .ok data[i] := by
  rw [byteAt, List.getElem?_eq_getElem h]

theorem byteAt_panicked (h : data.length ≤ i) : byteAt data i = panicked := by
  rw [byteAt, List.getElem?_eq_none h]

theorem u16BeAt_ok (h : i + 2 ≤ data.length) :
    u16BeAt data i = .ok (UInt16.ofNat (beNat [data[i], data[i + 1]])) := by
  rw [u16BeAt, byteAt_ok (by omega), byteAt_ok (by omega)]
  rfl

theorem u32BeAt_ok (h : i + 4 ≤ data.length) : u32BeAt data i = .ok (UInt32.ofNat
      (beNat [data[i], data[i + 1], data[i + 2], data[i + 3]])) := by
  rw [u32BeAt, byteAt_ok (by omega), byteAt_ok (by omega), byteAt_ok (by omega),
    byteAt_ok (by omega)]
  rfl

theorem returned_u16BeAt_iff : Returned (u16BeAt data i) ↔ i + 2 ≤ data.length := by
  constructor
  · intro h
    by_contra hl
    by_cases hf : i < data.length
    · rw [u16BeAt, byteAt_ok hf, byteAt_panicked (by omega)] at h
      exact h.1 rfl
    · rw [u16BeAt, byteAt_panicked (by omega)] at h
      exact h.1 rfl
  · intro h
    rw [u16BeAt_ok h]
    exact returned_ok _

theorem returned_u32BeAt_iff : Returned (u32BeAt data i) ↔ i + 4 ≤ data.length := by
  constructor
  · intro h
    by_contra hl
    unfold u32BeAt at h
    by_cases h0 : i < data.length
    · rw [byteAt_ok h0, ok_bind] at h
      by_cases h1 : i + 1 < data.length
      · rw [byteAt_ok h1, ok_bind] at h
        by_cases h2 : i + 2 < data.length
        · rw [byteAt_ok h2, ok_bind, byteAt_panicked (by omega)] at h
          exact h.1 rfl
        · rw [byteAt_panicked (by omega)] at h
          exact h.1 rfl
      · rw [byteAt_panicked (by omega)] at h
        exact h.1 rfl
    · rw [byteAt_panicked (by omega)] at h
      exact h.1 rfl
  · intro h
    rw [u32BeAt_ok h]
    exact returned_ok _

def NameStep (data : Bytes) (offset next : Nat) : Prop :=
  ∃ len, data[offset]? = some len ∧
    ((isPointer len = true ∧ ∃ low, data[offset + 1]? = some low ∧ next = pointerTarget len low) ∨
      (isPointer len = false ∧ len ≠ 0 ∧ offset + 1 + len.toNat ≤ data.length ∧
        next = offset + 1 + len.toNat))

/-- No place in a packet is come to again from itself. -/
def NoNameLoop (data : Bytes) : Prop :=
  ∀ offset, ¬ Relation.TransGen (NameStep data) offset offset

def NoCutPointer (data : Bytes) : Prop :=
  ∀ len, data.getLast? = some len → isPointer len = false

/-- Skipping moves on within the data. -/
theorem skipTurn_next {next : Nat} (h : skipTurn data offset = .next next) :
    offset < next ∧ next ≤ data.length := by
  unfold skipTurn at h
  split at h
  next => cases h
  next len hl =>
    split at h
    next => cases h
    split at h
    next => cases h
    split at h
    next => cases h
    next hle =>
      cases h
      omega

theorem peekTurn_next {s s' : Nat × Nat} (h : peekTurn data s = .next s') :
    s.1 < data.length ∧ s.1 < s'.1 ∧ s'.1 + s.2 = s.1 + s'.2 := by
  unfold peekTurn at h
  split at h
  next => cases h
  next len hl =>
    obtain ⟨hlt, -⟩ := List.getElem?_eq_some_iff.mp hl
    split at h
    next => cases h
    split at h
    next => cases h
    cases h
    refine ⟨hlt, ?_, ?_⟩
    · change s.1 < s.1 + (1 + len.toNat)
      omega
    · change s.1 + (1 + len.toNat) + s.2 = s.1 + (s.2 + (1 + len.toNat))
      omega

/-- Decoding a name moves to a label behind, or along a pointer. -/
theorem decodeTurn_next {s s' : Nat × List Bytes} (h : decodeTurn data s = .next s') :
    s.1 < data.length ∧ NameStep data s.1 s'.1 := by
  unfold decodeTurn at h
  split at h
  next => cases h
  next len hl =>
    obtain ⟨hlt, -⟩ := List.getElem?_eq_some_iff.mp hl
    refine ⟨hlt, len, hl, ?_⟩
    split at h
    next hp =>
      split at h
      next => cases h
      next low hlow =>
        cases h
        exact .inl ⟨hp, low, hlow, rfl⟩
    next hp =>
      split at h
      next => cases h
      next hz =>
        split at h
        next => cases h
        next hle =>
          cases h
          exact .inr ⟨Bool.eq_false_iff.mpr hp, hz, by omega, rfl⟩

theorem decodeTurn_of_step {next : Nat} (h : NameStep data offset next) (labels : List Bytes) :
    ∃ labels', decodeTurn data (offset, labels) = .next (next, labels') := by
  obtain ⟨len, hl, ⟨hp, low, hlow, rfl⟩ | ⟨hp, hz, hle, rfl⟩⟩ := h
  · exact ⟨labels, by simp [decodeTurn, hl, hp, hlow]⟩
  · refine ⟨labels ++ [slice data (offset + 1) (offset + 1 + len.toNat)], ?_⟩
    simp [decodeTurn, hl, hp, hz, Nat.not_lt.mpr hle]

/-- A name that comes back to its start is decoded for ever. -/
theorem decodeLabels_loop (h : Relation.TransGen (NameStep data) offset offset) (fuel : Nat) :
    decodeLabels fuel data offset = fail .running := by
  have hn : runTurns (decodeTurn data) fuel (offset, []) = none := by
    refine runTurns_eq_none (fun s => Relation.TransGen (NameStep data) s.1 s.1) ?_ h fuel
    rintro ⟨place, labels⟩ hl
    obtain ⟨next, hs, hb⟩ := Relation.TransGen.head'_iff.mp hl
    obtain ⟨labels', ht⟩ := decodeTurn_of_step hs labels
    exact ⟨(next, labels'), ht, Relation.TransGen.tail' hb hs⟩
  rw [decodeLabels, hn]
  rfl

theorem decodeTurn_done (hc : NoCutPointer data) {s : Nat × List Bytes}
    {r : MdnsResult (List Bytes)} (h : decodeTurn data s = .done r) : Returned r := by
  unfold decodeTurn at h
  split at h
  next =>
    cases h
    exact returned_parseError _
  next len hl =>
    split at h
    next hp =>
      split at h
      next hn =>
        obtain ⟨hlt, hg⟩ := List.getElem?_eq_some_iff.mp hl
        have hls := List.getElem?_eq_none_iff.mp hn
        have hl' : data.getLast? = some len := by
          rw [List.getLast?_eq_getElem?, show data.length - 1 = s.1 by omega]
          exact hl
        rw [hc len hl'] at hp
        cases hp
      next => cases h
    next =>
      split at h
      next =>
        cases h
        exact returned_ok _
      split at h
      next =>
        cases h
        exact returned_parseError _
      next => cases h

/-- Without loops and cut pointers every name is decoded. -/
theorem returned_decodeLabels (hlp : NoNameLoop data) (hc : NoCutPointer data)
    (hf : data.length < fuel) (offset : Nat) : Returned (decodeLabels fuel data offset) := by
  have hl : ∀ s s' : Nat × List Bytes, decodeTurn data s = .next s' →
      s.1 < data.length ∧ NameStep data s.1 s'.1 := fun _ _ => decodeTurn_next
  obtain ⟨r, hr⟩ := runTurns_of_acyclic hl hlp (offset, [])
  obtain ⟨last, -, hls⟩ := runTurns_last (fun _ => True) (fun _ _ _ _ => trivial) trivial hr
  rw [decodeLabels, runTurns_mono hr (by omega)]
  exact decodeTurn_done hc hls

/-- A decoder that comes back at every offset has no loop of pointers before it, and no pointer that
is cut off. -/
theorem returned_decodeLabels_iff (data : Bytes) :
    (∀ offset, ∃ fuel, Returned (decodeLabels fuel data offset)) ↔
      NoNameLoop data ∧ NoCutPointer data := by
  constructor
  · intro h
    refine ⟨fun offset hl => ?_, fun len hls => ?_⟩
    · obtain ⟨fuel, hr⟩ := h offset
      exact hr.2 (decodeLabels_loop hl fuel)
    · by_contra hp
      obtain ⟨fuel, hr⟩ := h (data.length - 1)
      rw [List.getLast?_eq_getElem?] at hls
      have hn : data[data.length - 1 + 1]? = none := List.getElem?_eq_none (by omega)
      have ht : decodeTurn data (data.length - 1, []) = .done panicked := by
        have hp : isPointer len = true := by simpa using hp
        simp [decodeTurn, hls, hp, hn]
      cases fuel with
      | zero => exact hr.2 rfl
      | succ fuel =>
        rw [decodeLabels, runTurns_done ht] at hr
        exact hr.1 rfl
  · rintro ⟨hl, hc⟩ offset
    exact ⟨data.length + 1, returned_decodeLabels hl hc (Nat.lt_succ_self _) offset⟩

theorem steady_decodeLabels (data : Bytes) (offset : Nat) :
    Steady fun fuel => decodeLabels fuel data offset :=
  steady_runTurns (decodeTurn data) (offset, [])

theorem skipTurn_done {r : MdnsResult Nat} (h : skipTurn data offset = .done r) : Returned r := by
  unfold skipTurn at h
  split at h
  next =>
    cases h
    exact returned_parseError _
  split at h
  next =>
    cases h
    exact returned_ok _
  split at h
  next =>
    cases h
    exact returned_ok _
  split at h
  next =>
    cases h
    exact returned_parseError _
  next => cases h

theorem returned_skipDnsName (hf : data.length < fuel) (offset : Nat) :
    Returned (skipDnsName fuel data offset) := by
  have hl : ∀ place next, skipTurn data place = .next next →
      data.length - next < data.length - place := by
    intro place next ht
    have hs := skipTurn_next ht
    omega
  obtain ⟨r, hr⟩ := runTurns_of_measure (s := offset) hl (show data.length - offset < fuel by omega)
  obtain ⟨last, -, hls⟩ := runTurns_last (fun _ => True) (fun _ _ _ _ => trivial) trivial hr
  rw [skipDnsName, hr]
  exact skipTurn_done hls

theorem peekTurn_done {s : Nat × Nat} {r : MdnsResult (Nat × Nat)} (h : peekTurn data s = .done r) :
    Returned r ∧ ∀ pos name, r = .ok (pos, name) → s.1 < pos ∧ pos + s.2 = s.1 + name := by
  unfold peekTurn at h
  split at h
  next =>
    cases h
    exact ⟨returned_parseError _, fun _ _ h => by cases h⟩
  split at h
  next =>
    cases h
    refine ⟨returned_ok _, fun pos name h => ?_⟩
    cases h
    omega
  next =>
    split at h
    next =>
      cases h
      refine ⟨returned_ok _, fun pos name h => ?_⟩
      cases h
      omega
    next => cases h

def peekName (fuel : Nat) (data : Bytes) (offset : Nat) : MdnsResult (Nat × Nat) :=
  (runTurns (peekTurn data) fuel (offset, 0)).getD (fail .running)

theorem returned_peekName (hf : data.length < fuel) (offset : Nat) :
    Returned (peekName fuel data offset) := by
  have hl : ∀ s s', peekTurn data s = .next s' → data.length - s'.1 < data.length - s.1 := by
    intro s s' ht
    have hs := peekTurn_next ht
    omega
  obtain ⟨r, hr⟩ := runTurns_of_measure (s := (offset, 0)) hl
    (show data.length - offset < fuel by omega)
  obtain ⟨last, -, hls⟩ := runTurns_last (fun _ => True) (fun _ _ _ _ => trivial) trivial hr
  rw [peekName, hr]
  exact (peekTurn_done hls).1

/-- A name that was peeked takes as many bytes as were counted. -/
theorem peekName_ok {pos name : Nat} (h : peekName fuel data offset = .ok (pos, name)) :
    0 < name ∧ pos = offset + name := by
  cases hr : runTurns (peekTurn data) fuel (offset, 0) with
  | none =>
    rw [peekName, hr] at h
    cases h
  | some r =>
    rw [peekName, hr] at h
    obtain ⟨last, hi, hl⟩ := runTurns_last (fun s => offset ≤ s.1 ∧ s.1 = offset + s.2)
      (fun s s' hs ht => by
        have hst := peekTurn_next ht
        omega) ⟨Nat.le_refl _, rfl⟩ hr
    have hd := (peekTurn_done hl).2 pos name h
    omega

theorem peekDnsRecord_eq (fuel : Nat) (data : Bytes) (offset : Nat) : peekDnsRecord fuel data offset =
      if offset ≥ data.length then parseError "offset past end"
      else peekName fuel data offset >>= fun found =>
        if found.1 + 10 > data.length then parseError "not enough data for record header"
        else u16BeAt data (found.1 + 8) >>= fun rdlength =>
          if found.1 + 10 + rdlength.toNat - offset > data.length - offset then
            parseError "record extends past end of packet"
          else .ok (⟨found.1 + 10 + rdlength.toNat - offset, found.2⟩, rdlength.toNat) := rfl

theorem steady_peekDnsRecord (data : Bytes) (offset : Nat) :
    Steady fun fuel => peekDnsRecord fuel data offset := by
  refine (steady_const _).ite (Steady.bind (steady_runTurns (peekTurn data) (offset, 0)) fun _ => ?_)
  exact steady_const _

theorem returned_peekDnsRecord (hf : data.length < fuel) (offset : Nat) :
    Returned (peekDnsRecord fuel data offset) := by
  rw [peekDnsRecord_eq]
  split
  next => exact returned_parseError _
  refine (returned_peekName hf offset).bind fun found _ => ?_
  split
  next => exact returned_parseError _
  next hr =>
    refine (returned_u16BeAt_iff.mpr (by omega)).bind fun rdlength _ => ?_
    split
    next => exact returned_parseError _
    next => exact returned_ok _

/-- A peeked record lies within the data. -/
theorem peekDnsRecord_ok {rdlength : Nat} {name : DnsRecordPeek}
    (h : peekDnsRecord fuel data offset = .ok (name, rdlength)) :
    0 < name.lenDiff ∧ name.consumed = name.lenDiff + 10 + rdlength ∧
      offset + name.consumed ≤ data.length := by
  rw [peekDnsRecord_eq] at h
  split at h
  next => cases h
  next hlt =>
    obtain ⟨⟨pos, size⟩, hn, h⟩ := bind_eq_ok.mp h
    obtain ⟨hp, rfl⟩ := peekName_ok hn
    split at h
    next => cases h
    obtain ⟨len, hl, h⟩ := bind_eq_ok.mp h
    split at h
    next => cases h
    next hr =>
      cases h
      change 0 < size ∧ offset + size + 10 + len.toNat - offset = size + 10 + len.toNat ∧
        offset + (offset + size + 10 + len.toNat - offset) ≤ data.length
      omega

end AdbFastboot
