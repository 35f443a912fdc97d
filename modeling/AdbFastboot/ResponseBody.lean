import AdbFastboot.Response

namespace AdbFastboot

def fbPrefixes : List Bytes := [okayTag, failTag, dataTag, infoTag, textTag]

def isFbPrefix (buf : Bytes) : Bool :=
  if buf.length < 4 then false else fbPrefixes.any fun p => buf.take 4 == p

def isPartialPrefix (buf : Bytes) : Bool :=
  if buf = [] ∨ 4 ≤ buf.length then false else fbPrefixes.any fun p => buf.isPrefixOf p

def bodyEnd (body : Bytes) : Nat :=
  match (List.range (body.length - 3)).find? fun i => isFbPrefix (body.drop i) with
  | some i => i
  | none =>
    match (List.range' (body.length - 3) (body.length - (body.length - 3))).find?
        fun j => isPartialPrefix (body.drop j) with
    | some j => j
    | none => body.length

def parseOneResponse (buf : Bytes) : Except FastbootResponseError (FastbootResponse × Nat) :=
  if buf.length < 4 then .error .tooShort else
  let tag := buf.take 4
  if tag = dataTag then
    if buf.length < 12 then .error .tooShort
    else (FastbootResponse.parse (buf.take 12)).map fun resp => (resp, 12)
  else if tag = okayTag ∨ tag = failTag ∨ tag = infoTag ∨ tag = textTag then
    let total := 4 + bodyEnd (buf.drop 4)
    (FastbootResponse.parse (buf.take total)).map fun resp => (resp, total)
  else .error (.unknownPrefix (tagText tag))

/-- The accumulated bytes from the next prefix on and `true`, or what is kept of them until more
bytes arrive and `false`. -/
def resync (accum : Bytes) : Bool × Bytes :=
  if isFbPrefix accum then (true, accum)
  else match (List.range' 1 (accum.length - 1)).find? fun i => isFbPrefix (accum.drop i) with
    | some pos => (true, accum.drop pos)
    | none =>
      match (List.range accum.length).find?
          fun j => accum.length - j < 4 && isPartialPrefix (accum.drop j) with
      | some pos => (false, accum.drop pos)
      | none => (false, [])

def FastbootResponse.log? : FastbootResponse → Option String
  | .info msg => some msg
  | .text msg => some msg
  | _ => none

inductive Scanned where
  | done (resp : FastbootResponse) (logs : List String)
  | more (accum : Bytes) (logs : List String)

def Scanned.logs : Scanned → List String
  | .done _ logs => logs
  | .more _ logs => logs

theorem parseOneResponse_consumed {buf : Bytes} {resp : FastbootResponse} {n : Nat}
    (h : parseOneResponse buf = .ok (resp, n)) : 4 ≤ n := by
  have hm {x : Except FastbootResponseError FastbootResponse} {m : Nat}
      (hx : x.map (fun resp => (resp, m)) = .ok (resp, n)) : m = n := by
    cases x with
    | error e => simp [Except.map] at hx
    | ok r =>
      simp only [Except.map, Except.ok.injEq, Prod.mk.injEq] at hx
      exact hx.2
  unfold parseOneResponse at h
  split at h
  next => simp at h
  simp only at h
  split at h
  next =>
    split at h
    next => simp at h
    next => have := hm h; omega
  split at h
  next => have := hm h; omega
  next => simp at h

theorem resync_length (accum : Bytes) : (resync accum).2.length ≤ accum.length := by
  unfold resync
  repeat' split
  all_goals simp

theorem resync_drop_lt {accum : Bytes} (h : accum ≠ []) {n : Nat} (hn : 1 ≤ n) :
    ((resync accum).2.drop n).length < accum.length := by
  have hle := resync_length accum
  have hp := List.length_pos_iff.mpr h
  rw [List.length_drop]
  omega

def scan (accum : Bytes) (logs : List String) : Scanned :=
  if _he : accum = [] then .more accum logs
  else if (resync accum).1 then
    match _hp : parseOneResponse (resync accum).2 with
    | .ok (resp, consumed) =>
      match resp.log? with
      | some msg => scan ((resync accum).2.drop consumed) (logs ++ [msg])
      | none => .done resp logs
    | .error .tooShort => .more (resync accum).2 logs
    | .error _ => scan ((resync accum).2.drop 1) logs
  else .more (resync accum).2 logs
termination_by accum.length
decreasing_by
  · exact resync_drop_lt _he (by have := parseOneResponse_consumed _hp; omega)
  · exact resync_drop_lt _he (Nat.le_refl 1)

open List

/-- A body in which the scanner sees neither a prefix nor the start of one at its end. -/
def Unmarked (body : Bytes) : Prop :=
  ∀ i, isFbPrefix (body.drop i) = false ∧ isPartialPrefix (body.drop i) = false

/-- A body is unmarked exactly if no place in it looks like a tag. -/
theorem unmarked_iff (body : Bytes) : Unmarked body ↔ ∀ i < body.length,
    isFbPrefix (body.drop i) = false ∧ isPartialPrefix (body.drop i) = false := by
  refine ⟨fun h i _ => h i, fun h i => ?_⟩
  by_cases hi : i < body.length
  · exact h i hi
  · rw [drop_eq_nil_of_le (by omega)]
    exact ⟨rfl, rfl⟩

instance (body : Bytes) : Decidable (Unmarked body) :=
  decidable_of_iff' _ (unmarked_iff body)

variable {body bs : Bytes}

theorem bodyEnd_unmarked (h : Unmarked body) : bodyEnd body = body.length := by
  unfold bodyEnd
  rw [find?_eq_none.mpr fun i _ => by simp [(h i).1]]
  rw [find?_eq_none.mpr fun j _ => by simp [(h j).2]]

theorem isFbPrefix_length (h : isFbPrefix bs = true) : 4 ≤ bs.length := by
  unfold isFbPrefix at h
  split at h
  next => simp at h
  next hl => omega

theorem isPartialPrefix_length (h : isPartialPrefix bs = true) : bs ≠ [] ∧ bs.length < 4 := by
  unfold isPartialPrefix at h
  split at h
  next => simp at h
  next hl =>
    obtain ⟨hne, hlt⟩ := not_or.mp hl
    exact ⟨hne, by omega⟩

theorem fbPrefixes_ascii {p : Bytes} (h : p ∈ fbPrefixes) :
    ∃ x rest, p = x :: rest ∧ x.toNat < 0x80 := by
  simp only [fbPrefixes, mem_cons, not_mem_nil, or_false] at h
  rcases h with rfl | rfl | rfl | rfl | rfl
  all_goals exact ⟨_, _, rfl, by decide⟩

theorem marked_head (h : isFbPrefix bs = true ∨ isPartialPrefix bs = true) :
    ∃ x rest, bs = x :: rest ∧ x.toNat < 0x80 := by
  rcases h with h | h
  · have hl := isFbPrefix_length h
    unfold isFbPrefix at h
    rw [if_neg (by omega)] at h
    obtain ⟨p, hp, he⟩ := any_eq_true.mp h
    obtain ⟨x, rest, rfl, hx⟩ := fbPrefixes_ascii hp
    cases bs with
    | nil => simp at hl
    | cons b bs =>
      have hb : b = x := by
        have := eq_of_beq he
        simp only [take_succ_cons, cons.injEq] at this
        exact this.1
      exact ⟨b, bs, rfl, by rw [hb]; exact hx⟩
  · obtain ⟨hne, hl⟩ := isPartialPrefix_length h
    unfold isPartialPrefix at h
    rw [if_neg (by simp [hne]; omega)] at h
    obtain ⟨p, hp, he⟩ := any_eq_true.mp h
    obtain ⟨x, rest, rfl, hx⟩ := fbPrefixes_ascii hp
    cases bs with
    | nil => exact absurd rfl hne
    | cons b bs =>
      have hb : b = x := by
        simp only [isPrefixOf, Bool.and_eq_true] at he
        exact eq_of_beq he.1
      exact ⟨b, bs, rfl, by rw [hb]; exact hx⟩

/-- A marked body is cut where it looks like a tag. -/
theorem bodyEnd_marks (h : ¬Unmarked body) : isFbPrefix (body.drop (bodyEnd body)) = true ∨
      isPartialPrefix (body.drop (bodyEnd body)) = true := by
  unfold bodyEnd
  split
  next i hi => exact Or.inl (by simpa using find?_some hi)
  next hn =>
    split
    next j hj => exact Or.inr (by simpa using find?_some hj)
    next hn' =>
      refine absurd (fun i => ⟨?_, ?_⟩) h
      · by_contra hi
        have ht : isFbPrefix (body.drop i) = true := by simpa using hi
        have hl := isFbPrefix_length ht
        rw [length_drop] at hl
        exact absurd ht (by
          simpa using find?_eq_none.mp hn i (mem_range.mpr (by omega)))
      · by_contra hi
        have ht : isPartialPrefix (body.drop i) = true := by simpa using hi
        obtain ⟨hne, hl⟩ := isPartialPrefix_length ht
        have hp := length_pos_iff.mpr hne
        rw [length_drop] at hl hp
        exact absurd ht (by
          simpa using find?_eq_none.mp hn' i (mem_range'_1.mpr ⟨by omega, by omega⟩))

/-- The text of a body that is cut is not the text of the body. -/
theorem bodyEnd_cuts (h : ¬Unmarked body) :
    fromUtf8Lossy (body.take (bodyEnd body)) ≠ fromUtf8Lossy body := by
  obtain ⟨x, rest, hd, hx⟩ := marked_head (bodyEnd_marks h)
  have hb := take_append_drop (bodyEnd body) body
  rw [hd] at hb
  have hne := fromUtf8Lossy_append_ascii_ne hx (body.take (bodyEnd body)) rest
  rwa [hb] at hne

section

variable {tag : Bytes} {mk : String → FastbootResponse}

theorem TextTag.isFbPrefix (h : TextTag tag mk) (body : Bytes) : isFbPrefix (tag ++ body) = true := by
  cases h <;> rfl

/-- A response ends at the first place of its body that looks like a tag. -/
theorem parseOneResponse_text (h : TextTag tag mk) (body : Bytes) : parseOneResponse (tag ++ body)
      = .ok (mk (fromUtf8Lossy (body.take (bodyEnd body))), 4 + bodyEnd body) := by
  have ht : (tag ++ body).take 4 = tag := take_left' h.length
  have hd : (tag ++ body).drop 4 = body := drop_left' h.length
  have htl : (tag ++ body).take (4 + bodyEnd body) = tag ++ body.take (bodyEnd body) := by
    rw [← h.length, take_length_add_append]
  have hl : ¬(tag ++ body).length < 4 := by
    rw [length_append, h.length]
    omega
  have hdt : tag ≠ dataTag := by cases h <;> decide
  have htx : tag = okayTag ∨ tag = failTag ∨ tag = infoTag ∨ tag = textTag := by
    cases h <;> simp
  unfold parseOneResponse
  simp only [ht, hd]
  rw [if_neg hl, if_neg hdt, if_pos htx, htl, parse_text h]
  rfl

theorem resync_at_tag {accum : Bytes} (h : AdbFastboot.isFbPrefix accum = true) :
    resync accum = (true, accum) := by
  rw [resync, if_pos h]

/-- A response at the front is a log, or ends the scan. -/
theorem scan_response {accum : Bytes} {resp : FastbootResponse} {n : Nat}
    (ht : AdbFastboot.isFbPrefix accum = true) (hps : parseOneResponse accum = .ok (resp, n))
    (logs : List String) :
    scan accum logs = match resp.log? with
      | some msg => scan (accum.drop n) (logs ++ [msg])
      | none => .done resp logs := by
  have hne : accum ≠ [] := by
    rintro rfl
    exact absurd (isFbPrefix_length ht) (by decide)
  rw [scan, dif_neg hne, resync_at_tag ht, if_pos rfl]
  split
  next resp' n' hp =>
    obtain ⟨rfl, rfl⟩ := Prod.mk.inj (Except.ok.inj (hps.symm.trans hp))
    rfl
  next hp => exact absurd (hps.symm.trans hp) (by simp)
  next hp => exact absurd (hps.symm.trans hp) (by simp)

theorem scan_log (h : TextTag tag mk) (hl : mk = .info ∨ mk = .text) (body : Bytes)
    (logs : List String) :
    scan (tag ++ body) logs = scan (body.drop (bodyEnd body))
      (logs ++ [fromUtf8Lossy (body.take (bodyEnd body))]) := by
  have hd : (tag ++ body).drop (4 + bodyEnd body) = body.drop (bodyEnd body) := by
    rw [← h.length, drop_length_add_append]
  rw [scan_response (h.isFbPrefix body) (parseOneResponse_text h body), hd]
  rcases hl with rfl | rfl <;> rfl

theorem scan_status (h : TextTag tag mk) (hs : mk = .okay ∨ mk = .fail)
    (body : Bytes) (logs : List String) :
    scan (tag ++ body) logs = .done (mk (fromUtf8Lossy (body.take (bodyEnd body)))) logs := by
  rw [scan_response (h.isFbPrefix body) (parseOneResponse_text h body)]
  rcases hs with rfl | rfl <;> rfl

end

theorem scan_data {digits : Bytes} (hl : digits.length = 8)
    (hh : ∀ b ∈ digits, IsHexByte b) (logs : List String) :
    ∃ size, FastbootResponse.parse (dataTag ++ digits) = .ok (.data size) ∧
      scan (dataTag ++ digits) logs = .done (.data size) logs := by
  obtain ⟨size, hp⟩ := parse_data hl hh
  have hf : (dataTag ++ digits).length = 12 := by simp [dataTag, hl]
  have ht : (dataTag ++ digits).take 4 = dataTag := rfl
  have ho : parseOneResponse (dataTag ++ digits) = .ok (.data size, 12) := by
    unfold parseOneResponse
    simp only [ht]
    rw [if_neg (by omega), if_pos trivial, if_neg (by omega), take_of_length_le (by omega), hp]
    rfl
  have hpr : isFbPrefix (dataTag ++ digits) = true := by
    rfl
  exact ⟨size, hp, scan_response hpr ho logs⟩

/-- A scan only adds to the logs. -/
theorem scan_logs (accum : Bytes) (logs : List String) :
    ∃ more, (scan accum logs).logs = logs ++ more := by
  induction hn : accum.length using Nat.strongRecOn generalizing accum logs with
  | ind n ih =>
    rw [scan]
    split
    next => exact ⟨[], (append_nil logs).symm⟩
    next he =>
      have hnx (k : Nat) (hk : 1 ≤ k) (logs : List String) :
          ∃ more, (scan ((resync accum).2.drop k) logs).logs = logs ++ more :=
        ih _ (by rw [← hn]; exact resync_drop_lt he hk) _ logs rfl
      split
      next hr =>
        split
        next resp consumed hp =>
          split
          next msg _ =>
            obtain ⟨more, hm⟩ := hnx consumed
              (by have := parseOneResponse_consumed hp; omega) (logs ++ [msg])
            exact ⟨msg :: more, by rw [hm, append_assoc, singleton_append]⟩
          next => exact ⟨[], (append_nil logs).symm⟩
        next => exact ⟨[], (append_nil logs).symm⟩
        next => exact hnx 1 (Nat.le_refl 1) logs
      next => exact ⟨[], (append_nil logs).symm⟩

end AdbFastboot
