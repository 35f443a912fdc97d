import AdbFastboot.IncrementalServer
import AdbFastboot.StateCall

namespace AdbFastboot

open StateCall

def maxSignatureSize : Nat := 8096

structure IdSigHeaders where
  signature : Bytes
  treeSize : Int

/-- What is left of the stream, and how much has been read. -/
structure IdSigReader where
  rest : Bytes
  pos : Nat

abbrev IdSigCall := StateCall IdSigReader String

namespace IdSigReader

def skip (r : IdSigReader) (n : Nat) : IdSigReader := ⟨r.rest.drop n, r.pos + n⟩

def readExact (n : Nat) (failure : String) : IdSigCall Bytes :=
  .ofRun fun r =>
    if n ≤ r.rest.length then (.ok (r.rest.take n), r.skip n)
    else (.error failure, r.skip r.rest.length)

def readI32 (failure : String) : IdSigCall Int := do
  let buffer ← readExact 4 failure
  return asI32 (leNat buffer)

def appendBytesWithSize (signature : Bytes) (bytesLeft : Nat) : IdSigCall (Bytes × Nat) := do
  let size ← readI32 "Failed to read int: End of file"
  if size < 0 ∨ bytesLeft < size.toNat then throw s!"Invalid size {size}"
  else if size = 0 then return (signature, bytesLeft)
  else
    let data ← readExact size.toNat "Failed to read data: End of file"
    return (signature ++ leBytes 4 size.toNat ++ data, bytesLeft - size.toNat)

def readIdSigHeaders : IdSigCall IdSigHeaders := do
  let version ← readI32 "Failed to read int: End of file"
  let signature := leBytes 4 (version % 2 ^ 32).toNat
  let (signature, maxSize) ← appendBytesWithSize signature (maxSignatureSize - 4)
  let (signature, _) ← appendBytesWithSize signature maxSize
  let treeSize ← readI32 "Failed to read int: End of file"
  return ⟨signature, treeSize⟩

def skipBytesWithSize : IdSigCall Unit := do
  let size ← readI32 "Failed to read int: failed to fill whole buffer"
  if size < 0 then throw s!"Invalid size {size}"
  else if size = 0 then return
  else
    let _ ← readExact size.toNat "Failed to seek: failed to fill whole buffer"
    return

def skipIdSigHeaders : IdSigCall (Nat × Int) := do
  let _ ← readExact 4 "Failed to seek: failed to fill whole buffer"
  skipBytesWithSize
  skipBytesWithSize
  let treeSize ← readI32 "Failed to read int: failed to fill whole buffer"
  return ((← get).pos, treeSize)

def sizeAhead (r : IdSigReader) : Int := asI32 (leNat (r.rest.take 4))

variable {r r' : IdSigReader} {n left : Nat} {failure : String} {signature data : Bytes}

theorem readExact_of_le (h : n ≤ r.rest.length) :
    (readExact n failure).runOn r = (.ok (r.rest.take n), r.skip n) := if_pos h

theorem readExact_le (h : (readExact n failure).runOn r = (.ok data, r')) : n ≤ r.rest.length := by
  by_contra hs
  rw [readExact, runOn_ofRun, if_neg hs] at h
  cases (Prod.mk.inj h).1

theorem readI32_of_le (h : 4 ≤ r.rest.length) :
    (readI32 failure).runOn r = (.ok (sizeAhead r), r.skip 4) := runOn_bind_ok (readExact_of_le h)

theorem readI32_ok {size : Int} (h : (readI32 failure).runOn r = (.ok size, r')) :
    4 ≤ r.rest.length ∧ sizeAhead r = size ∧ r.skip 4 = r' := by
  obtain ⟨buffer, mid, hr, -⟩ := runOn_bind_eq_ok h
  have hl := readExact_le hr
  rw [readI32_of_le hl] at h
  obtain ⟨hs, hb⟩ := Prod.mk.inj h
  exact ⟨hl, Except.ok.inj hs, hb⟩

/-- A section that is read can be skipped. -/
theorem skip_of_append {out : Bytes × Nat}
    (h : (appendBytesWithSize signature left).runOn r = (.ok out, r')) :
    skipBytesWithSize.runOn r = (.ok (), r') := by
  obtain ⟨size, mid, hs, h⟩ := runOn_bind_eq_ok h
  obtain ⟨hl, ha, hm⟩ := readI32_ok hs
  rw [skipBytesWithSize, runOn_bind_ok (readI32_of_le hl), ha, hm]
  split at h
  next => cases (Prod.mk.inj h).1
  next hf =>
    rw [if_neg fun hn => hf (.inl hn)]
    split at h
    next hz =>
      rw [if_pos hz]
      exact Prod.ext rfl (Prod.mk.inj h).2
    next hp =>
      obtain ⟨data, behind, hd, h⟩ := runOn_bind_eq_ok h
      have hle := readExact_le hd
      rw [readExact_of_le hle] at hd
      rw [if_neg hp, runOn_bind_ok (readExact_of_le hle)]
      exact Prod.ext rfl ((Prod.mk.inj hd).2.trans (Prod.mk.inj h).2)

/-- A section that is skipped and fits in what is left can be read. -/
theorem append_of_skip (signature : Bytes) (h : skipBytesWithSize.runOn r = (.ok (), r'))
    (hlf : (sizeAhead r).toNat ≤ left) : (r.skip 4).skip (sizeAhead r).toNat = r' ∧
      ∃ signature', (appendBytesWithSize signature left).runOn r
        = (.ok (signature', left - (sizeAhead r).toNat), r') := by
  obtain ⟨size, mid, hs, h⟩ := runOn_bind_eq_ok h
  obtain ⟨hl, ha, hm⟩ := readI32_ok hs
  rw [appendBytesWithSize, runOn_bind_ok (readI32_of_le hl), ha, hm]
  split at h
  next => cases (Prod.mk.inj h).1
  next hn =>
    rw [if_neg (by omega)]
    split at h
    next hz =>
      have hb := (Prod.mk.inj h).2
      rw [if_pos hz, hz]
      exact ⟨hb, signature, Prod.ext rfl hb⟩
    next hp =>
      obtain ⟨data, behind, hd, h⟩ := runOn_bind_eq_ok h
      have hle := readExact_le hd
      rw [readExact_of_le hle] at hd
      have hb := (Prod.mk.inj hd).2.trans (Prod.mk.inj h).2
      rw [if_neg hp, runOn_bind_ok (readExact_of_le hle)]
      exact ⟨hb, _, Prod.ext rfl hb⟩

/-- How long the two sections together are, by the lengths before them. -/
def sectionsLength (r : IdSigReader) : Nat :=
  let hashing := r.skip 4
  let signing := (hashing.skip 4).skip (sizeAhead hashing).toNat
  (sizeAhead hashing).toNat + (sizeAhead signing).toNat

/-- The two parsers agree: what the one reads the other skips, with the same tree size and up to
where it has read, and what the one skips the other reads if the sections are not too long. -/
theorem id_sig_headers_agree (bytes : Bytes) :
    (∀ headers r, readIdSigHeaders.runOn ⟨bytes, 0⟩ = (.ok headers, r) →
        skipIdSigHeaders.runOn ⟨bytes, 0⟩ = (.ok (r.pos, headers.treeSize), r))
      ∧ ((∃ out r, skipIdSigHeaders.runOn ⟨bytes, 0⟩ = (.ok out, r)) →
        sectionsLength ⟨bytes, 0⟩ ≤ 8092 →
          ∃ headers r, readIdSigHeaders.runOn ⟨bytes, 0⟩ = (.ok headers, r)) := by
  constructor
  · intro headers r h
    obtain ⟨version, start, hv, h⟩ := runOn_bind_eq_ok h
    obtain ⟨⟨signature, left⟩, hashing, hh, h⟩ := runOn_bind_eq_ok h
    obtain ⟨⟨signature', left'⟩, signing, hsg, h⟩ := runOn_bind_eq_ok h
    obtain ⟨treeSize, last, ht, h⟩ := runOn_bind_eq_ok h
    obtain ⟨hl, -, hs⟩ := readI32_ok hv
    obtain ⟨hls, hsz, hb⟩ := readI32_ok ht
    obtain ⟨hhd, hr⟩ := Prod.mk.inj h
    rw [← hr, ← Except.ok.inj hhd, skipIdSigHeaders, runOn_bind_ok (readExact_of_le hl), hs,
      runOn_bind_ok (skip_of_append hh), runOn_bind_ok (skip_of_append hsg),
      runOn_bind_ok (readI32_of_le hls), hsz, hb]
    rfl
  · rintro ⟨out, r, h⟩ hln
    obtain ⟨version, start, hv, h⟩ := runOn_bind_eq_ok h
    obtain ⟨⟨⟩, hashing, hh, h⟩ := runOn_bind_eq_ok h
    obtain ⟨⟨⟩, signing, hsg, h⟩ := runOn_bind_eq_ok h
    obtain ⟨treeSize, last, ht, h⟩ := runOn_bind_eq_ok h
    have hl := readExact_le hv
    rw [readExact_of_le hl] at hv
    have hs := (Prod.mk.inj hv).2
    have ht := (readI32_ok ht).1
    rw [sectionsLength, hs] at hln
    obtain ⟨hb, signature, ha⟩ := append_of_skip
      (leBytes 4 (sizeAhead ⟨bytes, 0⟩ % 2 ^ 32).toNat) hh (Nat.le_of_add_right_le hln)
    rw [hb] at hln
    obtain ⟨-, signature', ha'⟩ := append_of_skip signature hsg (Nat.le_sub_of_add_le' hln)
    rw [readIdSigHeaders, runOn_bind_ok (readI32_of_le hl), hs]
    exact ⟨_, _, (runOn_bind_ok ha).trans ((runOn_bind_ok ha').trans
      (runOn_bind_ok (readI32_of_le ht)))⟩

/-- A version, sections of one and two bytes, and the size of the tree. -/
def shortHeaders : Bytes := leBytes 4 2 ++ (leBytes 4 1 ++ [7]) ++ (leBytes 4 2 ++ [8, 9]) ++ leBytes 4 4096

theorem id_sig_headers_agree_short : ∃ headers r,
    readIdSigHeaders.runOn ⟨shortHeaders, 0⟩ = (.ok headers, r)
      ∧ skipIdSigHeaders.runOn ⟨shortHeaders, 0⟩ = (.ok (r.pos, headers.treeSize), r) := by
  obtain ⟨hs, hr⟩ := id_sig_headers_agree shortHeaders
  obtain ⟨headers, r, h⟩ := hr ⟨_, _, rfl⟩ (by decide)
  exact ⟨headers, r, h, hs headers r h⟩

end IdSigReader

end AdbFastboot
