import AdbFastboot.Outcome

namespace AdbFastboot

open List

/-- The two options of `GlobalOptions` that ask for a patch. -/
structure GlobalOptions where
  disableVerity : Bool
  disableVerification : Bool
deriving DecidableEq, Repr

def GlobalOptions.needsVbmetaPatch (opts : GlobalOptions) : Bool :=
  opts.disableVerity || opts.disableVerification

/-- "AVB0" -/
def avbMagic : Bytes := [0x41, 0x56, 0x42, 0x30]

/-- "AVBf" -/
def avbFooterMagic : Bytes := [0x41, 0x56, 0x42, 0x66]

def avbFooterSize : Nat := 64

def vbmetaFlagsLsbOffset : Nat := 123

/-- `a + b` on a 64-bit `usize`: out of range it panics or wraps, as the profile says. -/
def addOffset (profile : Profile) (a b : Nat) : Outcome Unit Nat :=
  if a + b < 2 ^ 64 then .ok (a + b)
  else match profile with
    | .debug => panicked
    | .release => .ok ((a + b) % 2 ^ 64)

/-- The offset that the footer names, or 0 for an image that has none. -/
def vbmetaOffset (data : Bytes) : Nat :=
  let footer := data.drop (data.length - avbFooterSize)
  if avbFooterSize ≤ data.length ∧ slice footer 0 4 = avbFooterMagic then beNat (slice footer 8 16)
  else 0

def orByte (data : Bytes) (i : Nat) (bits : UInt8) : Bytes := data.modify i (· ||| bits)

def patchVbmetaFlags (profile : Profile) (data : Bytes) (opts : GlobalOptions) :
    Outcome Unit (Option Bytes) :=
  if !opts.needsVbmetaPatch || data.length < 256 then .ok none
  else do
    let magicEnd ← addOffset profile (vbmetaOffset data) 4
    if data.length < magicEnd then .ok none
    else do
      let magic ← sliceAt data (vbmetaOffset data) magicEnd
      if magic ≠ avbMagic then .ok none
      else do
        let flagsByte ← addOffset profile (vbmetaOffset data) vbmetaFlagsLsbOffset
        if data.length ≤ flagsByte then .ok none
        else
          let patched := if opts.disableVerity then orByte data flagsByte 0x01 else data
          .ok (some (if opts.disableVerification then orByte patched flagsByte 0x02 else patched))

def GlobalOptions.requestedBits (opts : GlobalOptions) : UInt8 :=
  (if opts.disableVerity then 0x01 else 0) ||| if opts.disableVerification then 0x02 else 0

/-- The image with the requested bits set in the lowest byte of the flags, of the header that stands
at the offset. -/
structure PatchesFlags (data : Bytes) (opts : GlobalOptions) (patched : Bytes) : Prop where
  header : slice data (vbmetaOffset data) (vbmetaOffset data + 4) = avbMagic
  length_eq : patched.length = data.length
  bytes : ∀ i, patched[i]? = if i = vbmetaOffset data + vbmetaFlagsLsbOffset then
    data[i]?.map (· ||| opts.requestedBits) else data[i]?

variable {profile : Profile} {data : Bytes} {opts : GlobalOptions}

theorem addOffset_ok {a b : Nat} (h : a + b < 2 ^ 64) : addOffset profile a b = .ok (a + b) := by
  unfold addOffset
  rw [if_pos h]

theorem vbmetaOffset_lt (data : Bytes) : vbmetaOffset data < 2 ^ 64 := by
  simp only [vbmetaOffset]
  split
  next => exact (beNat_lt _).trans_le (Nat.pow_le_pow_right (by decide) (length_take_le 8 _))
  next => decide

/-- The end of the magic is out of range, or before its start. -/
theorem magicEnd_panicked (ho : 2 ^ 64 ≤ vbmetaOffset data + 4) (hl : 256 ≤ data.length)
    (f : Bytes → Outcome Unit (Option Bytes)) :
    (do
      let magicEnd ← addOffset profile (vbmetaOffset data) 4
      if data.length < magicEnd then .ok none
      else do
        let magic ← sliceAt data (vbmetaOffset data) magicEnd
        f magic) = panicked := by
  have hlt := vbmetaOffset_lt data
  unfold addOffset
  rw [if_neg (by omega)]
  cases profile with
  | debug => rfl
  | release =>
    simp only [ok_bind]
    rw [if_neg (by omega), sliceAt, if_neg (by omega)]
    rfl

/-- The two options set their bits in one byte. -/
theorem orByte_bits (i : Nat) : (if opts.disableVerification then
        orByte (if opts.disableVerity then orByte data i 0x01 else data) i 0x02
      else if opts.disableVerity then orByte data i 0x01 else data)
      = orByte data i opts.requestedBits := by
  have hz : orByte data i 0 = data := by
    rw [orByte, show (fun x : UInt8 => x ||| 0) = id from funext fun _ => UInt8.or_zero]
    exact modify_id ..
  have hb : orByte (orByte data i 0x01) i 0x02 = orByte data i 0x03 := by
    rw [orByte, orByte, modify_modify_eq]
    congr 1
    funext x
    exact UInt8.or_assoc ..
  obtain ⟨_ | _, _ | _⟩ := opts
  · exact hz.symm
  · rfl
  · rfl
  · exact hb

/-- Setting the bits in the flags' byte patches the flags. -/
theorem patchesFlags_orByte (hm : slice data (vbmetaOffset data) (vbmetaOffset data + 4) = avbMagic) :
    PatchesFlags data opts
      (orByte data (vbmetaOffset data + vbmetaFlagsLsbOffset) opts.requestedBits) := by
  refine ⟨hm, length_modify .., fun i => ?_⟩
  rw [orByte, getElem?_modify]
  split
  next hi => simp [hi]
  next hi => simp [Ne.symm hi]

/-- The patch does not panic, and sets the requested bits and no other, exactly if the end of the
magic can be computed for the offset that the footer names. A slice has less than 2 ^ 63 bytes. -/
theorem patch_vbmeta_flags_iff (hlen : data.length < 2 ^ 63) :
    (NoPanic (patchVbmetaFlags profile data opts) ∧
      ∀ patched, patchVbmetaFlags profile data opts = .ok (some patched) →
        PatchesFlags data opts patched)
      ↔ (opts.needsVbmetaPatch = true → 256 ≤ data.length → vbmetaOffset data + 4 < 2 ^ 64) := by
  unfold patchVbmetaFlags
  split
  next hs =>
    refine iff_of_true ⟨noPanic_ok _, by simp⟩ ?_
    intro hn hl
    simp [hn] at hs
    omega
  next hn =>
    simp only [Bool.or_eq_true, Bool.not_eq_true', decide_eq_true_eq, not_or, Bool.not_eq_false,
      Nat.not_lt] at hn
    by_cases ho : vbmetaOffset data + 4 < 2 ^ 64
    · refine iff_of_true ?_ fun _ _ => ho
      rw [addOffset_ok ho, ok_bind]
      split
      next => exact ⟨noPanic_ok _, by simp⟩
      next hi =>
        rw [sliceAt_ok (by omega) (by omega), ok_bind]
        split
        next => exact ⟨noPanic_ok _, by simp⟩
        next hm =>
          rw [addOffset_ok (by rw [vbmetaFlagsLsbOffset]; omega), ok_bind]
          split
          next => exact ⟨noPanic_ok _, by simp⟩
          simp only [orByte_bits]
          refine ⟨noPanic_ok _, fun patched hp => ?_⟩
          cases hp
          exact patchesFlags_orByte (not_not.mp hm)
    · refine iff_of_false ?_ fun h => ho (h hn.1 hn.2)
      rw [magicEnd_panicked (by omega) hn.2]
      exact fun h => not_noPanic_panicked h.1

/-- An image of 256 bytes whose footer names the offset 2 ^ 64 - 4. -/
def farImage : Bytes :=
  List.replicate 192 0 ++ avbFooterMagic ++ List.replicate 4 0 ++ beBytes 8 (2 ^ 64 - 4)
    ++ List.replicate 48 0

/-- An offset in the footer near 2 ^ 64 makes the patch panic. -/
theorem patch_vbmeta_flags_far : patchVbmetaFlags .debug farImage ⟨true, false⟩ = panicked ∧
      patchVbmetaFlags .release farImage ⟨true, false⟩ = panicked := by
  decide +kernel

/-- A standalone image of 256 bytes. -/
def vbmetaImage : Bytes := avbMagic ++ List.replicate 252 0

theorem patch_vbmeta_flags_standalone :
    ∃ patched, patchVbmetaFlags .debug vbmetaImage ⟨true, true⟩ = .ok (some patched) ∧
      PatchesFlags vbmetaImage ⟨true, true⟩ patched := by
  have hp : patchVbmetaFlags .debug vbmetaImage ⟨true, true⟩
    = .ok (some (orByte vbmetaImage 123 0x03)) := by decide +kernel
  refine ⟨_, hp, ((patch_vbmeta_flags_iff ?_).mpr fun _ _ => ?_).2 _ hp⟩
  · decide +kernel
  · decide +kernel

end AdbFastboot
