import Mathlib.Data.List.Nodup
import Mathlib.Logic.Function.Basic
import AdbFastboot.Bytes

namespace AdbFastboot

section

structure Nonce where
  bytes : Bytes
  length_eq : bytes.length = 12
deriving DecidableEq

/-- The AES-128-GCM of the crypto library: it takes plaintexts up to a limit, and opens nothing that
has a wrong tag. -/
structure Aead (Key : Type) where
  maxInput : Nat
  sealInPlace : Key → Nonce → Bytes → Bytes
  openInPlace : Key → Nonce → Bytes → Option Bytes

/-- A ciphertext is decrypted exactly when the key and the nonce match. -/
structure Aead.Exact {Key : Type} (aead : Aead Key) : Prop where
  open_seal : ∀ key nonce plain,
    aead.openInPlace key nonce (aead.sealInPlace key nonce plain) = some plain
  open_other : ∀ key nonce key' nonce' plain, (key', nonce') ≠ (key, nonce) →
    aead.openInPlace key' nonce' (aead.sealInPlace key nonce plain) = none

inductive PairingError where
  | crypto (text : String)
deriving DecidableEq, Repr

structure PairingCipher (Key : Type) where
  key : Key
  sequence : UInt64

def nextSequence (sequence : UInt64) : Option UInt64 :=
  if sequence.toNat + 1 < 2 ^ 64 then some (sequence + 1) else none

def sequenceNonce (sequence : UInt64) : Nonce where
  bytes := u64Le sequence ++ List.replicate 4 0
  length_eq := by simp

namespace PairingCipher

variable {Key : Type}

def fromSpake2Key (hkdf : Bytes → Key) (keyMaterial : Bytes) :
    Except PairingError (PairingCipher Key) :=
  if keyMaterial.isEmpty then .error (.crypto "empty SPAKE2 key material")
  else .ok ⟨hkdf keyMaterial, 0⟩

def nonce (c : PairingCipher Key) : Nonce := sequenceNonce c.sequence

def encrypt (aead : Aead Key) (c : PairingCipher Key) (plaintext : Bytes) :
    Except PairingError Bytes × PairingCipher Key :=
  if aead.maxInput < plaintext.length then (.error (.crypto "AES-GCM encryption failed"), c)
  else
    match nextSequence c.sequence with
    | none => (.error (.crypto "sequence exhausted"), c)
    | some sequence =>
      (.ok (aead.sealInPlace c.key c.nonce plaintext), { c with sequence := sequence })

def decrypt (aead : Aead Key) (c : PairingCipher Key) (ciphertext : Bytes) :
    Except PairingError Bytes × PairingCipher Key :=
  match aead.openInPlace c.key c.nonce ciphertext with
  | none => (.error (.crypto "AES-GCM decryption failed"), c)
  | some plain =>
    match nextSequence c.sequence with
    | none => (.error (.crypto "sequence exhausted"), c)
    | some sequence => (.ok plain, { c with sequence := sequence })

end PairingCipher

variable {a : UInt64}

/-- Different sequence numbers make different nonces. -/
theorem sequenceNonce_injective {b : UInt64} (h : sequenceNonce a = sequenceNonce b) : a = b := by
  have hb := List.append_cancel_right (congrArg Nonce.bytes h)
  rw [← u64OfLe_u64Le a, hb, u64OfLe_u64Le]

theorem nextSequence_lt (h : a.toNat + 1 < 2 ^ 64) :
    nextSequence a = some (a + 1) ∧ (a + 1).toNat = a.toNat + 1 := by
  refine ⟨if_pos h, ?_⟩
  rw [UInt64.toNat_add, UInt64.toNat_one, Nat.mod_eq_of_lt h]

theorem nextSequence_last (h : a.toNat + 1 = 2 ^ 64) : nextSequence a = none :=
  if_neg (by omega)

end

open List

inductive Peer where
  | client
  | server
deriving DecidableEq, Repr

def Peer.other : Peer → Peer
  | .client => .server
  | .server => .client

@[simp] theorem Peer.other_other (p : Peer) : p.other.other = p := by cases p <;> rfl

theorem Peer.other_ne (p : Peer) : p.other ≠ p := by cases p <;> simp [Peer.other]

theorem Peer.eq_or_eq_other (p q : Peer) : p = q ∨ p = q.other := by
  cases p <;> cases q <;> simp [Peer.other]

structure Sealed where
  ciphertext : Bytes
  plaintext : Bytes

/-- Two peers and what they have sent each other. `nonces` are those of all encryptions so far, and
`opened` pairs each plaintext with what its decryption has returned. -/
structure Duplex (Key : Type) where
  cipher : Peer → PairingCipher Key
  inbox : Peer → List Sealed
  nonces : List Nonce
  opened : List (Bytes × Except PairingError Bytes)

inductive DuplexCall where
  | encrypt (peer : Peer) (plaintext : Bytes)
  | decrypt (peer : Peer)

namespace Duplex

variable {Key : Type} (aead : Aead Key)

def start (cipher : PairingCipher Key) : Duplex Key where
  cipher := fun _ => cipher
  inbox := fun _ => []
  nonces := []
  opened := []

def sent (plaintext : Bytes) : Except PairingError Bytes → List Sealed
  | .ok ciphertext => [⟨ciphertext, plaintext⟩]
  | .error _ => []

def encrypt (s : Duplex Key) (peer : Peer) (plaintext : Bytes) : Duplex Key :=
  let result := (s.cipher peer).encrypt aead plaintext
  { s with
    cipher := Function.update s.cipher peer result.2
    inbox := Function.update s.inbox peer.other (s.inbox peer.other ++ sent plaintext result.1)
    nonces := if aead.maxInput < plaintext.length then s.nonces
      else s.nonces ++ [(s.cipher peer).nonce] }

variable (s : Duplex Key)

theorem encrypt_cipher (peer : Peer) (plaintext : Bytes) : (s.encrypt aead peer plaintext).cipher
      = Function.update s.cipher peer ((s.cipher peer).encrypt aead plaintext).2 := rfl

theorem encrypt_inbox (peer : Peer) (plaintext : Bytes) :
    (s.encrypt aead peer plaintext).inbox = Function.update s.inbox peer.other
      (s.inbox peer.other ++ sent plaintext ((s.cipher peer).encrypt aead plaintext).1) := rfl

theorem encrypt_nonces {peer : Peer} {plaintext : Bytes} (hf : plaintext.length ≤ aead.maxInput) :
    (s.encrypt aead peer plaintext).nonces = s.nonces ++ [(s.cipher peer).nonce] :=
  if_neg (by omega)

def decrypt (s : Duplex Key) (peer : Peer) : Duplex Key :=
  match s.inbox peer with
  | [] => s
  | sealed :: later =>
    let result := (s.cipher peer).decrypt aead sealed.ciphertext
    { s with
      cipher := Function.update s.cipher peer result.2
      inbox := Function.update s.inbox peer later
      opened := s.opened ++ [(sealed.plaintext, result.1)] }

def step (s : Duplex Key) : DuplexCall → Duplex Key
  | .encrypt peer plaintext => s.encrypt aead peer plaintext
  | .decrypt peer => s.decrypt aead peer

def run (s : Duplex Key) (calls : List DuplexCall) : Duplex Key := calls.foldl (step aead) s

/-- Every decryption has returned the plaintext, and no nonce has been used twice. -/
structure Lawful (s : Duplex Key) : Prop where
  opened_eq : ∀ o ∈ s.opened, o.2 = .ok o.1
  nonces_nodup : s.nonces.Nodup

/-- A call that encrypts is made by a peer that has nothing left to decrypt. -/
def InTurn (s : Duplex Key) : DuplexCall → Prop
  | .encrypt peer plaintext => plaintext.length ≤ aead.maxInput → s.inbox peer = []
  | .decrypt _ => True

def AllInTurn (s : Duplex Key) : List DuplexCall → Prop
  | [] => True
  | call :: calls => s.InTurn aead call ∧ (s.step aead call).AllInTurn calls

end Duplex

def DuplexCall.seals {Key : Type} (aead : Aead Key) : DuplexCall → Bool
  | .encrypt _ plaintext => plaintext.length ≤ aead.maxInput
  | .decrypt _ => false

def sealCount {Key : Type} (aead : Aead Key) (calls : List DuplexCall) : Nat :=
  calls.countP (DuplexCall.seals aead)

namespace Duplex

variable {Key : Type}

def Chain (aead : Aead Key) (key : Key) : Nat → List Sealed → Prop
  | _, [] => True
  | n, sealed :: later =>
    sealed.ciphertext
        = aead.sealInPlace key (sequenceNonce (UInt64.ofNat n)) sealed.plaintext ∧
      Chain aead key (n + 1) later

def seq (s : Duplex Key) (peer : Peer) : Nat := (s.cipher peer).sequence.toNat

/-- Everything on its way was sent by `sender`, who is ahead by that much. -/
structure Ahead (aead : Aead Key) (key : Key) (s : Duplex Key) (count : Nat) (sender : Peer) :
    Prop where
  inbox_nil : s.inbox sender = []
  chain : Chain aead key (s.seq sender.other) (s.inbox sender.other)
  seq_eq : s.seq sender = s.seq sender.other + (s.inbox sender.other).length
  count_eq : s.seq sender = min count (2 ^ 64 - 1)

/-- The first `count` nonces are used up, one by each encryption. -/
structure Inv (aead : Aead Key) (key : Key) (s : Duplex Key) (count : Nat) : Prop where
  key_eq : ∀ peer, (s.cipher peer).key = key
  nonces_eq : s.nonces = (List.range count).map fun n => sequenceNonce (UInt64.ofNat n)
  count_le : count ≤ 2 ^ 64
  opened_eq : ∀ o ∈ s.opened, o.2 = .ok o.1
  ahead : ∃ sender, Ahead aead key s count sender

variable {aead : Aead Key} {key : Key} {s : Duplex Key} {count : Nat}

theorem chain_append {n : Nat} {xs : List Sealed} {x : Sealed} (h : Chain aead key n xs)
    (hx : x.ciphertext = aead.sealInPlace key (sequenceNonce (UInt64.ofNat (n + xs.length))) x.plaintext) :
    Chain aead key n (xs ++ [x]) := by
  induction xs generalizing n with
  | nil => exact ⟨hx, trivial⟩
  | cons y ys ih =>
    rw [length_cons, ← Nat.add_assoc, Nat.add_right_comm] at hx
    exact ⟨h.1, ih h.2 hx⟩

theorem nonce_eq (s : Duplex Key) (peer : Peer) :
    (s.cipher peer).nonce = sequenceNonce (UInt64.ofNat (s.seq peer)) := by
  rw [seq, UInt64.ofNat_toNat]
  rfl

theorem inv_start (aead : Aead Key) (key : Key) :
    Inv aead key (start (⟨key, 0⟩ : PairingCipher Key)) 0 where
  key_eq := fun _ => rfl
  nonces_eq := rfl
  count_le := Nat.zero_le _
  opened_eq := forall_mem_nil _
  ahead := ⟨.client, rfl, trivial, rfl, rfl⟩

variable {peer : Peer} {plaintext : Bytes}

section

variable (h : Inv aead key s count)
include h

theorem Inv.ahead_of_nil (hn : s.inbox peer = []) : Ahead aead key s count peer := by
  obtain ⟨sender, ha⟩ := h.ahead
  rcases Peer.eq_or_eq_other peer sender with rfl | rfl
  · exact ha
  have hs := ha.seq_eq
  rw [hn, length_nil, Nat.add_zero] at hs
  refine ⟨hn, ?_, ?_, ?_⟩
  · rw [Peer.other_other, ha.inbox_nil]
    trivial
  · rw [Peer.other_other, ha.inbox_nil, hs, length_nil, Nat.add_zero]
  · rw [← hs, ha.count_eq]

/-- A peer with something to decrypt is behind the other. -/
theorem Inv.seq_lt (hl : s.inbox peer ≠ [] ∨ count = 2 ^ 64) : s.seq peer < count := by
  rcases hl with hne | hc
  · obtain ⟨sender, ha⟩ := h.ahead
    rcases Peer.eq_or_eq_other peer sender with rfl | rfl
    · exact absurd ha.inbox_nil hne
    have hs := ha.seq_eq
    have hm := ha.count_eq
    have hp := length_pos_iff.mpr hne
    omega
  · rw [hc]
    exact (s.cipher peer).sequence.toNat_lt

/-- Encrypting out of turn, or past the last number, uses a nonce again. -/
theorem encrypt_not_nodup (hf : plaintext.length ≤ aead.maxInput)
    (hl : s.inbox peer ≠ [] ∨ count = 2 ^ 64) :
    ¬(s.encrypt aead peer plaintext).nonces.Nodup := by
  have hm : (s.cipher peer).nonce ∈ s.nonces := by
    rw [h.nonces_eq, nonce_eq]
    exact mem_map_of_mem (mem_range.mpr (h.seq_lt hl))
  rw [encrypt_nonces aead s hf, nodup_append]
  rintro ⟨-, -, hd⟩
  exact hd _ hm _ mem_cons_self rfl

end

theorem encrypt_too_long (hl : aead.maxInput < plaintext.length) :
    s.encrypt aead peer plaintext = s := by
  have hr : (s.cipher peer).encrypt aead plaintext
      = (.error (.crypto "AES-GCM encryption failed"), s.cipher peer) := if_pos hl
  simp [encrypt, hr, sent, if_pos hl]

/-- A message is sealed under the next number, or the last has been used. -/
theorem encrypt_cases (s : Duplex Key) (peer : Peer) (hf : plaintext.length ≤ aead.maxInput) :
    (s.seq peer + 1 < 2 ^ 64 ∧ (s.encrypt aead peer plaintext).seq peer = s.seq peer + 1 ∧
      (s.encrypt aead peer plaintext).inbox peer.other = s.inbox peer.other
        ++ [⟨aead.sealInPlace (s.cipher peer).key (s.cipher peer).nonce plaintext, plaintext⟩]) ∨
    (s.seq peer + 1 = 2 ^ 64 ∧ (s.encrypt aead peer plaintext).seq peer = s.seq peer ∧
      (s.encrypt aead peer plaintext).inbox peer.other = s.inbox peer.other) := by
  have hlt : s.seq peer < 2 ^ 64 := (s.cipher peer).sequence.toNat_lt
  by_cases hrm : s.seq peer + 1 < 2 ^ 64
  · obtain ⟨hn, hv⟩ := nextSequence_lt hrm
    have hr : (s.cipher peer).encrypt aead plaintext
        = (.ok (aead.sealInPlace (s.cipher peer).key (s.cipher peer).nonce plaintext),
            { s.cipher peer with sequence := (s.cipher peer).sequence + 1 }) := by
      rw [PairingCipher.encrypt, if_neg (by omega), hn]
    left
    refine ⟨hrm, ?_, ?_⟩
    · rw [seq, encrypt_cipher, hr, Function.update_self]
      exact hv
    · rw [encrypt_inbox, hr, Function.update_self]
      rfl
  · have hr : (s.cipher peer).encrypt aead plaintext
        = (.error (.crypto "sequence exhausted"), s.cipher peer) := by
      rw [PairingCipher.encrypt, if_neg (by omega), nextSequence_last (by
        rw [← seq]; omega)]
    right
    refine ⟨by omega, ?_, ?_⟩
    · rw [seq, encrypt_cipher, hr, Function.update_self]
      rfl
    · rw [encrypt_inbox, hr, Function.update_self, sent, append_nil]

theorem encrypt_other (aead : Aead Key) (s : Duplex Key) (peer : Peer) (plaintext : Bytes) :
    (s.encrypt aead peer plaintext).seq peer.other = s.seq peer.other ∧
      (s.encrypt aead peer plaintext).inbox peer = s.inbox peer := by
  constructor
  · rw [seq, encrypt_cipher, Function.update_of_ne (Peer.other_ne peer)]
    rfl
  · rw [encrypt_inbox, Function.update_of_ne (Peer.other_ne peer).symm]

theorem encrypt_key (hk : ∀ p, (s.cipher p).key = key) (p : Peer) :
    ((s.encrypt aead peer plaintext).cipher p).key = key := by
  have hs : ((s.cipher peer).encrypt aead plaintext).2.key = key := by
    rw [PairingCipher.encrypt]
    split
    next => exact hk peer
    next => split <;> exact hk peer
  rw [encrypt_cipher]
  rcases eq_or_ne p peer with rfl | hne
  · rw [Function.update_self, hs]
  · rw [Function.update_of_ne hne, hk]

/-- Encrypting in turn keeps the two peers in step. -/
theorem encrypt_inv (h : Inv aead key s count) (hf : plaintext.length ≤ aead.maxInput)
    (ht : s.inbox peer = []) (hc : count < 2 ^ 64) :
    Inv aead key (s.encrypt aead peer plaintext) (count + 1) := by
  have ha := h.ahead_of_nil ht
  have hm := ha.count_eq
  have hseq : s.seq peer = count := by omega
  obtain ⟨ho, hi⟩ := encrypt_other aead s peer plaintext
  have hnc : (s.encrypt aead peer plaintext).nonces
      = (range (count + 1)).map fun n => sequenceNonce (UInt64.ofNat n) := by
    rw [encrypt_nonces aead s hf, h.nonces_eq, nonce_eq, hseq, range_succ, map_append]
    rfl
  refine ⟨encrypt_key h.key_eq, hnc, hc, h.opened_eq, peer, hi.trans ht, ?_, ?_, ?_⟩
  · rw [ho]
    rcases encrypt_cases s peer hf with ⟨-, -, hs⟩ | ⟨-, -, hs⟩
    · rw [hs]
      refine chain_append ha.chain ?_
      rw [← ha.seq_eq, nonce_eq, h.key_eq]
    · rw [hs]
      exact ha.chain
  · rw [ho]
    rcases encrypt_cases s peer hf with ⟨-, hn, hs⟩ | ⟨-, hn, hs⟩
    · rw [hn, hs, length_append, ha.seq_eq, Nat.add_assoc]
      rfl
    · rw [hn, hs, ha.seq_eq]
  · rcases encrypt_cases s peer hf with ⟨hr, hn, -⟩ | ⟨hl, hn, -⟩
    · omega
    · omega

/-- Decrypting keeps the two peers in step. -/
theorem decrypt_inv (hexact : aead.Exact) (h : Inv aead key s count) (peer : Peer) :
    Inv aead key (s.decrypt aead peer) count := by
  unfold decrypt
  split
  next => exact h
  next sealed later hi =>
    obtain ⟨sender, ha⟩ := h.ahead
    have hp : peer = sender.other := by
      rcases Peer.eq_or_eq_other peer sender with rfl | hot
      · rw [ha.inbox_nil] at hi
        cases hi
      · exact hot
    subst hp
    have hc := ha.chain
    have hs := ha.seq_eq
    have hm := ha.count_eq
    rw [hi] at hc hs
    rw [length_cons] at hs
    have hr : (s.cipher sender.other).sequence.toNat + 1 < 2 ^ 64 := by
      change s.seq sender.other + 1 < 2 ^ 64
      omega
    obtain ⟨hn, hv⟩ := nextSequence_lt hr
    have hop : aead.openInPlace (s.cipher sender.other).key (s.cipher sender.other).nonce
        sealed.ciphertext = some sealed.plaintext := by
      rw [hc.1, nonce_eq, h.key_eq, hexact.open_seal]
    have hrt : (s.cipher sender.other).decrypt aead sealed.ciphertext = (.ok sealed.plaintext,
            { s.cipher sender.other with sequence := (s.cipher sender.other).sequence + 1 }) := by
      simp [PairingCipher.decrypt, hop, hn]
    simp only [hrt]
    refine ⟨?_, h.nonces_eq, h.count_le, ?_, sender, ?_, ?_, ?_, ?_⟩
    · intro p
      rcases eq_or_ne p sender.other with rfl | hne
      · simp only [Function.update_self]
        exact h.key_eq _
      · simp only [Function.update_of_ne hne]
        exact h.key_eq p
    · intro o ho
      rcases mem_append.mp ho with ho | ho
      · exact h.opened_eq o ho
      · cases mem_singleton.mp ho
        rfl
    · simp only
      rw [Function.update_of_ne (Peer.other_ne sender).symm, ha.inbox_nil]
    · simp only [seq, Function.update_self, hv]
      exact hc.2
    · simp only [seq, Function.update_self, hv, Function.update_of_ne (Peer.other_ne sender).symm]
      change s.seq sender = s.seq sender.other + 1 + later.length
      omega
    · simp only [seq, Function.update_of_ne (Peer.other_ne sender).symm]
      exact hm

theorem step_nonces (s : Duplex Key) (call : DuplexCall) : s.nonces <+: (s.step aead call).nonces := by
  cases call with
  | encrypt peer plaintext =>
    simp only [step, encrypt]
    split
    next => exact prefix_rfl
    next => exact prefix_append _ _
  | decrypt peer =>
    simp only [step, decrypt]
    split <;> exact prefix_rfl

/-- No run takes a nonce back. -/
theorem run_nonces (aead : Aead Key) (s : Duplex Key) (calls : List DuplexCall) :
    s.nonces <+: (s.run aead calls).nonces := by
  induction calls generalizing s with
  | nil => exact prefix_rfl
  | cons call calls ih => exact (step_nonces s call).trans (ih (s.step aead call))

/-- Peers in step have used no nonce twice. -/
theorem Inv.nonces_nodup (h : Inv aead key s count) : s.nonces.Nodup := by
  rw [h.nonces_eq]
  refine List.Nodup.map_on (fun a ha b hb hab => ?_) nodup_range
  have halt := Nat.lt_of_lt_of_le (mem_range.mp ha) h.count_le
  have hblt := Nat.lt_of_lt_of_le (mem_range.mp hb) h.count_le
  have hv := congrArg UInt64.toNat (sequenceNonce_injective hab)
  rwa [UInt64.toNat_ofNat', UInt64.toNat_ofNat', Nat.mod_eq_of_lt halt, Nat.mod_eq_of_lt hblt] at hv

/-- A run is lawful as long as every encryption is in turn and has a number left. -/
theorem Inv.lawful_iff (hexact : aead.Exact) (h : Inv aead key s count) (calls : List DuplexCall) :
    (s.run aead calls).Lawful ↔ s.AllInTurn aead calls ∧ count + sealCount aead calls ≤ 2 ^ 64 := by
  induction calls generalizing s count with
  | nil =>
    exact ⟨fun _ => ⟨trivial, h.count_le⟩, fun _ => ⟨h.opened_eq, h.nonces_nodup⟩⟩
  | cons call calls ih =>
    change ((s.step aead call).run aead calls).Lawful ↔
      (s.InTurn aead call ∧ (s.step aead call).AllInTurn aead calls) ∧ _
    cases call with
    | decrypt peer =>
      have hn : Inv aead key (s.step aead (.decrypt peer)) count := decrypt_inv hexact h peer
      have hc : s.InTurn aead (.decrypt peer) := trivial
      rw [ih hn, sealCount, sealCount, countP_cons_of_neg (by simp [DuplexCall.seals]),
        and_iff_right hc]
    | encrypt peer plaintext =>
      by_cases hf : plaintext.length ≤ aead.maxInput
      · rw [sealCount, countP_cons_of_pos (by simp [DuplexCall.seals, hf])]
        by_cases hl : s.inbox peer ≠ [] ∨ count = 2 ^ 64
        · refine iff_of_false (fun hlw => ?_) ?_
          · have hp := run_nonces aead (s.encrypt aead peer plaintext) calls
            exact encrypt_not_nodup h hf hl (hlw.nonces_nodup.sublist hp.sublist)
          · rintro ⟨⟨ht, -⟩, hct⟩
            rcases hl with hne | hfl
            · exact hne (ht hf)
            · omega
        · have ht := Classical.not_not.mp fun hne => hl (.inl hne)
          have hct := h.count_le
          have hr : count < 2 ^ 64 := by
            omega
          have hn : Inv aead key (s.step aead (.encrypt peer plaintext)) (count + 1) :=
            encrypt_inv h hf ht hr
          have hc : s.InTurn aead (.encrypt peer plaintext) := fun _ => ht
          rw [ih hn, sealCount, and_iff_right hc, Nat.add_right_comm, Nat.add_assoc]
      · have hs : s.step aead (.encrypt peer plaintext) = s := encrypt_too_long (by omega)
        have hc : s.InTurn aead (.encrypt peer plaintext) := fun hle => absurd hle hf
        rw [hs, ih h, sealCount, sealCount,
          countP_cons_of_neg (by simp [DuplexCall.seals, hf]), and_iff_right hc]

end Duplex

/-- Two peers with one key: all decryptions of a run return what was encrypted, and all its nonces
are distinct, exactly if each peer has decrypted all it was sent whenever it encrypts. -/
theorem duplex_lawful_iff {Key : Type} (aead : Aead Key) (hexact : aead.Exact)
    (hkdf : List UInt8 → Key) (keyMaterial : List UInt8) (cipher : PairingCipher Key)
    (hcipher : PairingCipher.fromSpake2Key hkdf keyMaterial = .ok cipher)
    (calls : List DuplexCall) :
    ((Duplex.start cipher).run aead calls).Lawful ↔
      (Duplex.start cipher).AllInTurn aead calls ∧ sealCount aead calls ≤ 2 ^ 64 := by
  unfold PairingCipher.fromSpake2Key at hcipher
  split at hcipher
  next => cases hcipher
  cases hcipher
  rw [(Duplex.inv_start aead (hkdf keyMaterial)).lawful_iff hexact, Nat.zero_add]

def clearAead : Aead UInt8 where
  maxInput := 2 ^ 36 - 32
  sealInPlace := fun key nonce plain => key :: nonce.bytes ++ plain
  openInPlace := fun key nonce ciphertext =>
    if ciphertext.take 13 = key :: nonce.bytes then some (ciphertext.drop 13) else none

theorem clearAead_exact : clearAead.Exact where
  open_seal := by
    intro key nonce plain
    have hl : (key :: nonce.bytes).length = 13 := by rw [length_cons, nonce.length_eq]
    simp only [clearAead]
    rw [take_left' hl, drop_left' hl, if_pos rfl]
  open_other := by
    intro key nonce key' nonce' plain hne
    have hl : (key :: nonce.bytes).length = 13 := by rw [length_cons, nonce.length_eq]
    simp only [clearAead]
    rw [take_left' hl, if_neg]
    intro heq
    apply hne
    cases nonce
    cases nonce'
    cases heq
    rfl

/-- Two peers that greet each other at the same time, and the client then reads the greeting. -/
def crossingCalls : List DuplexCall :=
  [.encrypt .client [1], .encrypt .server [2], .decrypt .client]

/-- The greetings use one nonce, and the client cannot decrypt what it gets. -/
theorem duplex_crossing_not_lawful :
    PairingCipher.fromSpake2Key (fun material => material.headD 0) [7] = .ok ⟨7, 0⟩ ∧
    ((Duplex.start (⟨7, 0⟩ : PairingCipher UInt8)).run clearAead crossingCalls).nonces
      = [sequenceNonce 0, sequenceNonce 0] ∧
    ((Duplex.start (⟨7, 0⟩ : PairingCipher UInt8)).run clearAead crossingCalls).opened
      = [([2], .error (.crypto "AES-GCM decryption failed"))] ∧
    ¬((Duplex.start (⟨7, 0⟩ : PairingCipher UInt8)).run clearAead crossingCalls).Lawful := by
  have ho : ((Duplex.start (⟨7, 0⟩ : PairingCipher UInt8)).run clearAead crossingCalls).opened
      = [([2], .error (.crypto "AES-GCM decryption failed"))] := by decide
  refine ⟨rfl, by decide, ho, fun hl => ?_⟩
  have hr := hl.opened_eq _ (by rw [ho]; exact mem_cons_self)
  cases hr

theorem duplex_lawful_in_turn : ((Duplex.start (⟨7, 0⟩ : PairingCipher UInt8)).run clearAead
      [.encrypt .client [1], .decrypt .server, .encrypt .server [2], .decrypt .client]).Lawful := by
  refine (duplex_lawful_iff clearAead clearAead_exact (fun material => material.headD 0) [7] _ rfl
    _).mpr ⟨⟨fun _ => rfl, trivial, fun _ => ?_, trivial, trivial⟩, ?_⟩
  · decide
  · decide

end AdbFastboot
