import AdbFastboot.AdbMessage
import AdbFastboot.AndroidPubkey
import AdbFastboot.Outcome
import AdbFastboot.StrOps
import AdbFastboot.Utf8

namespace AdbFastboot

def aAuthSignature : UInt32 := 2

def aAuthRsakey : UInt32 := 3

structure AdbAuth where
  /-- `sign_prehash` of the private key. -/
  signPrehash : Bytes → Except String Bytes
  publicKey : RsaPublicKey
  label : List Char

structure AuthResponder where
  keys : List AdbAuth
  nextKey : Nat
  pubkeySent : Bool

abbrev AuthAnswer := Outcome AuthError (Option AdbPacket)

variable (base64 : Bytes → List Char)

namespace AdbAuth

def makeSignatureMessage (token : Bytes) (key : AdbAuth) : AuthAnswer :=
  if token.length ≠ 20 then fail (.invalidTokenLength 20 token.length)
  else match key.signPrehash token with
    | .error e => fail (.invalidPublicKeyFormat ("RSA prehash signing failed: " ++ e))
    | .ok signature => .ok (some (.new aAuth aAuthSignature 0 signature))

def publicKeyString (binary : Bytes) (label : List Char) : Bytes :=
  utf8Bytes (String.ofList (base64 binary ++ ' ' ::
    trimMatches (fun c => isWhitespace c || c == '\x00') label)) ++ [0]

def makeRsakeyMessage (key : AdbAuth) : AuthAnswer :=
  match encodeAndroidPubkeyBinary key.publicKey with
  | .error e => fail e
  | .ok binary => .ok (some (.new aAuth aAuthRsakey 0 (publicKeyString base64 binary key.label)))

end AdbAuth

namespace AuthResponder

def fromKeyList (keys : List AdbAuth) : AuthResponder := ⟨keys, 0, false⟩

/-- A message of `keys[0]`. -/
def withFirst (message : AdbAuth → AuthAnswer) : List AdbAuth → AuthAnswer
  | [] => panicked
  | key :: _ => message key

def respondToToken (r : AuthResponder) (token : Bytes) : AuthAnswer × AuthResponder :=
  match r.keys[r.nextKey]? with
  | some key => (key.makeSignatureMessage token, { r with nextKey := r.nextKey + 1 })
  | none =>
    if !r.pubkeySent then
      (withFirst (AdbAuth.makeRsakeyMessage base64) r.keys, { r with pubkeySent := true })
    else
      (withFirst (AdbAuth.makeSignatureMessage token) r.keys,
        { r with nextKey := 1, pubkeySent := false })

def answers (r : AuthResponder) : List Bytes → List AuthAnswer
  | [] => []
  | token :: tokens =>
    (r.respondToToken base64 token).1 :: (r.respondToToken base64 token).2.answers tokens

/-- So many tokens were answered since the order began. -/
def At (r : AuthResponder) (turn : Nat) : Prop :=
  r.nextKey = turn ∧ r.pubkeySent = false
    ∨ turn = 0 ∧ r.nextKey = r.keys.length ∧ r.pubkeySent = true

variable (first : AdbAuth) (keys : List AdbAuth)

/-- Each key has its turn to sign, and then the public key of the first is offered. -/
def message (k : Nat) (token : Bytes) : AuthAnswer :=
  match (first :: keys)[k % (keys.length + 2)]? with
  | some key => key.makeSignatureMessage token
  | none => first.makeRsakeyMessage base64

def Rotates (tokens : List Bytes) : Prop :=
  ∀ (k : Nat) token, tokens[k]? = some token →
    ∃ packet, message base64 first keys k token = .ok (some packet)
      ∧ ((fromKeyList (first :: keys)).answers base64 tokens)[k]? = some (.ok (some packet))

variable {first keys}

section

variable {r : AuthResponder} {turn : Nat} (hkeys : r.keys = first :: keys) (h : r.At turn)
  (hturn : turn < keys.length + 2)
include hkeys h hturn

/-- One token is answered by the key whose turn it is, and the turn moves on. -/
theorem respondToToken_turn (token : Bytes) :
    (r.respondToToken base64 token).1 = message base64 first keys turn token
      ∧ (r.respondToToken base64 token).2.keys = first :: keys
      ∧ (r.respondToToken base64 token).2.At ((turn + 1) % (keys.length + 2)) := by
  unfold respondToToken message
  rw [hkeys, Nat.mod_eq_of_lt hturn]
  rcases h with ⟨rfl, hs⟩ | ⟨rfl, hn, hs⟩
  · cases hk : (first :: keys)[r.nextKey]? with
    | some key =>
      have hlt := (List.getElem?_eq_some_iff.mp hk).1
      exact ⟨rfl, rfl, .inl ⟨(Nat.mod_eq_of_lt (Nat.succ_lt_succ hlt)).symm, hs⟩⟩
    | none =>
      have hge := List.getElem?_eq_none_iff.mp hk
      rw [List.length_cons] at hge
      have ha : r.nextKey = keys.length + 1 := by omega
      simp [hs, ha, At, withFirst]
  · simp [hkeys, hn, hs, withFirst, At]

/-- The answer to the k-th token is that of the k-th turn. -/
theorem answers_getElem? {tokens : List Bytes} (k : Nat) :
    (r.answers base64 tokens)[k]? = tokens[k]?.map (message base64 first keys (turn + k)) := by
  induction tokens generalizing r turn k with
  | nil => rfl
  | cons token tokens ih =>
    obtain ⟨ha, hs, hn⟩ := respondToToken_turn base64 hkeys h hturn token
    cases k with
    | zero => simp [answers, ha]
    | succ k =>
      refine (ih hs hn (Nat.mod_lt _ (Nat.succ_pos _)) k).trans (congrArg (tokens[k]?.map ·) ?_)
      unfold message
      rw [Nat.mod_add_mod, Nat.add_assoc, Nat.add_comm 1]

end

/-- A responder that comes to its public key can encode it. -/
theorem Rotates.encodes {tokens : List Bytes} (h : Rotates base64 first keys tokens)
    (hl : keys.length + 1 < tokens.length) :
    first.publicKey.n % 2 = 1 ∧ first.publicKey.n < 2 ^ 2048 := by
  rw [← encode_isOk_iff]
  obtain ⟨packet, hp, -⟩ := h _ _ (List.getElem?_eq_getElem hl)
  have hn : (first :: keys)[keys.length + 1]? = none := List.getElem?_eq_none (Nat.le_refl _)
  rw [message, Nat.mod_eq_of_lt (Nat.lt_succ_self _), hn] at hp
  simp only [AdbAuth.makeRsakeyMessage] at hp
  split at hp
  next => cases hp
  next binary hb => exact ⟨binary, hb⟩

/-- The order is kept, exactly if the public key has no turn or can be encoded. -/
theorem responder_rotates_iff {tokens : List Bytes} (hsign : ∀ token ∈ tokens,
      ∀ key ∈ first :: keys, ∃ packet, key.makeSignatureMessage token = .ok (some packet)) :
    Rotates base64 first keys tokens ↔ tokens.length ≤ keys.length + 1
      ∨ first.publicKey.n % 2 = 1 ∧ first.publicKey.n < 2 ^ 2048 := by
  refine ⟨fun h => or_iff_not_imp_left.mpr fun hl => h.encodes base64 (Nat.not_le.mp hl), ?_⟩
  intro h k token ht
  suffices hm : ∃ packet, message base64 first keys k token = .ok (some packet) by
    obtain ⟨packet, hp⟩ := hm
    refine ⟨packet, hp, ?_⟩
    rw [answers_getElem? base64 rfl (.inl ⟨rfl, rfl⟩) (Nat.succ_pos _), ht, ← hp]
    exact congrArg (fun k => some (message base64 first keys k token)) (Nat.zero_add k)
  unfold message
  split
  next key hk =>
    exact hsign token (List.mem_of_getElem? ht) key (List.mem_of_getElem? hk)
  next hk =>
    have hlt := (List.getElem?_eq_some_iff.mp ht).1
    have hge := List.getElem?_eq_none_iff.mp hk
    have hle := Nat.mod_le k (keys.length + 2)
    rw [List.length_cons] at hge
    obtain ⟨binary, hb⟩ := encode_isOk_iff.mpr (h.resolve_left (by omega))
    exact ⟨_, by rw [AdbAuth.makeRsakeyMessage, hb]⟩

def keyOf (n : Nat) : AdbAuth := ⟨.ok, ⟨n, 3⟩, []⟩

def zeroTokens : List Bytes := List.replicate 3 (List.replicate 20 0)

theorem responder_rotates_small : Rotates (fun _ => []) (keyOf 15) [] zeroTokens := by
  have hs : 15 < 2 ^ 4 := by decide
  refine (responder_rotates_iff _ ?_).mpr
    (.inr ⟨rfl, hs.trans (pow_lt_pow_right₀ (by decide) (by decide))⟩)
  intro token ht key hk
  cases List.eq_of_mem_replicate ht
  cases List.mem_singleton.mp hk
  exact ⟨_, rfl⟩

theorem responder_large_key : ¬Rotates (fun _ => []) (keyOf (2 ^ 2048 + 1)) [] zeroTokens := by
  intro h
  have hlt := (h.encodes _ (by decide)).2
  simp only [keyOf] at hlt
  generalize 2 ^ 2048 = size at hlt
  omega

end AuthResponder

end AdbFastboot
