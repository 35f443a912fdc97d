import AdbFastboot.Bytes

namespace AdbFastboot

open List

inductive TcpEvent where
  | bytes (piece : Bytes)
  | interrupted
  | failed (text : String)
deriving DecidableEq, Repr

inductive TcpError where
  | interrupted
  | failed (text : String)
  | unexpectedEof
  | invalidData (text : String)
deriving DecidableEq, Repr

/-- `read` into a buffer of `n` bytes. Behind the last event the peer has closed the connection. -/
def tcpRead (n : Nat) : List TcpEvent → Except TcpError Bytes × List TcpEvent
  | [] => (.ok [], [])
  | .bytes [] :: events => tcpRead n events
  | .bytes (b :: piece) :: events =>
    (.ok ((b :: piece).take n), .bytes ((b :: piece).drop n) :: events)
  | .interrupted :: events => (.error .interrupted, events)
  | .failed text :: events => (.error (.failed text), events)

/-- What `read_exact` into a buffer of `n` bytes returns, what it has put into the buffer, and the
events after it. An interrupted read is repeated. -/
def tcpReadExact : Nat → List TcpEvent → Except TcpError Unit × Bytes × List TcpEvent
  | 0, events => (.ok (), [], events)
  | _ + 1, [] => (.error .unexpectedEof, [], [])
  | n + 1, .bytes piece :: events =>
    if n + 1 ≤ piece.length then
      (.ok (), piece.take (n + 1), .bytes (piece.drop (n + 1)) :: events)
    else
      let more := tcpReadExact (n + 1 - piece.length) events
      (more.1, piece ++ more.2.1, more.2.2)
  | n + 1, .interrupted :: events => tcpReadExact (n + 1) events
  | _ + 1, .failed text :: events => (.error (.failed text), [], events)

/-- The content of a stream, however it is cut: the bytes, and the failures between them. -/
inductive TcpItem where
  | byte (b : UInt8)
  | failed (text : String)
deriving DecidableEq, Repr

def tcpItems : List TcpEvent → List TcpItem
  | [] => []
  | .bytes piece :: events => piece.map .byte ++ tcpItems events
  | .interrupted :: events => tcpItems events
  | .failed text :: events => .failed text :: tcpItems events

def tcpLength : List TcpEvent → Nat
  | [] => 0
  | .bytes piece :: events => piece.length + tcpLength events
  | .interrupted :: events => tcpLength events
  | .failed _ :: events => tcpLength events

variable {events : List TcpEvent} {n : Nat} {bytes : Bytes} {rest : List TcpItem}

theorem tcpRead_length {events' : List TcpEvent} (h : tcpRead n events = (.ok bytes, events')) :
    tcpLength events = bytes.length + tcpLength events' := by
  induction events with
  | nil =>
    obtain ⟨hb, rfl⟩ := Prod.mk.inj h
    rw [← Except.ok.inj hb]
    rfl
  | cons event events ih =>
    cases event with
    | bytes piece =>
      cases piece with
      | nil =>
        rw [tcpLength, length_nil, Nat.zero_add]
        exact ih h
      | cons b piece =>
        obtain ⟨hb, rfl⟩ := Prod.mk.inj h
        rw [← Except.ok.inj hb, tcpLength, tcpLength, length_take, length_drop]
        omega
    | interrupted | failed text => cases (Prod.mk.inj h).1

theorem tcpRead_error {e : TcpError} (h : (tcpRead n events).1 = .error e) :
    (tcpRead n events).2.length < events.length := by
  induction events with
  | nil => cases h
  | cons event events ih =>
    cases event with
    | bytes piece =>
      cases piece with
      | nil => exact Nat.lt_succ_of_lt (ih h)
      | cons b piece => cases h
    | interrupted | failed text => exact Nat.lt_succ_self _

theorem tcpReadExact_length (n : Nat) (events : List TcpEvent) :
    tcpLength events = (tcpReadExact n events).2.1.length + tcpLength (tcpReadExact n events).2.2 := by
  induction events generalizing n with
  | nil => cases n <;> rfl
  | cons event events ih =>
    cases n with
    | zero => simp [tcpReadExact]
    | succ n =>
      cases event with
      | bytes piece =>
        rw [tcpReadExact]
        split
        next hle =>
          simp only [tcpLength, length_take, length_drop]
          omega
        have hm := ih (n + 1 - piece.length)
        simp only [tcpLength, length_append]
        omega
      | interrupted => exact ih (n + 1)
      | failed text => simp [tcpReadExact, tcpLength]

theorem tcpReadExact_ok_length (h : (tcpReadExact n events).1 = .ok ()) :
    (tcpReadExact n events).2.1.length = n := by
  induction events generalizing n with
  | nil =>
    cases n with
    | zero => rfl
    | succ n => simp [tcpReadExact] at h
  | cons event events ih =>
    cases n with
    | zero => rfl
    | succ n =>
      cases event with
      | bytes piece =>
        rw [tcpReadExact] at h ⊢
        split at h
        next hle =>
          rw [if_pos hle]
          exact length_take_of_le hle
        next hgt =>
          rw [if_neg hgt]
          have hm := ih h
          simp only [length_append]
          omega
      | interrupted => exact ih h
      | failed text => simp [tcpReadExact] at h

theorem TcpItem.byte_injective : Function.Injective TcpItem.byte :=
  fun _ _ h => TcpItem.byte.inj h

theorem tcpItems_front {piece : Bytes} {more : List TcpItem}
    (h : piece.map TcpItem.byte ++ more = bytes.map .byte ++ rest) :
    (∃ tail, piece = bytes ++ tail ∧ rest = tail.map .byte ++ more) ∨
      ∃ tail, tail ≠ [] ∧ bytes = piece ++ tail ∧ more = tail.map .byte ++ rest := by
  rcases append_eq_append_iff.mp h with ⟨tail, hbs, hm⟩ | ⟨tail, hp, hr⟩
  · obtain ⟨front, back, rfl, hf, rfl⟩ := map_eq_append_iff.mp hbs
    rw [TcpItem.byte_injective.list_map hf]
    by_cases hb : back = []
    · rw [hb] at hm ⊢
      exact .inl ⟨[], by simp, hm.symm⟩
    · exact .inr ⟨back, hb, rfl, hm⟩
  · obtain ⟨front, back, rfl, hf, rfl⟩ := map_eq_append_iff.mp hp
    rw [TcpItem.byte_injective.list_map hf]
    exact .inl ⟨back, rfl, hr⟩

/-- Bytes that are on the stream are read, however they are cut. -/
theorem tcpReadExact_bytes (h : tcpItems events = bytes.map .byte ++ rest) :
    ∃ events', tcpReadExact bytes.length events = (.ok (), bytes, events') ∧
      tcpItems events' = rest := by
  induction events generalizing bytes with
  | nil =>
    obtain ⟨hb, hr⟩ := append_eq_nil_iff.mp h.symm
    rw [map_eq_nil_iff.mp hb]
    exact ⟨[], rfl, hr.symm⟩
  | cons event events ih =>
    cases bytes with
    | nil => exact ⟨event :: events, by rw [length_nil, tcpReadExact], h⟩
    | cons b bytes =>
      rw [length_cons]
      cases event with
      | bytes piece =>
        rw [tcpReadExact]
        rcases tcpItems_front h with ⟨tail, rfl, hr⟩ | ⟨tail, hne, hb, hm⟩
        · have ht : (b :: bytes ++ tail).take (bytes.length + 1) = b :: bytes := by
            simp
          have hd : (b :: bytes ++ tail).drop (bytes.length + 1) = tail := by simp
          rw [if_pos (by simp), ht, hd]
          exact ⟨_, rfl, hr.symm⟩
        · have hl : bytes.length + 1 = piece.length + tail.length := by
            rw [← length_cons, hb, length_append]
          have hp := length_pos_iff.mpr hne
          obtain ⟨events', hrd, hr⟩ := ih hm
          rw [if_neg (by omega), hb, hl, Nat.add_sub_cancel_left, hrd]
          exact ⟨events', rfl, hr⟩
      | interrupted => exact ih h
      | failed text => simp [tcpItems] at h

theorem tcpReadExact_failed {text : String} (n : Nat) (h : tcpItems events = .failed text :: rest) :
    ∃ events', tcpReadExact (n + 1) events = (.error (.failed text), [], events') ∧
      tcpItems events' = rest := by
  induction events with
  | nil => simp [tcpItems] at h
  | cons event events ih =>
    cases event with
    | bytes piece =>
      cases piece with
      | nil =>
        obtain ⟨events', hrd, hr⟩ := ih h
        refine ⟨events', ?_, hr⟩
        rw [tcpReadExact, if_neg (by simp), length_nil, Nat.sub_zero, hrd]
        rfl
      | cons b piece => simp [tcpItems] at h
    | interrupted => exact ih h
    | failed text' =>
      obtain ⟨hh, hr⟩ := cons.inj h
      cases hh
      exact ⟨events, rfl, hr⟩

theorem tcpReadExact_closed (n : Nat) (h : tcpItems events = []) :
    tcpReadExact (n + 1) events = (.error .unexpectedEof, [], []) := by
  induction events with
  | nil => rfl
  | cons event events ih =>
    cases event with
    | bytes piece =>
      obtain ⟨hp, hr⟩ := append_eq_nil_iff.mp h
      cases map_eq_nil_iff.mp hp
      rw [tcpReadExact, if_neg (by simp), length_nil, Nat.sub_zero, ih hr]
      rfl
    | interrupted => exact ih h
    | failed text => simp [tcpItems] at h

/-- The stream delivers its bytes, in whatever pieces, and then ends. -/
def OnlyBytes (events : List TcpEvent) : Prop :=
  ∀ event ∈ events, ∃ piece, event = .bytes piece

/-- A read returns some of the bytes, and the others stay. -/
theorem tcpRead_bytes (hn : 0 < n) (h : OnlyBytes events) (hne : tcpItems events ≠ []) :
    ∃ bytes events', tcpRead n events = (.ok bytes, events') ∧ bytes ≠ [] ∧ bytes.length ≤ n ∧
      tcpItems events = bytes.map .byte ++ tcpItems events' ∧ OnlyBytes events' := by
  induction events with
  | nil => exact absurd rfl hne
  | cons event events ih =>
    obtain ⟨⟨piece, rfl⟩, hr⟩ := forall_mem_cons.mp h
    cases piece with
    | nil => exact ih hr hne
    | cons b piece =>
      refine ⟨_, _, rfl, ?_, length_take_le _ _, ?_, ?_⟩
      · intro hnil
        have hl := congrArg length hnil
        rw [length_take, length_cons, length_nil] at hl
        omega
      · rw [tcpItems, tcpItems, ← append_assoc, ← map_append, take_append_drop]
      · exact forall_mem_cons.mpr ⟨⟨_, rfl⟩, hr⟩

end AdbFastboot
