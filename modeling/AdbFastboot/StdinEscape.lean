import AdbFastboot.ShellV2

namespace AdbFastboot

open List

inductive StdinEscape where
  | startOfLine
  | midFlow
  | inEscape
deriving DecidableEq, Repr

def stdinStateAfter (ch : UInt8) : StdinEscape := if ch = 10 ∨ ch = 13 then .startOfLine else .midFlow

/-- The next state, the bytes to forward, and whether `~.` was seen. -/
def escapeStdinByte : StdinEscape → UInt8 → StdinEscape × Bytes × Bool
  | .inEscape, ch =>
    if ch = 46 then (.startOfLine, [], true)
    else if ch = 126 then (.midFlow, [126], false)
    else (stdinStateAfter ch, [126, ch], false)
  | .startOfLine, ch =>
    if ch = 126 then (.inEscape, [], false) else (stdinStateAfter ch, [ch], false)
  | .midFlow, ch =>
    if ch = 126 then (.midFlow, [126], false) else (stdinStateAfter ch, [ch], false)

inductive StdinRead where
  | byte (ch : UInt8)
  | eof
  | interrupted
  | failed
deriving DecidableEq, Repr

inductive StdinEnd where
  | waiting
  | closed
  | disconnected
  | stopped
deriving DecidableEq, Repr

/-- The thread that forwards stdin, with the packets it has sent; `accepts n` is whether the write
after `n` packets succeeds. -/
def stdinLoop (accepts : Nat → Bool) (state : StdinEscape) (sent : List ShellV2Packet) :
    List StdinRead → List ShellV2Packet × StdinEnd
  | [] => (sent, .waiting)
  | .eof :: _ => (if accepts sent.length then sent ++ [.closeStdin] else sent, .closed)
  | .interrupted :: reads => stdinLoop accepts state sent reads
  | .failed :: _ => (sent, .stopped)
  | .byte ch :: reads =>
    let (next, out, disconnect) := escapeStdinByte state ch
    if disconnect then (sent, .disconnected)
    else if out.isEmpty then stdinLoop accepts next sent reads
    else if accepts sent.length then stdinLoop accepts next (sent ++ [.stdin out]) reads
    else (sent, .stopped)

/-- What is typed, with the reads that were interrupted left out. -/
def typedReads (reads : List StdinRead) : List StdinRead := reads.filter (· ≠ .interrupted)

def stdinPayload (sent : List ShellV2Packet) : Bytes :=
  sent.flatMap fun
    | .stdin data => data
    | _ => []

def StartsLine (front : Bytes) : Prop :=
  front = [] ∨ front.getLast? = some 10 ∨ front.getLast? = some 13

/-- No `~.` or `~~` stands at the start of a line. -/
def NoEscape (typed : Bytes) : Prop :=
  ∀ front ch rest, typed = front ++ 126 :: ch :: rest → StartsLine front → ch ≠ 46 ∧ ch ≠ 126

def EndsInTilde (typed : Bytes) : Prop := ∃ front, typed = front ++ [126] ∧ StartsLine front

/-- The state after `front`, of which `sent` has been sent. -/
def TypedSo (front sent : Bytes) : StdinEscape → Prop
  | .startOfLine => StartsLine front ∧ sent = front
  | .midFlow => ¬StartsLine front ∧ ¬EndsInTilde front ∧ sent = front
  | .inEscape => front = sent ++ [126] ∧ StartsLine sent

variable {front sent : Bytes} {ch : UInt8} {state : StdinEscape}

@[simp] theorem startsLine_concat : StartsLine (front ++ [ch]) ↔ ch = 10 ∨ ch = 13 := by
  simp [StartsLine]

@[simp] theorem endsInTilde_concat : EndsInTilde (front ++ [ch]) ↔ ch = 126 ∧ StartsLine front := by
  constructor
  · rintro ⟨front', heq, hl⟩
    obtain ⟨rfl, hc⟩ := append_inj' heq rfl
    exact ⟨singleton_inj.mp hc, hl⟩
  · rintro ⟨rfl, hl⟩
    exact ⟨front, rfl, hl⟩

theorem typedSo_after (hc : ch ≠ 126) :
    TypedSo (front ++ [ch]) (front ++ [ch]) (stdinStateAfter ch) := by
  unfold stdinStateAfter
  split
  next hl => exact ⟨startsLine_concat.mpr hl, rfl⟩
  next hm => exact ⟨by simpa using hm, by simp [hc], rfl⟩

/-- A byte that completes no escape is sent, or held as a tilde. -/
theorem escapeStdinByte_typed (h : TypedSo front sent state) (hn : NoEscape (front ++ [ch])) :
    ∃ next out, escapeStdinByte state ch = (next, out, false)
      ∧ TypedSo (front ++ [ch]) (sent ++ out) next := by
  cases state with
  | startOfLine =>
    obtain ⟨hl, rfl⟩ := h
    rw [escapeStdinByte]
    split
    next ht => exact ⟨_, _, rfl, by simp [TypedSo, ht, hl]⟩
    next ht => exact ⟨_, _, rfl, typedSo_after ht⟩
  | midFlow =>
    obtain ⟨hl, -, rfl⟩ := h
    rw [escapeStdinByte]
    split
    next ht => exact ⟨_, _, rfl, by simp [TypedSo, ht, hl]⟩
    next ht => exact ⟨_, _, rfl, typedSo_after ht⟩
  | inEscape =>
    obtain ⟨rfl, hl⟩ := h
    obtain ⟨hd, ht⟩ := hn sent ch [] (by simp) hl
    refine ⟨_, _, by rw [escapeStdinByte, if_neg hd, if_neg ht], ?_⟩
    show TypedSo _ (sent ++ ([126] ++ [ch])) _
    rw [← append_assoc]
    exact typedSo_after ht

variable {reads : List StdinRead}

theorem stdinLoop_typedReads {accepts : Nat → Bool} (sent : List ShellV2Packet) :
    stdinLoop accepts state sent (typedReads reads) = stdinLoop accepts state sent reads := by
  induction reads generalizing state sent with
  | nil => rfl
  | cons r reads ih =>
    cases r <;> simp_all [typedReads, stdinLoop]

/-- All that was typed has been sent, but for a tilde at the start of a line. -/
theorem TypedSo.sent_iff (h : TypedSo front sent state) : sent = front ↔ ¬EndsInTilde front := by
  cases state with
  | startOfLine =>
    refine iff_of_true h.2 ?_
    rintro ⟨front, rfl, -⟩
    simp [TypedSo] at h
  | midFlow => exact iff_of_true h.2.2 h.2.1
  | inEscape =>
    obtain ⟨rfl, hl⟩ := h
    simp [hl]

theorem TypedSo.startOfLine (h : TypedSo front sent state) (hl : StartsLine front) :
    state = .startOfLine ∧ sent = front := by
  cases state with
  | startOfLine => exact ⟨rfl, h.2⟩
  | midFlow => exact absurd hl h.1
  | inEscape =>
    obtain ⟨rfl, -⟩ := h
    simp at hl

/-- The loop reads what has no escape, and goes on behind it. -/
theorem stdinLoop_front (h : NoEscape front) : ∃ state sent, TypedSo front (stdinPayload sent) state ∧
    ∀ reads, stdinLoop (fun _ => true) .startOfLine [] (front.map .byte ++ reads)
      = stdinLoop (fun _ => true) state sent reads := by
  induction front using reverseRecOn with
  | nil => exact ⟨.startOfLine, [], ⟨.inl rfl, rfl⟩, fun _ => rfl⟩
  | append_singleton front ch ih =>
    obtain ⟨state, sent, hf, hl⟩ := ih fun f c rest heq => h f c (rest ++ [ch]) (by simp [heq])
    obtain ⟨next, out, hb, hn⟩ := escapeStdinByte_typed hf h
    refine ⟨next, if out.isEmpty then sent else sent ++ [.stdin out], ?_, fun reads => ?_⟩
    · cases out <;> simpa [stdinPayload] using hn
    · rw [map_append, append_assoc, hl]
      simp only [map_cons, map_nil, singleton_append, stdinLoop, hb]
      cases out <;> rfl

/-- Typed text without an escape is sent as it is, exactly if it does not end in a `~` that starts a
line; and of text with a `~.` before any other escape, what is before it. -/
theorem stdin_sent_iff (typed : Bytes) (hreads : typedReads reads = typed.map .byte ++ [.eof]) :
    (NoEscape typed → ((∃ sent, stdinLoop (fun _ => true) .startOfLine [] reads
        = (sent ++ [.closeStdin], .closed) ∧ stdinPayload sent = typed) ↔ ¬EndsInTilde typed))
      ∧ ∀ front rest, typed = front ++ 126 :: 46 :: rest → StartsLine front → NoEscape front →
        ∃ sent, stdinLoop (fun _ => true) .startOfLine [] reads = (sent, .disconnected)
          ∧ stdinPayload sent = front := by
  rw [← stdinLoop_typedReads, hreads]
  constructor
  · intro hn
    obtain ⟨state, sent, hf, hl⟩ := stdinLoop_front hn
    rw [hl, ← hf.sent_iff]
    simp [stdinLoop]
  · rintro front rest rfl hln hn
    obtain ⟨state, sent, hf, hl⟩ := stdinLoop_front hn
    obtain ⟨rfl, hs⟩ := hf.startOfLine hln
    rw [List.map_append, List.append_assoc, hl]
    exact ⟨sent, rfl, hs⟩

/-- A `~` typed last is not sent. -/
theorem stdin_tilde_lost : stdinLoop (fun _ => true) .startOfLine [] [.byte 126, .eof]
    = ([.closeStdin], .closed) := by decide

/-- A `~` at the start of a line, before a letter. -/
theorem stdin_line_kept : ∃ sent, stdinLoop (fun _ => true) .startOfLine []
    [.byte 126, .interrupted, .byte 97, .byte 10, .eof] = (sent ++ [.closeStdin], .closed)
      ∧ stdinPayload sent = [126, 97, 10] := by
  refine ((stdin_sent_iff [126, 97, 10] rfl).1 fun front ch rest heq _ => ?_).mpr fun h => ?_
  · rcases front with _ | ⟨a, _ | ⟨b, front⟩⟩
    · cases heq
      decide
    · cases heq
    · have hl := congrArg List.length heq
      simp at hl
      omega
  · obtain ⟨front, heq, -⟩ := h
    have hls := congrArg List.getLast? heq
    simp at hls

end AdbFastboot
