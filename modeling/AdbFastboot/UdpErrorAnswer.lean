import AdbFastboot.UdpExchange

namespace AdbFastboot

def IsErrorAnswer (answer : UdpHeader × Bytes) : Prop :=
  answer.1.id = udpIdError

instance : DecidablePred IsErrorAnswer := fun answer =>
  inferInstanceAs (Decidable (answer.1.id = udpIdError))

def errorText (answers : List (UdpHeader × Bytes)) : Bytes :=
  (answers.filter fun answer => IsErrorAnswer answer).flatMap Prod.snd

/-- The answers end with one that announces no other. -/
def AnswersComplete (answers : List (UdpHeader × Bytes)) : Prop :=
  ∃ front last, answers = front ++ [last] ∧ last.1.flags &&& udpFlagContinuation = 0

theorem errorText_concat (answers : List (UdpHeader × Bytes)) (resp : UdpHeader) (data : Bytes) :
    errorText (answers ++ [(resp, data)])
      = if resp.id = udpIdError then errorText answers ++ data else errorText answers := by
  by_cases hi : resp.id = udpIdError
  · simp [errorText, IsErrorAnswer, hi]
  · simp [errorText, IsErrorAnswer, hi]

variable {answers : List (UdpHeader × Bytes)}

/-- There is an error text exactly if some error answer has one. -/
theorem errorText_ne_nil :
    errorText answers ≠ [] ↔ ∃ answer ∈ answers, IsErrorAnswer answer ∧ answer.2 ≠ [] := by
  constructor
  · intro h
    by_contra hno
    refine h (List.flatMap_eq_nil_iff.mpr fun answer hm => ?_)
    obtain ⟨hm, he⟩ := List.mem_filter.mp hm
    by_contra hd
    exact hno ⟨answer, hm, of_decide_eq_true he, hd⟩
  · rintro ⟨answer, hm, he, hd⟩ hn
    exact hd (List.flatMap_eq_nil_iff.mp hn answer
      (List.mem_filter.mpr ⟨hm, decide_eq_true he⟩))

theorem not_answersComplete_nil : ¬ AnswersComplete [] := by
  rintro ⟨front, last, h, -⟩
  simp at h

theorem answersComplete_concat {answer : UdpHeader × Bytes} :
    AnswersComplete (answers ++ [answer]) ↔ answer.1.flags &&& udpFlagContinuation = 0 := by
  constructor
  · rintro ⟨front, last, h, hl⟩
    rwa [List.singleton_inj.mp (List.append_inj_right' h rfl)]
  · intro h
    exact ⟨answers, answer, rfl, h⟩

section

variable {σ τ : Type}

/-- Between two packets of a call the error text is what the ERROR answers carried, and the last
answer announced another one. -/
structure UdpLoop.Listening (x : UdpLoop σ) : Prop where
  errors : x.errorData = errorText x.accepted
  more : ¬ AnswersComplete x.accepted

variable {x : UdpLoop σ}

/-- The loop keeps the text of the error answers it has accepted. -/
theorem UdpLoop.accept_errors (h : x.errorData = errorText x.accepted) (maxRetries : Nat)
    (resp : UdpHeader) (data : Bytes) :
    (x.accept maxRetries resp data).errorData = errorText (x.accept maxRetries resp data).accepted := by
  simp [UdpLoop.accept, errorText_concat, h]

theorem UdpLoop.value_fails : (¬ ∃ data, x.value = .ok data) ↔ x.errorData ≠ [] := by
  unfold UdpLoop.value
  split
  next h => simp [h]
  next h => simp [not_not.mp h]

theorem UdpLoop.Listening.fails (hx : x.Listening) (e : FastbootTransportError) :
    (¬ ∃ data, (.error e : Except FastbootTransportError Bytes) = .ok data) ↔
      ¬ AnswersComplete x.accepted ∨ errorText x.accepted ≠ [] := by
  simp [hx.more]

/-- A call fails when its answers are broken off, and otherwise when there is an error text. -/
theorem UdpLoop.run_fails {socket : UdpSocket σ τ} {maxRetries : Nat} {turns : List τ}
    (hx : x.Listening) {value : Except FastbootTransportError Bytes} {world : σ}
    {seq : UInt16} {accepted : List (UdpHeader × Bytes)}
    (h : UdpLoop.run socket maxRetries turns x = .returned value world seq accepted) :
    (¬ ∃ data, value = .ok data) ↔ ¬ AnswersComplete accepted ∨ errorText accepted ≠ [] := by
  induction turns generalizing x with
  | nil => simp [UdpLoop.run] at h
  | cons turn turns ih =>
    unfold UdpLoop.run at h
    split at h
    next text _ =>
      obtain ⟨rfl, -, -, rfl⟩ := UdpReturn.returned.inj h
      exact hx.fails _
    next world' hs =>
      simp only at h
      split at h
      next e _ =>
        obtain ⟨rfl, -, -, rfl⟩ := UdpReturn.returned.inj h
        exact hx.fails e
      next lastErr _ =>
        split at h
        next =>
          obtain ⟨rfl, -, -, rfl⟩ := UdpReturn.returned.inj h
          exact hx.fails _
        next left _ =>
          exact ih (x := { x with world := (socket.recv turn world').2, lastErr, left })
            ⟨hx.errors, hx.more⟩ h
      next resp data hmt =>
        have he := UdpLoop.accept_errors (x := { x with world := (socket.recv turn world').2 })
          hx.errors maxRetries resp data
        split at h
        next hl =>
          obtain ⟨rfl, -, -, rfl⟩ := UdpReturn.returned.inj h
          have hcm : AnswersComplete (x.accepted ++ [(resp, data)]) :=
            answersComplete_concat.mpr hl
          rw [UdpLoop.value_fails, he]
          exact ⟨.inr, fun h => h.resolve_left (not_not.mpr hcm)⟩
        next hm => exact ih ⟨he, fun hc => hm (answersComplete_concat.mp hc)⟩ h

end

/-- An ERROR answer fails the call if one of the ERROR answers carries a text, or if the answers
are broken off. In a complete exchange whose ERROR answers are all empty the call succeeds. -/
theorem errorAnswer_fails_iff {σ τ : Type} (socket : UdpSocket σ τ) (maxRetries : Nat)
    (seq : UInt16) (tx : UdpRequest) (turns : List τ) (world : σ)
    {value : Except FastbootTransportError (List UInt8)} {world' : σ} {seq' : UInt16}
    {accepted : List (UdpHeader × List UInt8)}
    (h : sendPacketWithAck socket maxRetries seq tx turns world
      = .returned value world' seq' accepted) :
    ((∃ answer ∈ accepted, IsErrorAnswer answer) → ¬ ∃ data, value = .ok data) ↔
      ((∃ answer ∈ accepted, IsErrorAnswer answer) → ¬ AnswersComplete accepted ∨
        ∃ answer ∈ accepted, IsErrorAnswer answer ∧ answer.2 ≠ []) := by
  rw [UdpLoop.run_fails ⟨rfl, not_answersComplete_nil⟩ h, errorText_ne_nil]

def scriptSocket : UdpSocket (List UdpRecv) Unit where
  send _ _ script := .ok script
  recv _ script := (script.headD (.timedOut ""), script.tail)

/-- An answer of ERROR in two parts, the first one without a text. -/
theorem errorAnswer_fails_twoParts :
    sendPacketWithAck scriptSocket 3 7 ⟨udpIdFastboot, udpFlagNone, [1]⟩ [(), (), ()]
        [.datagram [0, 1, 0, 7], .timedOut "", .datagram [0, 0, 0, 8, 33]]
      = .returned (.error (.protocol "UDP Error response from target: !")) [] 9
        [(⟨0, 1, 7⟩, []), (⟨0, 0, 8⟩, [33])] ∧
      ¬ ∃ data, (.error (.protocol "UDP Error response from target: !")
        : Except FastbootTransportError (List UInt8)) = .ok data :=
  have hr : sendPacketWithAck scriptSocket 3 7 ⟨udpIdFastboot, udpFlagNone, [1]⟩ [(), (), ()]
      [.datagram [0, 1, 0, 7], .timedOut "", .datagram [0, 0, 0, 8, 33]]
      = .returned (.error (.protocol "UDP Error response from target: !")) [] 9
        [(⟨0, 1, 7⟩, []), (⟨0, 0, 8⟩, [33])] := rfl
  ⟨hr, (errorAnswer_fails_iff _ _ _ _ _ _ hr).mpr
    (fun _ => .inr ⟨(⟨0, 0, 8⟩, [33]), by simp, rfl, by simp⟩) ⟨(⟨0, 1, 7⟩, []), by simp, rfl⟩⟩

/-- An ERROR answer without a text is taken as the acknowledgement. -/
theorem errorAnswer_succeeds :
    sendPacketWithAck scriptSocket 3 7 ⟨udpIdFastboot, udpFlagNone, [1]⟩ [()]
        [.datagram [0, 0, 0, 7]] = .returned (.ok []) [] 8 [(⟨0, 0, 7⟩, [])] ∧
      IsErrorAnswer (⟨0, 0, 7⟩, []) :=
  ⟨rfl, rfl⟩

end AdbFastboot
