import Mathlib.Logic.Function.Basic
import AdbFastboot.HostRegistry
import AdbFastboot.StepRun

namespace AdbFastboot

structure ReconnectEntry where
  serial : Text
  addr : SocketAddr
  retryCount : UInt32
  maxRetries : UInt32
  nextAttempt : Nat
  kicked : Bool

/-- A call that locks the queue and then the reference counts. -/
inductive QueueCall where
  | addTransport (serial : Text) (addr : SocketAddr)
  | clearQueue

structure ReconnectHandler where
  maxRetries : UInt32
  queue : List ReconnectEntry
  refCounts : Text → Option UInt32
  /-- The call that holds the queue and waits for the counts. -/
  queueCall : Option QueueCall
  /-- The serial of the `transport_unref` that holds the counts and waits for the queue. -/
  unref : Option Text

/-- A call takes its first lock, or its second, under which it ends. -/
inductive ReconnectStep where
  | queueCall (call : QueueCall)
  | queueCallEnds (now : Nat)
  | transportUnref (serial : Text)
  | unrefEnds
  | refCount (serial : Text)

namespace ReconnectHandler

def start (maxRetries : UInt32) : ReconnectHandler := ⟨maxRetries, [], fun _ => none, none, none⟩

def decrement (count : UInt32) : UInt32 := if 0 < count then count - 1 else count

variable (s : ReconnectHandler)

def addTransport (serial : Text) (addr : SocketAddr) (now : Nat) : ReconnectHandler :=
  let queued := fun e : ReconnectEntry => decide (e.serial = serial)
  { s with
    queue :=
      if s.queue.any queued then
        modifyFirst queued
          (fun e => { e with addr, retryCount := 0, nextAttempt := now, kicked := false }) s.queue
      else s.queue ++ [⟨serial, addr, 0, s.maxRetries, now, false⟩]
    refCounts := Function.update s.refCounts serial (some ((s.refCounts serial).getD 0 + 1)) }

/-- `clear_queue` clears the queue before it locks the counts. -/
def step : ReconnectStep → Option ReconnectHandler
  | .queueCall call =>
    if s.queueCall.isSome then none
    else
      let queue := match call with
        | .addTransport _ _ => s.queue
        | .clearQueue => []
      some { s with queue, queueCall := some call }
  | .queueCallEnds now =>
    match s.queueCall, s.unref with
    | some (.addTransport serial addr), none =>
      some { s.addTransport serial addr now with queueCall := none }
    | some .clearQueue, none => some { s with refCounts := fun _ => none, queueCall := none }
    | _, _ => none
  | .transportUnref serial =>
    if s.unref.isSome then none
    else match s.refCounts serial with
      | none => some s
      | some count =>
        let refCounts := Function.update s.refCounts serial (some (decrement count))
        some { s with refCounts, unref := if decrement count = 0 then some serial else none }
  | .unrefEnds =>
    match s.unref, s.queueCall with
    | some serial, none => some { s with
        queue := s.queue.filter fun e => decide (e.serial ≠ serial)
        refCounts := Function.update s.refCounts serial none
        unref := none }
    | _, _ => none
  | .refCount _ => if s.unref.isSome then none else some s

/-- No call goes on, and none can begin. -/
def Deadlocked : Prop := ∀ a, s.step a = none

/-- A first lock is taken only while no call with the other first lock waits for it. -/
def TakesInOrder : ReconnectStep → Prop
  | .queueCall _ => s.unref = none
  | .transportUnref serial =>
    ∀ count, s.refCounts serial = some count → count ≤ 1 → s.queueCall = none
  | _ => True

variable {s}

theorem decrement_eq_zero {count : UInt32} : decrement count = 0 ↔ count ≤ 1 := by
  unfold decrement
  split <;> grind

theorem deadlocked_iff : s.Deadlocked ↔ s.queueCall ≠ none ∧ s.unref ≠ none := by
  constructor
  · intro h
    have hq := h (.queueCall .clearQueue)
    have hc := h (.refCount [])
    simp [step, ← Option.isSome_iff_ne_none] at hq hc ⊢
    exact ⟨hq, hc⟩
  · rintro ⟨hq, hu⟩ a
    obtain ⟨call, hcall⟩ := Option.ne_none_iff_exists'.mp hq
    obtain ⟨serial, hs⟩ := Option.ne_none_iff_exists'.mp hu
    cases a <;> simp [step, hcall, hs]

/-- A step deadlocks exactly if it takes a first lock that the other call waits for. -/
theorem step_deadlocked_iff {a : ReconnectStep} (h : ¬s.Deadlocked) :
    s.TakesInOrder a ↔ ∀ s', s.step a = some s' → ¬s'.Deadlocked := by
  simp only [deadlocked_iff, not_and_or, not_not] at h ⊢
  cases a with
  | queueCall call =>
    cases hc : s.queueCall with
    | some other => simpa [step, TakesInOrder, hc] using h
    | none => simp [step, TakesInOrder, hc]
  | queueCallEnds now =>
    refine ⟨fun _ s' hs' => .inl ?_, fun _ => trivial⟩
    simp only [step] at hs'
    split at hs' <;> cases hs' <;> rfl
  | transportUnref serial =>
    cases hu : s.unref with
    | some other =>
      have hc := h.resolve_right (by simp [hu])
      simp [step, TakesInOrder, hu, hc]
    | none =>
      cases hcount : s.refCounts serial with
      | none => simp [step, TakesInOrder, hu, hcount]
      | some count => simp [step, TakesInOrder, hu, hcount, decrement_eq_zero, or_iff_not_imp_right]
  | unrefEnds =>
    refine ⟨fun _ s' hs' => .inr ?_, fun _ => trivial⟩
    simp only [step] at hs'
    split at hs' <;> cases hs'
    rfl
  | refCount serial =>
    refine ⟨fun _ s' hs' => ?_, fun _ => trivial⟩
    simp only [step] at hs'
    split at hs' <;> cases hs'
    exact h

/-- The calls never wait for each other, exactly if every first lock is taken in order. -/
theorem reconnect_deadlock_iff (maxRetries : UInt32) (as : List ReconnectStep) :
    (∀ front s, front <+: as → runSteps step (start maxRetries) front = some s → ¬s.Deadlocked)
      ↔ StepsMeet step TakesInOrder (start maxRetries) as := by
  refine runSteps_invariant_iff step_deadlocked_iff ?_
  rw [deadlocked_iff]
  exact fun h => h.1 rfl

def lastUnref : List ReconnectStep :=
  [.queueCall (.addTransport [] ⟨[], 5555, none⟩), .queueCallEnds 0, .queueCall .clearQueue,
    .transportUnref []]

/-- `clear_queue` holds the queue when the last reference is dropped. -/
theorem reconnect_deadlocked : ∃ s, runSteps step (start 0) lastUnref = some s ∧ s.Deadlocked :=
  ⟨_, rfl, deadlocked_iff.mpr ⟨by decide, by decide⟩⟩

end ReconnectHandler

end AdbFastboot
