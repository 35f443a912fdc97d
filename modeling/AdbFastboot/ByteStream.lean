import Mathlib.Data.List.Basic

namespace AdbFastboot

inductive IoError where
  | unexpectedEof
  | invalidInput (text : String)
  | invalidData (text : String)
deriving DecidableEq, Repr

def IoError.text : IoError → String
  | .unexpectedEof => "failed to fill whole buffer"
  | .invalidInput text => text
  | .invalidData text => text

/-- A call on a byte stream. A reader takes bytes off the front, a writer adds them at the end. -/
abbrev StreamCall (ε α : Type) := ExceptT ε (StateM (List UInt8)) α

namespace StreamCall

variable {ε δ α β : Type}

def runOn (x : StreamCall ε α) (stream : List UInt8) : Except ε α × List UInt8 :=
  StateT.run (ExceptT.run x) stream

def mapErr (f : ε → δ) (x : StreamCall ε α) : StreamCall δ α := ExceptT.adapt f x

def attempt (x : StreamCall ε α) : StreamCall δ (Except ε α) :=
  ExceptT.mk fun stream => ((.ok (x.runOn stream).1, (x.runOn stream).2) : Except δ _ × _)

@[simp] theorem runOn_attempt (x : StreamCall ε α) (stream : List UInt8) :
    (x.attempt : StreamCall δ _).runOn stream = (.ok (x.runOn stream).1, (x.runOn stream).2) := rfl

theorem runOn_mapErr (f : ε → δ) (x : StreamCall ε α) (stream : List UInt8) :
    (x.mapErr f).runOn stream = ((x.runOn stream).1.mapError f, (x.runOn stream).2) := rfl

theorem runOn_bind (x : StreamCall ε α) (f : α → StreamCall ε β) (stream : List UInt8) :
    (x >>= f).runOn stream = match x.runOn stream with
      | (.ok a, rest) => (f a).runOn rest
      | (.error e, rest) => (.error e, rest) := by
  unfold runOn
  rw [ExceptT.run_bind, StateT.run_bind]
  rcases StateT.run (ExceptT.run x) stream with ⟨r, rest⟩
  cases r <;> rfl

variable {x : StreamCall ε α} {f : α → StreamCall ε β} {rest stream : List UInt8}

theorem runOn_bind_ok {a : α} (h : x.runOn stream = (.ok a, rest)) :
    (x >>= f).runOn stream = (f a).runOn rest := by
  rw [runOn_bind, h]

theorem runOn_mapErr_ok {f : ε → δ} {a : α} (h : x.runOn stream = (.ok a, rest)) :
    (x.mapErr f).runOn stream = (.ok a, rest) := by
  rw [runOn_mapErr, h]
  rfl

end StreamCall

/-- `read_exact`. At the end of the stream, the bytes that were there are gone. -/
def StreamCall.readExact (n : Nat) : StreamCall IoError (List UInt8) :=
  ExceptT.mk fun stream =>
    if n ≤ stream.length then (.ok (stream.take n), stream.drop n)
    else (.error .unexpectedEof, [])

def StreamCall.writeAll {ε : Type} (bytes : List UInt8) : StreamCall ε Unit :=
  ExceptT.mk fun stream => ((.ok (), stream ++ bytes) : Except ε Unit × _)

@[simp] theorem runOn_writeAll {ε : Type} (bytes stream : List UInt8) :
    (StreamCall.writeAll bytes : StreamCall ε Unit).runOn stream = (.ok (), stream ++ bytes) := rfl

theorem runOn_readExact (n : Nat) (stream : List UInt8) : (StreamCall.readExact n).runOn stream =
      if n ≤ stream.length then (.ok (stream.take n), stream.drop n)
      else (.error .unexpectedEof, []) := rfl

/-- Exactly the bytes that are asked for are taken off the stream. -/
theorem runOn_readExact_append {bytes : List UInt8} {n : Nat} (h : bytes.length = n)
    (rest : List UInt8) : (StreamCall.readExact n).runOn (bytes ++ rest) = (.ok bytes, rest) := by
  have hle : n ≤ (bytes ++ rest).length := by
    rw [List.length_append]
    omega
  rw [runOn_readExact, if_pos hle, List.take_left' h, List.drop_left' h]

/-- What `send` writes is read by `read` as `value`, and what follows on the stream is left. -/
def ReadsBack {ε δ α : Type} (send : StreamCall ε Unit) (read : StreamCall δ α)
    (value : Except δ α) : Prop :=
  ∃ bytes, send.runOn [] = (.ok (), bytes) ∧ ∀ rest, read.runOn (bytes ++ rest) = (value, rest)

end AdbFastboot
