/-
  PuppetMaster.Core.Message — `transport::MessageDescriptor`, `transport::Message` and what
  a fill function does.

  Time points are nanoseconds since the clock's epoch; `TimePoint {}` is 0. A fill
  function gets `capacity` writable bytes and returns how many it used, fails or throws;
  it may leave any bytes behind in them. `invokeFill` is `transport::detail::InvokeFill`.
-/

import PuppetMaster.Core.Status

namespace PuppetMaster.Core

structure MessageDescriptor where
  typeName : Bytes
  encoding : Bytes
  version : UInt32
  deriving DecidableEq

def MessageDescriptor.toText (d : MessageDescriptor) : Bytes :=
  d.typeName ++ (if d.version = 0 then [] else text s!" v{d.version.toNat}") ++ text " (" ++ d.encoding ++ text ")"

def MessageDescriptor.validate (d : MessageDescriptor) : Status :=
  if d.typeName.isEmpty then .error .invalidArgument (text "message type name must not be empty")
  else if d.encoding.isEmpty then .error .invalidArgument (text "message encoding must not be empty")
  else .ok

structure Metadata where
  sequence : Nat
  sourceTimestamp : Int
  receptionTimestamp : Int := 0
  deriving DecidableEq, Repr

structure Message where
  payload : Bytes
  metadata : Metadata
  deriving DecidableEq, Repr

/-- How the call of a fill function ended. -/
inductive FillReturn where
  | returned (used : Result Nat)
  | threw

/-- A fill function: from the bytes it finds in its buffer, the bytes it leaves there
    and how it ended. Only the first `capacity` bytes are its own. -/
abbrev FillFunction := (capacity : Nat) → (buffer : Nat → UInt8) → (Nat → UInt8) × FillReturn

def invokeFill (capacity : Nat) : FillReturn → Result Nat
  | .returned (.ok used) =>
    if capacity < used then
      .error (.error .outOfRange (text s!"fill function reported {used} bytes for a {capacity}-byte buffer"))
    else .ok used
  | .returned (.error status) => .error status
  | .threw => .error (.error .internal (text "fill function threw an exception"))

theorem invokeFill_le {capacity used : Nat} {r : FillReturn} (h : invokeFill capacity r = .ok used) :
    used ≤ capacity := by
  rcases r with (e | n) | _
  · cases h
  · simp only [invokeFill] at h
    split at h
    · cases h
    · cases h; omega
  · cases h

/-- The buffer after a fill function that owns its first `capacity` bytes. -/
def overwrite (capacity : Nat) (new old : Nat → UInt8) : Nat → UInt8 :=
  fun i => if i < capacity then new i else old i

/-- The first `n` bytes at an address. -/
def bytesAt (memory : Nat → UInt8) (n : Nat) : Bytes := (List.range n).map memory

@[simp] theorem bytesAt_length (memory : Nat → UInt8) (n : Nat) : (bytesAt memory n).length = n := by
  simp [bytesAt]

theorem bytesAt_succ (memory : Nat → UInt8) (n : Nat) : bytesAt memory (n + 1) = bytesAt memory n ++ [memory n] := by
  simp [bytesAt, List.range_succ]

theorem bytesAt_congr {m m' : Nat → UInt8} {n : Nat} (h : ∀ i < n, m i = m' i) : bytesAt m n = bytesAt m' n :=
  List.map_congr_left fun i hi => h i (List.mem_range.mp hi)

end PuppetMaster.Core
