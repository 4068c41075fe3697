/-
  PuppetMaster.Service.Codec — requests and replies on the wire.

  A 32-byte header of little-endian fields, then the payload: magic, version, status,
  client id, request id, budget. `decode` drops whatever is not a message of the kind
  asked for. `decode_encode`: a message of that kind comes back as it was sent.
  `encode_of_decode`: nothing else is accepted, so the two are inverse on the messages of
  one kind (`decode_exact`, with what makes a message be dropped).
-/

import PuppetMaster.Core.Status
import PuppetMaster.Lib.LittleEndian

namespace PuppetMaster.Service

open PuppetMaster.Core PuppetMaster.Lib

def putU16 (value : UInt16) : Bytes := putLe 2 value.toNat

def putU32 (value : UInt32) : Bytes := putLe 4 value.toNat

def putU64 (value : UInt64) : Bytes := putLe 8 value.toNat

def getU16 (bytes : Bytes) : UInt16 := UInt16.ofNat (getLe (bytes.take 2))

def getU32 (bytes : Bytes) : UInt32 := UInt32.ofNat (getLe (bytes.take 4))

def getU64 (bytes : Bytes) : UInt64 := UInt64.ofNat (getLe (bytes.take 8))

def requestMagic : UInt32 := 0x51524d50

def replyMagic : UInt32 := 0x50524d50

def headerVersion : UInt16 := 2

def headerSize : Nat := 32

/-- The enumerators of `core::StatusCode`, in their order. -/
def statusCodes : List StatusCode :=
  [.ok, .cancelled, .unknown, .invalidArgument, .notFound, .alreadyExists, .failedPrecondition, .outOfRange,
    .permissionDenied, .resourceExhausted, .unsupported, .unavailable, .deadlineExceeded, .dataLoss, .internal]

def statusNumber (code : StatusCode) : UInt16 := UInt16.ofNat (statusCodes.idxOf code)

/-- The cast back, for a number that is not past `kInternal`. -/
def statusOfNumber (value : UInt16) : Option StatusCode := statusCodes[value.toNat]?

theorem statusOfNumber_statusNumber (code : StatusCode) : statusOfNumber (statusNumber code) = some code := by
  cases code <;> rfl

theorem statusNumber_statusOfNumber {value : UInt16} {code : StatusCode} (h : statusOfNumber value = some code) :
    statusNumber code = value := by
  obtain ⟨hlt, hget⟩ := List.getElem?_eq_some_iff.mp h
  have hnodup : statusCodes.Nodup := by decide
  rw [statusNumber, ← hget, hnodup.idxOf_getElem _ hlt]
  exact UInt16.ofNat_toNat

structure Header where
  magic : UInt32
  status : StatusCode := .ok
  clientId : UInt64
  requestId : UInt64
  /-- Of a request: how long the client will wait. -/
  budgetNs : Int64 := 0
  deriving DecidableEq

def encode (header : Header) (payload : Bytes) : Bytes :=
  putU32 header.magic ++ (putU16 headerVersion ++ (putU16 (statusNumber header.status)
    ++ (putU64 header.clientId ++ (putU64 header.requestId ++ (putU64 header.budgetNs.toUInt64 ++ payload)))))

def decode (message : Bytes) (magic : UInt32) : Option (Header × Bytes) :=
  if message.length < headerSize ∨ getU32 message ≠ magic ∨ getU16 (message.drop 4) ≠ headerVersion then none
  else
    match statusOfNumber (getU16 (message.drop 6)) with
    | none => none
    | some status =>
      some (⟨magic, status, getU64 (message.drop 8), getU64 (message.drop 16), (getU64 (message.drop 24)).toInt64⟩,
        message.drop headerSize)

/-! ## Fields -/

section Fields

variable (rest : Bytes)

@[simp] theorem getU16_put (value : UInt16) : getU16 (putU16 value ++ rest) = value := by
  unfold getU16 putU16
  rw [take_put, getLe_putLe_of_lt value.toNat_lt]
  exact UInt16.ofNat_toNat

@[simp] theorem getU32_put (value : UInt32) : getU32 (putU32 value ++ rest) = value := by
  unfold getU32 putU32
  rw [take_put, getLe_putLe_of_lt value.toNat_lt]
  exact UInt32.ofNat_toNat

@[simp] theorem getU64_put (value : UInt64) : getU64 (putU64 value ++ rest) = value := by
  unfold getU64 putU64
  rw [take_put, getLe_putLe_of_lt value.toNat_lt]
  exact UInt64.ofNat_toNat

theorem drop_putU16 (value : UInt16) (n : Nat) : (putU16 value ++ rest).drop (2 + n) = rest.drop n := by
  rw [← List.drop_drop, putU16, drop_put]

theorem drop_putU32 (value : UInt32) (n : Nat) : (putU32 value ++ rest).drop (4 + n) = rest.drop n := by
  rw [← List.drop_drop, putU32, drop_put]

theorem drop_putU64 (value : UInt64) (n : Nat) : (putU64 value ++ rest).drop (8 + n) = rest.drop n := by
  rw [← List.drop_drop, putU64, drop_put]

/-! A field at `n` is what its getter returns, written again. -/

section

variable {message : Bytes} (n : Nat)

theorem putU16_get (h : n + 2 ≤ message.length) :
    putU16 (getU16 (message.drop n)) ++ message.drop (n + 2) = message.drop n := by
  have hlt : getLe ((message.drop n).take 2) < 2 ^ 16 := getLe_take_lt 2 _
  rw [putU16, getU16, UInt16.toNat_ofNat_of_lt' hlt, ← List.drop_drop, put_getLe]
  rw [List.length_drop]
  omega

theorem putU32_get (h : n + 4 ≤ message.length) :
    putU32 (getU32 (message.drop n)) ++ message.drop (n + 4) = message.drop n := by
  have hlt : getLe ((message.drop n).take 4) < 2 ^ 32 := getLe_take_lt 4 _
  rw [putU32, getU32, UInt32.toNat_ofNat_of_lt' hlt, ← List.drop_drop, put_getLe]
  rw [List.length_drop]
  omega

theorem putU64_get (h : n + 8 ≤ message.length) :
    putU64 (getU64 (message.drop n)) ++ message.drop (n + 8) = message.drop n := by
  have hlt : getLe ((message.drop n).take 8) < 2 ^ 64 := getLe_take_lt 8 _
  rw [putU64, getU64, UInt64.toNat_ofNat_of_lt' hlt, ← List.drop_drop, put_getLe]
  rw [List.length_drop]
  omega

end

end Fields

theorem encode_length (header : Header) (payload : Bytes) :
    (encode header payload).length = headerSize + payload.length := by
  simp only [encode, putU16, putU32, putU64, List.length_append, length_putLe, headerSize]
  omega

theorem decode_encode (header : Header) (payload : Bytes) :
    decode (encode header payload) header.magic = some (header, payload) := by
  have hlen : ¬ (encode header payload).length < headerSize := by
    rw [encode_length]
    omega
  have hmagic : getU32 (encode header payload) = header.magic := getU32_put _ _
  have hversion : getU16 ((encode header payload).drop 4) = headerVersion := by
    rw [encode, drop_putU32 _ _ 0, List.drop_zero, getU16_put]
  have hstatus : getU16 ((encode header payload).drop 6) = statusNumber header.status := by
    rw [encode, drop_putU32 _ _ 2, drop_putU16 _ _ 0, List.drop_zero, getU16_put]
  have hclient : getU64 ((encode header payload).drop 8) = header.clientId := by
    rw [encode, drop_putU32 _ _ 4, drop_putU16 _ _ 2, drop_putU16 _ _ 0, List.drop_zero, getU64_put]
  have hrequest : getU64 ((encode header payload).drop 16) = header.requestId := by
    rw [encode, drop_putU32 _ _ 12, drop_putU16 _ _ 10, drop_putU16 _ _ 8, drop_putU64 _ _ 0, List.drop_zero, getU64_put]
  have hbudget : getU64 ((encode header payload).drop 24) = header.budgetNs.toUInt64 := by
    rw [encode, drop_putU32 _ _ 20, drop_putU16 _ _ 18, drop_putU16 _ _ 16, drop_putU64 _ _ 8, drop_putU64 _ _ 0,
      List.drop_zero, getU64_put]
  have hpayload : (encode header payload).drop headerSize = payload := by
    rw [encode, headerSize, drop_putU32 _ _ 28, drop_putU16 _ _ 26, drop_putU16 _ _ 24, drop_putU64 _ _ 16,
      drop_putU64 _ _ 8, drop_putU64 _ _ 0, List.drop_zero]
  unfold decode
  rw [if_neg (by simp [hlen, hmagic, hversion]), hstatus, statusOfNumber_statusNumber]
  simp [hclient, hrequest, hbudget, hpayload]

/-! ## Nothing but an encoding is accepted -/

/-- The fields of an accepted message. -/
theorem decode_some {message payload : Bytes} {magic : UInt32} {header : Header}
    (h : decode message magic = some (header, payload)) :
    headerSize ≤ message.length ∧ getU32 message = magic ∧ getU16 (message.drop 4) = headerVersion
      ∧ statusOfNumber (getU16 (message.drop 6)) = some header.status
      ∧ header = ⟨magic, header.status, getU64 (message.drop 8), getU64 (message.drop 16),
          (getU64 (message.drop 24)).toInt64⟩
      ∧ payload = message.drop headerSize := by
  unfold decode at h
  split at h
  · cases h
  · rename_i hmessage
    rw [not_or, not_or, not_not, not_not, Nat.not_lt] at hmessage
    split at h
    · cases h
    · rename_i status hstatus
      cases h
      exact ⟨hmessage.1, hmessage.2.1, hmessage.2.2, hstatus, rfl, rfl⟩

theorem encode_of_decode {message payload : Bytes} {magic : UInt32} {header : Header}
    (h : decode message magic = some (header, payload)) : encode header payload = message := by
  obtain ⟨hlen, hmagic, hversion, hstatus, hheader, hpayload⟩ := decode_some h
  have hsize : 32 ≤ message.length := hlen
  rw [hheader, encode]
  show putU32 magic ++ (putU16 headerVersion ++ (putU16 (statusNumber header.status) ++ (putU64 (getU64 (message.drop 8))
    ++ (putU64 (getU64 (message.drop 16)) ++ (putU64 (getU64 (message.drop 24)) ++ payload))))) = message
  -- From the payload back: each field is the front of what is left of the message.
  have hcode : putU16 (statusNumber header.status) ++ message.drop 8 = message.drop 6 := by
    rw [statusNumber_statusOfNumber hstatus]
    exact putU16_get 6 (by omega)
  have hformat : putU16 headerVersion ++ message.drop 6 = message.drop 4 := by
    rw [← hversion]
    exact putU16_get 4 (by omega)
  have hkind : putU32 magic ++ message.drop 4 = message := by
    rw [← hmagic]
    exact putU32_get 0 (by omega)
  rw [hpayload, headerSize, putU64_get 24 (by omega), putU64_get 16 (by omega), putU64_get 8 (by omega), hcode, hformat, hkind]

/-- What makes a message be dropped. -/
theorem decode_eq_none_iff {message : Bytes} {magic : UInt32} :
    decode message magic = none ↔ message.length < headerSize ∨ getU32 message ≠ magic
      ∨ getU16 (message.drop 4) ≠ headerVersion ∨ statusNumber .internal < getU16 (message.drop 6) := by
  have hstatus (value : UInt16) : statusOfNumber value = none ↔ statusNumber .internal < value := by
    rw [statusOfNumber, List.getElem?_eq_none_iff, UInt16.lt_iff_toNat_lt]
    rfl
  constructor
  · intro h
    unfold decode at h
    split at h
    · rename_i hmessage
      rcases hmessage with hshort | hmagic | hversion
      · exact .inl hshort
      · exact .inr (.inl hmagic)
      · exact .inr (.inr (.inl hversion))
    · split at h
      · rename_i hnone
        exact .inr (.inr (.inr ((hstatus _).mp hnone)))
      · cases h
  · intro h
    cases hdecode : decode message magic with
    | none => rfl
    | some accepted =>
      obtain ⟨header, payload⟩ := accepted
      obtain ⟨hlen, hmagic, hversion, hcode, _⟩ := decode_some hdecode
      rcases h with hshort | hother | hother | hunknown
      · omega
      · exact absurd hmagic hother
      · exact absurd hversion hother
      · rw [(hstatus _).mpr hunknown] at hcode
        cases hcode

/-- Both ways: a sent message comes back as its header and payload, what is accepted is the
    encoding of what is returned, and everything else is dropped for one of four reasons. -/
theorem decode_exact (message : Bytes) (magic : UInt32) :
    (∀ header payload, decode (encode header payload) header.magic = some (header, payload))
      ∧ (∀ header payload, decode message magic = some (header, payload)
          ↔ header.magic = magic ∧ message = encode header payload)
      ∧ (decode message magic = none ↔ message.length < headerSize ∨ getU32 message ≠ magic
          ∨ getU16 (message.drop 4) ≠ headerVersion ∨ statusNumber .internal < getU16 (message.drop 6)) := by
  refine ⟨decode_encode, ?_, decode_eq_none_iff⟩
  intro header payload
  constructor
  · intro h
    have hmagic : header.magic = magic := by rw [(decode_some h).2.2.2.2.1]
    exact ⟨hmagic, (encode_of_decode h).symm⟩
  · intro h
    obtain ⟨rfl, rfl⟩ := h
    exact decode_encode header payload

end PuppetMaster.Service
