/-
  PuppetMaster.Transport.BytePayload — what the FastDDS endpoints put on the wire
  (byte_payload_type.cpp): an encapsulation header of four bytes, the length of the payload in
  four, and the payload.

  The buffer of a `SerializedPayload_t` belongs to DDS. A load or a store outside it has no
  result (`none`): the code would touch memory that is not its own.

  - `payload_carried`: serializing touches the buffer only, succeeds exactly when the payload
    fits, and what is deserialized of it is the payload.
  - `deserialize_accepts_iff`: deserializing accepts exactly an encoding with whatever header
    and whatever behind it.
-/

import PuppetMaster.Core.Status
import PuppetMaster.Lib.LittleEndian

namespace PuppetMaster.FastDds

open PuppetMaster.Core PuppetMaster.Lib

/-! ## Buffers -/

def load (buffer : Bytes) (offset count : Nat) : Option Bytes :=
  if offset + count ≤ buffer.length then some ((buffer.drop offset).take count) else none

def store (buffer : Bytes) (offset : Nat) (bytes : Bytes) : Option Bytes :=
  if offset + bytes.length ≤ buffer.length then some (buffer.take offset ++ bytes ++ buffer.drop (offset + bytes.length))
  else none

theorem store_middle {front old bytes rest : Bytes} {offset : Nat} (hoffset : offset = front.length)
    (hlength : bytes.length = old.length) : store (front ++ old ++ rest) offset bytes = some (front ++ bytes ++ rest) := by
  subst hoffset
  have htake : (front ++ old ++ rest).take front.length = front := by rw [List.append_assoc, List.take_left]
  have hdrop : (front ++ old ++ rest).drop (front.length + bytes.length) = rest := by
    rw [hlength, ← List.length_append, List.drop_left]
  rw [store, if_pos (by simp only [List.length_append]; omega), htake, hdrop]

theorem load_middle {front bytes rest : Bytes} {offset count : Nat} (hoffset : offset = front.length)
    (hcount : count = bytes.length) : load (front ++ bytes ++ rest) offset count = some bytes := by
  subst hoffset hcount
  rw [load, if_pos (by simp only [List.length_append]; omega), List.append_assoc, List.drop_left, List.take_left]

/-! ## The type -/

def kEncapsulationCdrLe : UInt16 := 0x0001
def kEncapsulationSize : Nat := 4
def kLengthSize : Nat := 4
def kHeaderSize : Nat := kEncapsulationSize + kLengthSize

/-- The representation id, highest byte first, and two option bytes. -/
def encapsulationHeader : Bytes := [(kEncapsulationCdrLe >>> 8).toUInt8, kEncapsulationCdrLe.toUInt8, 0, 0]

structure SerializedPayload where
  data : Option Bytes
  maxSize : UInt32
  length : UInt32
  encapsulation : UInt16
  deriving DecidableEq

/-- What DDS hands over: a buffer of `maxSize` bytes, the first `length` of which count. -/
structure SerializedPayload.WellFormed (payload : SerializedPayload) : Prop where
  buffer : ∀ data, payload.data = some data → data.length = payload.maxSize.toNat
  length : payload.length ≤ payload.maxSize

def serializedSize (payload : Bytes) : Option UInt32 :=
  if payload.length > 2 ^ 32 - 1 - kHeaderSize then none else some (UInt32.ofNat kHeaderSize + UInt32.ofNat payload.length)

/-- The buffer to be allocated for a sample. -/
def calculateSerializedSize (sample : Bytes) : UInt32 := (serializedSize sample).getD (UInt32.ofNat kHeaderSize)

def serializeInto (sample : Bytes) (payload : SerializedPayload) : Option (Bool × SerializedPayload) :=
  match serializedSize sample, payload.data with
  | some size, some data =>
    if payload.maxSize < size then some (false, payload)
    else do
      let data ← store data 0 encapsulationHeader
      let data ← store data kEncapsulationSize (putLe kLengthSize (UInt32.ofNat sample.length).toNat)
      let data ← if sample.isEmpty then some data else store data kHeaderSize sample
      return (true, { payload with data := some data, encapsulation := kEncapsulationCdrLe, length := size })
  | _, _ => some (false, payload)

/-- The sample stays as it was where the payload is refused. -/
def deserializeFrom (payload : SerializedPayload) (sample : Bytes) : Option (Bool × Bytes) :=
  match payload.data with
  | none => some (false, sample)
  | some data =>
    if payload.length < UInt32.ofNat kHeaderSize then some (false, sample)
    else do
      let length := UInt32.ofNat (getLe (← load data kEncapsulationSize kLengthSize))
      if length > payload.length - UInt32.ofNat kHeaderSize then return (false, sample)
      else return (true, ← load data kHeaderSize length.toNat)

/-! ## What it carries -/

theorem serializedSize_eq (sample : Bytes) :
    (sample.length ≤ 2 ^ 32 - 9 ∧ ∃ size, serializedSize sample = some size ∧ size.toNat = kHeaderSize + sample.length) ∨
      2 ^ 32 - 9 < sample.length ∧ serializedSize sample = none := by
  by_cases hlarge : sample.length > 2 ^ 32 - 1 - kHeaderSize
  · refine .inr ⟨by simp only [kHeaderSize, kEncapsulationSize, kLengthSize] at hlarge; omega, ?_⟩
    rw [serializedSize, if_pos hlarge]
  · have hsmall : sample.length ≤ 2 ^ 32 - 9 := by
      simp only [kHeaderSize, kEncapsulationSize, kLengthSize] at hlarge
      omega
    refine .inl ⟨hsmall, _, by rw [serializedSize, if_neg hlarge], ?_⟩
    rw [UInt32.toNat_add, UInt32.toNat_ofNat', UInt32.toNat_ofNat']
    simp only [kHeaderSize, kEncapsulationSize, kLengthSize]
    omega

/-- A sample as it stands in a buffer, behind whatever header. -/
def encoded (header sample : Bytes) : Bytes := header ++ putLe kLengthSize sample.length ++ sample

theorem length_encoded {header sample : Bytes} (hheader : header.length = kEncapsulationSize) :
    (encoded header sample).length = kHeaderSize + sample.length := by
  rw [encoded, List.length_append, List.length_append, length_putLe, hheader]
  rfl

theorem deserialize_encoded {payload : SerializedPayload} {header received rest : Bytes}
    (hheader : header.length = kEncapsulationSize)
    (hdata : payload.data = some (encoded header received ++ rest))
    (hlength : kHeaderSize + received.length ≤ payload.length.toNat)
    (sample : Bytes) : deserializeFrom payload sample = some (true, received) := by
  have hbound := payload.length.toNat_lt
  have hsmall : received.length < 256 ^ kLengthSize := by
    simp only [kHeaderSize, kEncapsulationSize, kLengthSize] at hlength ⊢
    omega
  have hread : load (encoded header received ++ rest) kEncapsulationSize kLengthSize = some
    (putLe kLengthSize received.length) := by
    rw [encoded, List.append_assoc]
    exact load_middle hheader.symm (length_putLe _ _).symm
  have hcount : (UInt32.ofNat received.length).toNat = received.length := by
    rw [UInt32.toNat_ofNat']
    exact Nat.mod_eq_of_lt hsmall
  have hlong : ¬ payload.length < UInt32.ofNat kHeaderSize := by
    rw [UInt32.lt_iff_toNat_lt]
    simp only [kHeaderSize, kEncapsulationSize, kLengthSize] at hlength ⊢
    show ¬ payload.length.toNat < 8
    omega
  have hfits : ¬ UInt32.ofNat received.length > payload.length - UInt32.ofNat kHeaderSize := by
    have hle : UInt32.ofNat kHeaderSize ≤ payload.length := UInt32.not_lt.mp hlong
    show ¬ payload.length - UInt32.ofNat kHeaderSize < UInt32.ofNat received.length
    rw [UInt32.lt_iff_toNat_lt, UInt32.toNat_sub_of_le _ _ hle, hcount]
    have height : (UInt32.ofNat kHeaderSize).toNat = kHeaderSize := rfl
    omega
  have hpayload : load (encoded header received ++ rest) kHeaderSize received.length = some received := by
    refine load_middle ?_ rfl
    rw [List.length_append, length_putLe, hheader]
    rfl
  simp only [deserializeFrom, hdata, if_neg hlong, hread, Option.bind_eq_bind, Option.bind_some,
    getLe_putLe_of_lt hsmall, if_neg hfits, hcount, hpayload]
  rfl

def Fits (sample : Bytes) (payload : SerializedPayload) : Prop :=
  payload.data ≠ none ∧ kHeaderSize + sample.length ≤ payload.maxSize.toNat

theorem serialize_refuses {sample : Bytes} {payload : SerializedPayload} (h : ¬ Fits sample payload) :
    serializeInto sample payload = some (false, payload) := by
  rcases serializedSize_eq sample with ⟨hsmall, size, hsize, hcount⟩ | ⟨hlarge, hnone⟩
  · cases hdata : payload.data with
    | none => simp only [serializeInto, hsize, hdata]
    | some data =>
      have hshort : payload.maxSize < size := by
        rw [UInt32.lt_iff_toNat_lt, hcount]
        refine Nat.lt_of_not_le fun hfits => h ⟨?_, hfits⟩
        rw [hdata]
        exact Option.some_ne_none data
      simp only [serializeInto, hsize, hdata, if_pos hshort]
  · simp only [serializeInto, hnone]

/-- The buffer's bytes, by what takes their place. -/
theorem buffer_parts {data : Bytes} {count : Nat} (h : kHeaderSize + count ≤ data.length) :
    ∃ front old behind : Bytes, data = front ++ old ++ behind ++ data.drop (kHeaderSize + count) ∧
      front.length = kEncapsulationSize ∧ old.length = kLengthSize ∧ behind.length = count := by
  simp only [kHeaderSize, kEncapsulationSize, kLengthSize] at h ⊢
  refine ⟨data.take 4, (data.drop 4).take 4, (data.drop 8).take count, ?_, ?_, ?_, ?_⟩
  · have hfirst : data = data.take 4 ++ data.drop 4 := (List.take_append_drop 4 data).symm
    have hsecond : data.drop 4 = (data.drop 4).take 4 ++ data.drop 8 := by
      have hsplit := (List.take_append_drop 4 (data.drop 4)).symm
      rwa [List.drop_drop] at hsplit
    have hthird : data.drop 8 = (data.drop 8).take count ++ data.drop (8 + count) := by
      have hsplit := (List.take_append_drop count (data.drop 8)).symm
      rwa [List.drop_drop] at hsplit
    rw [List.append_assoc, List.append_assoc, ← hthird, ← hsecond, ← hfirst]
  all_goals
    simp only [List.length_take, List.length_drop]
    omega

theorem serialize_fits {sample data : Bytes} {payload : SerializedPayload} {size : UInt32}
    (hsize : serializedSize sample = some size)
    (hdata : payload.data = some data) (hroom : kHeaderSize + sample.length ≤ data.length) (hfits : ¬ payload.maxSize < size)
    (hsmall : sample.length ≤ 2 ^ 32 - 9) :
    serializeInto sample payload = some (true, { payload with
      data := some (encoded encapsulationHeader sample ++ data.drop (kHeaderSize + sample.length))
      encapsulation := kEncapsulationCdrLe
      length := size }) := by
  obtain ⟨front, old, behind, hparts, hfront, hold, hbehind⟩ := buffer_parts hroom
  generalize data.drop (kHeaderSize + sample.length) = rest at hparts ⊢
  have hnumber : (UInt32.ofNat sample.length).toNat = sample.length := by
    rw [UInt32.toNat_ofNat']
    exact Nat.mod_eq_of_lt (by omega)
  have hheader : store data 0 encapsulationHeader = some (encapsulationHeader ++ old ++ behind ++ rest) := by
    have hstored := @store_middle [] front encapsulationHeader (old ++ behind ++ rest) 0 rfl hfront.symm
    rw [hparts]
    simpa only [List.nil_append, List.append_assoc] using hstored
  have hlength : store (encapsulationHeader ++ old ++ behind ++ rest) kEncapsulationSize (putLe kLengthSize sample.length)
      = some (encapsulationHeader ++ putLe kLengthSize sample.length ++ behind ++ rest) := by
    have hstored := @store_middle encapsulationHeader old (putLe kLengthSize sample.length)
      (behind ++ rest) kEncapsulationSize rfl
      ((length_putLe _ _).trans hold.symm)
    simpa only [List.append_assoc] using hstored
  have hsample : store (encapsulationHeader ++ putLe kLengthSize sample.length ++ behind ++ rest) kHeaderSize sample
      = some (encoded encapsulationHeader sample ++ rest) :=
    store_middle (by rw [List.length_append, length_putLe]; rfl) hbehind.symm
  simp only [serializeInto, hsize, hdata, if_neg hfits, hnumber, Option.bind_eq_bind, hheader, Option.bind_some, hlength, hsample]
  split
  · next hempty =>
    -- nothing is copied, and nothing had to be
    obtain rfl := List.isEmpty_iff.mp hempty
    rw [List.length_eq_zero_iff.mp hbehind]
    simp only [encoded, List.append_nil]
    rfl
  · rfl

/-- Serializing touches only the front of the buffer, succeeds exactly when the payload fits, and
carries it: what is deserialized is the sample. -/
theorem payload_carried (sample other : Bytes) {payload : SerializedPayload} (h : payload.WellFormed) :
    ∃ ok after, serializeInto sample payload = some (ok, after) ∧ (ok = true ↔ Fits sample payload) ∧
      (ok = false → after = payload) ∧
      (ok = true → after.WellFormed ∧ after.length = calculateSerializedSize sample ∧
        deserializeFrom after other = some (true, sample) ∧
        after.data.map (·.drop after.length.toNat) = payload.data.map (·.drop after.length.toNat)) := by
  by_cases hfits : Fits sample payload
  · obtain ⟨data, hdata⟩ := Option.ne_none_iff_exists'.mp hfits.1
    have hbuffer := h.buffer data hdata
    have hbound := payload.maxSize.toNat_lt
    have hroom : kHeaderSize + sample.length ≤ data.length := hbuffer ▸ hfits.2
    obtain ⟨hsmall, size, hsize, hcount⟩ : sample.length ≤ 2 ^ 32 - 9 ∧ ∃ size, serializedSize sample = some size ∧
        size.toNat = kHeaderSize + sample.length := by
      refine (serializedSize_eq sample).resolve_right fun hlarge => ?_
      have hle := hfits.2
      simp only [kHeaderSize, kEncapsulationSize, kLengthSize] at hle
      omega
    have hshort : ¬ payload.maxSize < size := by
      rw [UInt32.lt_iff_toNat_lt, hcount]
      exact Nat.not_lt.mpr hfits.2
    have hencoded : (encoded encapsulationHeader sample).length = kHeaderSize + sample.length := length_encoded rfl
    refine ⟨true, _, serialize_fits hsize hdata hroom hshort hsmall, ⟨fun _ => hfits, fun _ => rfl⟩,
      fun hfalse => (nomatch hfalse), fun _ => ⟨⟨fun after hafter => ?_, UInt32.not_lt.mp hshort⟩, ?_, ?_, ?_⟩⟩
    · cases hafter
      rw [List.length_append, hencoded, List.length_drop, ← hbuffer]
      omega
    · simp only [calculateSerializedSize, hsize, Option.getD_some]
    · exact deserialize_encoded rfl rfl (Nat.le_of_eq hcount.symm) other
    · simp only [hdata, Option.map_some, hcount, ← hencoded, List.drop_left]
  · exact ⟨false, payload, serialize_refuses hfits, ⟨fun hfalse => (nomatch hfalse), fun htrue => absurd htrue hfits⟩,
      fun _ => rfl, fun hfalse => (nomatch hfalse)⟩

/-- A buffer of twelve bytes. -/
def twelveBytes : SerializedPayload :=
  { data := some [7, 7, 7, 7, 2, 0, 0, 0, 7, 7, 7, 7], maxSize := 12, length := 12, encapsulation := 0 }

theorem twelveBytes_wellFormed : twelveBytes.WellFormed :=
  ⟨fun data hdata => by cases hdata; rfl, by decide⟩

theorem payload_carried_twelveBytes : ∃ after, serializeInto [1, 2, 3] twelveBytes = some (true, after) ∧
    deserializeFrom after [] = some (true, [1, 2, 3]) := by
  obtain ⟨ok, after, hafter, hfits, -, hcarried⟩ := payload_carried [1, 2, 3] [] twelveBytes_wellFormed
  have hok : ok = true := hfits.mpr ⟨Option.some_ne_none _, by decide⟩
  exact ⟨after, hok ▸ hafter, (hcarried hok).2.2.1⟩

theorem load_take {buffer : Bytes} {n offset count : Nat} (h : offset + count ≤ n) (hn : n ≤ buffer.length) :
    load (buffer.take n) offset count = load buffer offset count := by
  have htake : (buffer.take n).length = n := List.length_take_of_le hn
  rw [load, load, htake, if_pos h, if_pos (h.trans hn), List.drop_take, List.take_take, Nat.min_eq_left (by omega)]

/-- The bytes that count are all that is read. -/
theorem deserialize_take {payload : SerializedPayload} (h : payload.WellFormed) (sample : Bytes) :
    deserializeFrom { payload with data := payload.data.map (·.take payload.length.toNat) } sample =
      deserializeFrom payload sample := by
  unfold deserializeFrom
  dsimp only
  cases hdata : payload.data with
  | none => rfl
  | some data =>
    have hbuffer := h.buffer data hdata
    have hle := UInt32.le_iff_toNat_le.mp h.length
    have hcounted : payload.length.toNat ≤ data.length := by omega
    dsimp only [Option.map_some]
    split
    · rfl
    · next hshort =>
      have hlong : kHeaderSize ≤ payload.length.toNat := UInt32.le_iff_toNat_le.mp (UInt32.not_lt.mp hshort)
      have hheader : kEncapsulationSize + kLengthSize ≤ payload.length.toNat := hlong
      rw [load_take hheader hcounted]
      cases load data kEncapsulationSize kLengthSize with
      | none => rfl
      | some encoded =>
        simp only [Option.bind_eq_bind, Option.bind_some]
        split
        · rfl
        · next hfits =>
          have hroom := UInt32.le_iff_toNat_le.mp (UInt32.not_lt.mp hfits)
          have hleft : (payload.length - UInt32.ofNat kHeaderSize).toNat = payload.length.toNat - kHeaderSize :=
            UInt32.toNat_sub_of_le _ _ (UInt32.not_lt.mp hshort)
          rw [hleft] at hroom
          rw [load_take (by omega) hcounted]

theorem deserialize_accepts {payload : SerializedPayload} (h : payload.WellFormed) (sample : Bytes) :
    ∃ ok received, deserializeFrom payload sample = some (ok, received) ∧ (ok = false → received = sample) ∧
      ∀ bytes, ok = true ∧ received = bytes ↔
        ∃ data header rest, payload.data = some data ∧ header.length = kEncapsulationSize ∧
          data.take payload.length.toNat = encoded header bytes ++ rest := by
  have haccepts : ∀ {data header rest bytes}, payload.data = some data → header.length = kEncapsulationSize →
      data.take payload.length.toNat = encoded header bytes ++ rest → deserializeFrom payload sample = some (true, bytes) := by
    intro data header rest bytes hdata hheader htake
    have hwhole : payload.data = some (encoded header bytes ++ (rest ++ data.drop payload.length.toNat)) := by
      rw [hdata, ← List.append_assoc, ← htake, List.take_append_drop]
    refine deserialize_encoded hheader hwhole ?_ sample
    · have hlength := congrArg List.length htake
      rw [List.length_append, length_encoded hheader, List.length_take] at hlength
      omega
  have hrefuses : deserializeFrom payload sample = some (false, sample) →
      ∃ ok received, deserializeFrom payload sample = some (ok, received) ∧ (ok = false → received = sample) ∧
        ∀ bytes, ok = true ∧ received = bytes ↔
          ∃ data header rest, payload.data = some data ∧ header.length = kEncapsulationSize ∧
            data.take payload.length.toNat = encoded header bytes ++ rest := by
    intro hrefused
    refine ⟨false, sample, hrefused, fun _ => rfl, fun bytes => ⟨fun hfalse => (nomatch hfalse.1), ?_⟩⟩
    rintro ⟨data, header, rest, hdata, hheader, htake⟩
    rw [haccepts hdata hheader htake] at hrefused
    cases hrefused
  cases hdata : payload.data with
  | none => exact hdata ▸ hrefuses (by simp only [deserializeFrom, hdata])
  | some data =>
    rw [← hdata]
    by_cases hshort : payload.length < UInt32.ofNat kHeaderSize
    · exact hrefuses (by simp only [deserializeFrom, hdata, if_pos hshort])
    · have hbuffer := h.buffer data hdata
      have hle := UInt32.le_iff_toNat_le.mp h.length
      have hlong : kHeaderSize ≤ payload.length.toNat := by
        have := UInt32.le_iff_toNat_le.mp (UInt32.not_lt.mp hshort)
        exact this
      have hinside : kHeaderSize + (payload.length.toNat - kHeaderSize) = payload.length.toNat := by omega
      obtain ⟨front, old, behind, hparts, hfront, hold, hbehind⟩ :=
        @buffer_parts data (payload.length.toNat - kHeaderSize) (by omega)
      rw [hinside] at hparts
      generalize data.drop payload.length.toNat = rest at hparts
      have hcount : (UInt32.ofNat (getLe old)).toNat = getLe old := by
        have hlt := getLe_lt old
        rw [hold] at hlt
        rw [UInt32.toNat_ofNat']
        exact Nat.mod_eq_of_lt hlt
      have hread : load data kEncapsulationSize kLengthSize = some old := by
        rw [hparts, List.append_assoc]
        exact load_middle hfront.symm hold.symm
      have hrest : (payload.length - UInt32.ofNat kHeaderSize).toNat = behind.length := by
        rw [UInt32.toNat_sub_of_le _ _ (UInt32.not_lt.mp hshort), hbehind]
        rfl
      by_cases hlarge : UInt32.ofNat (getLe old) > payload.length - UInt32.ofNat kHeaderSize
      · refine hrefuses ?_
        simp only [deserializeFrom, hdata, if_neg hshort, hread, Option.bind_eq_bind, Option.bind_some, if_pos hlarge]
        rfl
      · have hfits : getLe old ≤ behind.length := by
          have hle := UInt32.le_iff_toNat_le.mp (UInt32.not_lt.mp hlarge)
          rwa [hcount, hrest] at hle
        have htaken : (behind.take (getLe old)).length = getLe old := List.length_take_of_le hfits
        have hnumber : putLe kLengthSize (getLe old) = old := by
          have hput := putLe_getLe old
          rwa [hold] at hput
        have htake : data.take payload.length.toNat
            = encoded front (behind.take (getLe old)) ++ behind.drop (getLe old) := by
          have hlength : payload.length.toNat = (front ++ old ++ behind).length := by
            simp only [List.length_append, hfront, hold, hbehind]
            exact hinside.symm
          rw [encoded, htaken, hnumber, List.append_assoc (front ++ old), List.take_append_drop, hlength, hparts, List.take_left]
        have haccepted := haccepts hdata hfront htake
        refine ⟨true, _, haccepted, fun hfalse => (nomatch hfalse), fun bytes => ⟨?_, ?_⟩⟩
        · rintro ⟨-, rfl⟩
          exact ⟨data, front, _, hdata, hfront, htake⟩
        · rintro ⟨other, header, tail, hother, hheader, hencoded⟩
          rw [haccepts hother hheader hencoded] at haccepted
          cases haccepted
          exact ⟨rfl, rfl⟩

/-- Deserializing stays within the bytes that count, and accepts exactly an encoding with whatever
header and whatever behind it. -/
theorem deserialize_accepts_iff {payload : SerializedPayload} (h : payload.WellFormed) (sample : Bytes) :
    ∃ ok received, deserializeFrom payload sample = some (ok, received) ∧
      deserializeFrom { payload with data := payload.data.map (·.take payload.length.toNat) } sample = some (ok, received) ∧
      (ok = false → received = sample) ∧
      ∀ bytes, ok = true ∧ received = bytes ↔
        ∃ data header rest, payload.data = some data ∧ header.length = kEncapsulationSize ∧
          data.take payload.length.toNat = encoded header bytes ++ rest := by
  obtain ⟨ok, received, heq, hrest⟩ := deserialize_accepts h sample
  exact ⟨ok, received, heq, (deserialize_take h sample).trans heq, hrest⟩

theorem deserialize_accepts_iff_twelveBytes : deserializeFrom twelveBytes [] = some (true, [7, 7]) := by
  obtain ⟨ok, received, heq, -, -, haccepts⟩ := deserialize_accepts_iff twelveBytes_wellFormed []
  obtain ⟨rfl, rfl⟩ := (haccepts [7, 7]).mpr ⟨_, [7, 7, 7, 7], [7, 7], rfl, rfl, by decide⟩
  exact heq

end PuppetMaster.FastDds
