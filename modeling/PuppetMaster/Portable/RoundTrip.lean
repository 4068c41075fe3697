/-
  PuppetMaster.Portable.RoundTrip — what the reader makes of what the writer wrote.

  `wire` is the encoding as a function of the value. The sizer counts its length
  (`sizerVisit_eq`), the writer puts exactly it into any buffer with room
  (`writerVisit_eq`), and the reader takes it apart again.

  The reader refuses a vector whose count is more than the bytes that are left, each
  element taking at least one. An element of a type that encodes to nothing, such as a
  `std::array` of length zero or a nested type that lists no field, takes none. So a value
  comes back exactly when each vector of such elements has no more of them than bytes that
  follow it (`portable_round_trip_iff`, and `decode_wire` for `PortableCodec::Decode`).
-/

import Mathlib.Algebra.Group.Nat.Defs
import Mathlib.Algebra.GroupWithZero.Nat
import PuppetMaster.Lib.Cursor
import PuppetMaster.Portable.Codec

namespace PuppetMaster.Portable

open PuppetMaster.Core
open PuppetMaster.Lib hiding Ahead

/-! ## The encoding -/

mutual

/-- The bytes of a value. -/
def wire : (t : FieldType) → Value t → Bytes
  | .scalar s, value => putLe s.scalarSize (s.scalarBits value)
  | .string, (value : Bytes) => putLe 4 value.length ++ value
  | .vector e, (values : List (Value e)) => putLe 4 values.length ++ values.flatMap (wire e)
  | .array e _, values => values.val.flatMap (wire e)
  | .nested fs, values => wireFields fs values

def wireFields : (fs : List FieldType) → Values fs → Bytes
  | [], _ => []
  | f :: fs, (v, vs) => wire f v ++ wireFields fs vs

end

mutual

/-- Every string and every vector in the value has fewer than 2^32 elements. -/
def CountsBelow : (t : FieldType) → Value t → Prop
  | .scalar _, _ => True
  | .string, (value : Bytes) => value.length < 2 ^ 32
  | .vector e, (values : List (Value e)) => values.length < 2 ^ 32 ∧ ∀ v ∈ values, CountsBelow e v
  | .array e _, values => ∀ v ∈ values.val, CountsBelow e v
  | .nested fs, values => FieldCountsBelow fs values

def FieldCountsBelow : (fs : List FieldType) → Values fs → Prop
  | [], _ => True
  | f :: fs, (v, vs) => CountsBelow f v ∧ FieldCountsBelow fs vs

end

mutual

/-- A type none of whose values has a byte on the wire. -/
def sizeless : FieldType → Bool
  | .scalar _ => false
  | .string => false
  | .vector _ => false
  | .array e n => n == 0 || sizeless e
  | .nested fs => sizelessFields fs

def sizelessFields : List FieldType → Bool
  | [] => true
  | f :: fs => sizeless f && sizelessFields fs

end

/-- Each element fits before the ones after it and `after` more bytes. -/
def elementsFit {α : Type} (fit : α → Nat → Prop) (size : α → Nat) : List α → Nat → Prop
  | [], _ => True
  | v :: vs, after => fit v ((vs.map size).sum + after) ∧ elementsFit fit size vs after

mutual

/-- In a value that `after` bytes follow, a vector of sizeless elements never has more of
    them than bytes that follow it. -/
def CountsFit : (t : FieldType) → Value t → (after : Nat) → Prop
  | .scalar _, _, _ => True
  | .string, _, _ => True
  | .vector e, (values : List (Value e)), after =>
    (sizeless e = true → values.length ≤ after) ∧ elementsFit (CountsFit e) (maxSize e) values after
  | .array e _, values, after => elementsFit (CountsFit e) (maxSize e) values.val after
  | .nested fs, values, after => FieldCountsFit fs values after

def FieldCountsFit : (fs : List FieldType) → Values fs → (after : Nat) → Prop
  | [], _, _ => True
  | f :: fs, (v, vs), after => CountsFit f v (sizerFields fs vs 0 + after) ∧ FieldCountsFit fs vs after

end

/-! ## The sizer -/

theorem length_flatMap_const {α : Type} {f : α → Bytes} {n : Nat} {l : List α} (h : ∀ v ∈ l, (f v).length = n) :
    (l.flatMap f).length = l.length * n := by
  induction l with
  | nil => simp
  | cons v l ih =>
    rw [List.flatMap_cons, List.length_append, h v List.mem_cons_self, ih fun u hu => h u (List.mem_cons_of_mem _ hu),
      List.length_cons, Nat.add_mul, Nat.one_mul, Nat.add_comm]

theorem sizerElements_eq {e : FieldType} (h : ∀ v s, sizerVisit e v s = s + (wire e v).length)
    (values : List (Value e)) (size : Nat) :
    sizerElements e (sizerVisit e) values size = size + (values.flatMap (wire e)).length := by
  have hfold : ∀ size, values.foldl (fun size v => sizerVisit e v size) size = size + (values.flatMap (wire e)).length := by
    induction values with
    | nil => intro size; rfl
    | cons v vs ih =>
      intro size
      rw [List.foldl_cons, ih, h, List.flatMap_cons, List.length_append, Nat.add_assoc]
  cases e with
  | scalar s =>
    -- counted at once, to the same sum
    have hlen : (values.flatMap (wire (.scalar s))).length = values.length * s.scalarSize := by
      apply length_flatMap_const
      intro v _
      exact length_putLe _ _
    rw [hlen]
    rfl
  | string => exact hfold size
  | vector e => exact hfold size
  | array e n => exact hfold size
  | nested fs => exact hfold size

mutual

theorem sizerVisit_eq : ∀ (t : FieldType) (v : Value t) (size : Nat), sizerVisit t v size = size + (wire t v).length
  | .scalar s, v, size => by
    simp only [sizerVisit, wire, length_putLe]
  | .string, v, size => by
    simp only [sizerVisit, wire, List.length_append, length_putLe]
  | .vector e, v, size => by
    rw [sizerVisit, sizerElements_eq (sizerVisit_eq e), wire, List.length_append, length_putLe, Nat.add_assoc]
  | .array e n, v, size => by
    rw [sizerVisit, sizerElements_eq (sizerVisit_eq e), wire]
  | .nested fs, v, size => by
    rw [sizerVisit, sizerFields_eq fs, wire]

theorem sizerFields_eq : ∀ (fs : List FieldType) (vs : Values fs) (size : Nat),
    sizerFields fs vs size = size + (wireFields fs vs).length
  | [], _, _ => rfl
  | f :: fs, (v, vs), size => by
    rw [sizerFields, sizerFields_eq fs, sizerVisit_eq f, wireFields, List.length_append, Nat.add_assoc]

end

theorem maxSize_eq (t : FieldType) (v : Value t) : maxSize t v = (wire t v).length := by
  rw [maxSize, sizerVisit_eq, Nat.zero_add]

theorem sum_maxSize (e : FieldType) (vs : List (Value e)) :
    (vs.map (maxSize e)).sum = (vs.flatMap (wire e)).length := by
  induction vs with
  | nil => rfl
  | cons v vs ih => rw [List.map_cons, List.sum_cons, ih, maxSize_eq, List.flatMap_cons, List.length_append]

mutual

/-- A type is sizeless or its values all have a byte. -/
theorem wire_of_sizeless : ∀ (t : FieldType) (v : Value t),
    (sizeless t = true → wire t v = []) ∧ (sizeless t = false → 0 < (wire t v).length)
  | .scalar s, v => by
    refine ⟨(nomatch ·), fun _ => ?_⟩
    rw [wire, length_putLe]
    exact s.scalarSize_pos
  | .string, v => by
    refine ⟨(nomatch ·), fun _ => ?_⟩
    rw [wire, List.length_append, length_putLe]
    omega
  | .vector e, v => by
    refine ⟨(nomatch ·), fun _ => ?_⟩
    rw [wire, List.length_append, length_putLe]
    omega
  | .array e n, ⟨vs, h⟩ => by
    have ih := wire_of_sizeless e
    simp only [sizeless, wire]
    constructor
    · intro hs
      rcases Bool.or_eq_true_iff.mp hs with hn | he
      · have hnil : vs = [] := List.length_eq_zero_iff.mp (h.trans (eq_of_beq hn))
        rw [hnil, List.flatMap_nil]
      · exact List.flatMap_eq_nil_iff.mpr fun v _ => (ih v).1 he
    · intro hs
      obtain ⟨hn, he⟩ := Bool.or_eq_false_iff.mp hs
      cases vs with
      | nil => exact absurd h.symm (ne_of_beq_false hn)
      | cons v vs =>
        have hv := (ih v).2 he
        rw [List.flatMap_cons, List.length_append]
        omega
  | .nested fs, v => by
    rw [sizeless, wire]
    exact wireFields_of_sizeless fs v

theorem wireFields_of_sizeless : ∀ (fs : List FieldType) (vs : Values fs),
    (sizelessFields fs = true → wireFields fs vs = []) ∧ (sizelessFields fs = false → 0 < (wireFields fs vs).length)
  | [], _ => ⟨fun _ => rfl, (nomatch ·)⟩
  | f :: fs, (v, vs) => by
    have ihf := wire_of_sizeless f v
    have ihfs := wireFields_of_sizeless fs vs
    rw [sizelessFields, wireFields]
    constructor
    · intro hs
      obtain ⟨hf, hfs⟩ := Bool.and_eq_true_iff.mp hs
      rw [ihf.1 hf, ihfs.1 hfs, List.append_nil]
    · intro hs
      rw [List.length_append]
      rcases Bool.and_eq_false_iff.mp hs with hf | hfs
      · have := ihf.2 hf
        omega
      · have := ihfs.2 hfs
        omega

end

/-! ## The writer -/

namespace PortableWriter

variable {w : PortableWriter}

/-- Two stores in a row are one of both, if there is room for both. -/
theorem store_store {a b : Bytes} (hroom : w.offset + (a.length + b.length) ≤ w.buffer.length) :
    (w.store a).store b = w.store (a ++ b) := by
  have ha : ¬ w.buffer.length - w.offset < a.length := by omega
  have hab : ¬ w.buffer.length - w.offset < (a ++ b).length := by
    rw [List.length_append]
    omega
  have htake : (w.buffer.take w.offset).length = w.offset := List.length_take_of_le (by omega)
  have hlen : (w.buffer.take w.offset ++ a ++ w.buffer.drop (w.offset + a.length)).length = w.buffer.length := by
    simp only [List.length_append, htake, List.length_drop]
    omega
  have hb : ¬ w.buffer.length - (w.offset + a.length) < b.length := by omega
  have hfront : (w.buffer.take w.offset ++ a).length = w.offset + a.length := by rw [List.length_append, htake]
  simp only [store, if_neg ha, if_neg hab, hlen, if_neg hb]
  congr 1
  · rw [← hfront, List.take_left, ← List.drop_drop, List.drop_left, hfront, List.drop_drop, List.length_append,
      Nat.add_assoc, List.append_assoc (w.buffer.take w.offset)]
  · rw [List.length_append, Nat.add_assoc]

theorem store_status {a : Bytes} (hroom : w.offset + a.length ≤ w.buffer.length) : (w.store a).status = w.status := by
  rw [store, if_neg (by omega)]

theorem store_offset {a : Bytes} (hroom : w.offset + a.length ≤ w.buffer.length) :
    (w.store a).offset = w.offset + a.length := by
  rw [store, if_neg (by omega)]

theorem length_store {a : Bytes} (hroom : w.offset + a.length ≤ w.buffer.length) :
    (w.store a).buffer.length = w.buffer.length := by
  rw [store, if_neg (by omega)]
  simp only [List.length_append, List.length_take, List.length_drop]
  omega

theorem store_nil : w.store [] = w := by
  rw [store, if_neg (by simp)]
  simp

theorem count_eq {n : Nat} (h : n < 2 ^ 32) : w.count n = w.store (putLe 4 n) := by
  rw [count, if_neg (by omega), put]

end PortableWriter

/-- Visits that store one after the other store everything. -/
theorem foldl_store {α : Type} {visit : α → PortableWriter → PortableWriter} {f : α → Bytes} {vs : List α}
    (hvisit : ∀ v ∈ vs, ∀ w : PortableWriter, w.status.isOk → w.offset + (f v).length ≤ w.buffer.length →
      visit v w = w.store (f v))
    (w : PortableWriter) (hok : w.status.isOk) (hroom : w.offset + (vs.flatMap f).length ≤ w.buffer.length) :
    vs.foldl (fun w v => visit v w) w = w.store (vs.flatMap f) := by
  induction vs generalizing w with
  | nil => exact PortableWriter.store_nil.symm
  | cons v vs ih =>
    rw [List.flatMap_cons, List.length_append] at hroom
    have hv : w.offset + (f v).length ≤ w.buffer.length := by omega
    rw [List.foldl_cons, hvisit v List.mem_cons_self w hok hv, ih, List.flatMap_cons, PortableWriter.store_store hroom]
    · exact fun u hu => hvisit u (List.mem_cons_of_mem _ hu)
    · rw [PortableWriter.store_status hv]
      exact hok
    · rw [PortableWriter.store_offset hv, PortableWriter.length_store hv]
      omega

mutual

theorem writerVisit_eq : ∀ (t : FieldType) (v : Value t), CountsBelow t v → ∀ w : PortableWriter, w.status.isOk →
    w.offset + (wire t v).length ≤ w.buffer.length → writerVisit t v w = w.store (wire t v)
  | .scalar s, v, _, w, hok, hroom => by
    simp only [writerVisit, hok, Bool.not_true, Bool.false_eq_true, if_false, PortableWriter.put, wire]
  | .string, (v : Bytes), hcounts, w, hok, hroom => by
    simp only [CountsBelow] at hcounts
    simp only [wire, List.length_append] at hroom
    have hcount : w.offset + (putLe 4 v.length).length ≤ w.buffer.length := by omega
    simp only [writerVisit, hok, Bool.not_true, Bool.false_eq_true, if_false, PortableWriter.bytes,
      PortableWriter.count_eq hcounts, PortableWriter.store_status hcount, if_true, wire]
    exact PortableWriter.store_store hroom
  | .vector e, (vs : List (Value e)), hcounts, w, hok, hroom => by
    simp only [CountsBelow] at hcounts
    simp only [wire, List.length_append] at hroom
    have hcount : w.offset + (putLe 4 vs.length).length ≤ w.buffer.length := by omega
    simp only [writerVisit, hok, Bool.not_true, Bool.false_eq_true, if_false, PortableWriter.count_eq hcounts.1, wire]
    rw [foldl_store (fun v hv => writerVisit_eq e v (hcounts.2 v hv)), PortableWriter.store_store hroom]
    · rw [PortableWriter.store_status hcount]
      exact hok
    · rw [PortableWriter.store_offset hcount, PortableWriter.length_store hcount]
      omega
  | .array e n, vs, hcounts, w, hok, hroom => by
    simp only [CountsBelow] at hcounts
    simp only [wire] at hroom
    simp only [writerVisit, hok, Bool.not_true, Bool.false_eq_true, if_false, wire]
    exact foldl_store (fun v hv => writerVisit_eq e v (hcounts v hv)) w hok hroom
  | .nested fs, vs, hcounts, w, hok, hroom => by
    simp only [CountsBelow] at hcounts
    simp only [wire] at hroom
    simp only [writerVisit, hok, Bool.not_true, Bool.false_eq_true, if_false, wire]
    exact writerFields_eq fs vs hcounts w hok hroom

theorem writerFields_eq : ∀ (fs : List FieldType) (vs : Values fs), FieldCountsBelow fs vs →
    ∀ w : PortableWriter, w.status.isOk → w.offset + (wireFields fs vs).length ≤ w.buffer.length →
      writerFields fs vs w = w.store (wireFields fs vs)
  | [], _, _, _, _, _ => PortableWriter.store_nil.symm
  | f :: fs, (v, vs), hcounts, w, hok, hroom => by
    simp only [FieldCountsBelow] at hcounts
    simp only [wireFields, List.length_append] at hroom
    have hv : w.offset + (wire f v).length ≤ w.buffer.length := by omega
    simp only [writerFields, wireFields]
    rw [writerVisit_eq f v hcounts.1 w hok hv, writerFields_eq fs vs hcounts.2, PortableWriter.store_store hroom]
    · rw [PortableWriter.store_status hv]
      exact hok
    · rw [PortableWriter.store_offset hv, PortableWriter.length_store hv]
      omega

end

/-- With room for `MaxSize` bytes, `Encode` leaves the encoding at the front. -/
theorem encode_eq {t : FieldType} {v : Value t} (hcounts : CountsBelow t v) {buffer : Bytes}
    (hroom : maxSize t v ≤ buffer.length) :
    encode t v buffer = (.ok (maxSize t v), wire t v ++ buffer.drop (maxSize t v)) := by
  rw [maxSize_eq] at hroom ⊢
  have hw := writerVisit_eq t v hcounts { buffer } rfl (by simpa using hroom)
  rw [PortableWriter.store, if_neg (by simpa using hroom)] at hw
  simp only [encode, hw]
  simp [Status.ok, Status.isOk]

/-! ## The reader -/

namespace PortableReader

def advance (r : PortableReader) (n : Nat) : PortableReader := { r with offset := r.offset + n }

@[simp] theorem advance_zero (r : PortableReader) : r.advance 0 = r := rfl

theorem advance_advance (r : PortableReader) (m n : Nat) : (r.advance m).advance n = r.advance (m + n) := by
  simp only [advance, Nat.add_assoc]

/-- A reader without an error that has `front`, then `rest`, before it. -/
structure Ahead (r : PortableReader) (front rest : Bytes) : Prop where
  ok : r.status.isOk = true
  at_offset : Lib.Ahead r.bytes r.offset front rest

variable {r : PortableReader} {front back rest : Bytes}

theorem Ahead.left_eq (h : r.Ahead front rest) : r.left = front.length + rest.length := h.at_offset.left_eq

theorem Ahead.first (h : r.Ahead (front ++ back) rest) : r.Ahead front (back ++ rest) := ⟨h.ok, h.at_offset.first⟩

theorem Ahead.next (h : r.Ahead (front ++ back) rest) : (r.advance front.length).Ahead back rest :=
  ⟨h.ok, h.at_offset.next⟩

theorem take_eq {w n : Nat} (h : r.Ahead (putLe w n) rest) (hn : n < 256 ^ w) : r.take w = (n, r.advance w) := by
  have hleft := h.left_eq
  rw [length_putLe] at hleft
  rw [take, if_neg (by omega), h.at_offset.ahead, take_put, getLe_putLe_of_lt hn]
  rfl

/-- The count is refused when the rest of the message is too short for it. -/
theorem count_eq {n size : Nat} (h : r.Ahead (putLe 4 n ++ back) rest) (hn : n < 2 ^ 32) :
    (back.length + rest.length) / size < n ∧ (r.count size).2.status.isOk = false ∨
      ¬ (back.length + rest.length) / size < n ∧ r.count size = (n, r.advance 4) := by
  have htake := take_eq h.first hn
  have hnext := h.next
  rw [length_putLe] at hnext
  simp only [count, htake, hnext.ok, hnext.left_eq, Bool.true_and, decide_eq_true_eq]
  by_cases hlt : (back.length + rest.length) / size < n
  · exact .inl ⟨hlt, by rw [if_pos hlt]; rfl⟩
  · exact .inr ⟨hlt, by rw [if_neg hlt]⟩

end PortableReader

open PortableReader (Ahead)

/-- A visit that does nothing on a reader with an error. -/
def Sticky {α : Type} (visit : α → PortableReader → α × PortableReader) : Prop :=
  ∀ into r, r.status.isOk = false → visit into r = (into, r)

/-- A visit that takes `v` back from its bytes when what follows lets it, and else fails. -/
structure ReadsBack {α : Type} (visit : α → PortableReader → α × PortableReader) (bytes : Bytes)
    (fits : Nat → Prop) (v : α) : Prop where
  back : ∀ into {r rest}, Ahead r bytes rest → fits rest.length → visit into r = (v, r.advance bytes.length)
  refused : ∀ into {r rest}, Ahead r bytes rest → ¬ fits rest.length → (visit into r).2.status.isOk = false

theorem Signed.toUnsigned_lt {w : Nat} (v : Signed w) : v.toUnsigned < 256 ^ w := by
  have hpow : ((256 ^ w : Nat) : Int) = 256 ^ w := Int.natCast_pow 256 w
  have hpos : (0 : Int) < 256 ^ w := Int.pow_pos (by decide)
  have hlt := Int.emod_lt_of_pos v.val hpos
  have hnonneg := Int.emod_nonneg v.val (Int.ne_of_gt hpos)
  unfold Signed.toUnsigned
  omega

theorem Signed.ofUnsigned_toUnsigned {w : Nat} (v : Signed w) : Signed.ofUnsigned (.ofBits w v.toUnsigned) = v := by
  have hpow : ((256 ^ w : Nat) : Int) = 256 ^ w := Int.natCast_pow 256 w
  have hpos : (0 : Int) < 256 ^ w := Int.pow_pos (by decide)
  obtain ⟨hlow, hhigh⟩ := v.property
  have hnonneg := Int.emod_nonneg v.val (Int.ne_of_gt hpos)
  have hbits : (Unsigned.ofBits w v.toUnsigned).val = v.toUnsigned := Nat.mod_eq_of_lt v.toUnsigned_lt
  have hval : (v.toUnsigned : Int) = v.val % 256 ^ w := Int.toNat_of_nonneg hnonneg
  apply Subtype.ext
  simp only [Signed.ofUnsigned, hbits]
  -- a negative number is one turn below its two's complement
  rcases Int.lt_or_le v.val 0 with hneg | hzero
  · have hmod : v.val % 256 ^ w = v.val + 256 ^ w := by
      rw [← Int.add_emod_right, Int.emod_eq_of_lt (by omega) (by omega)]
    split <;> omega
  · have hmod : v.val % 256 ^ w = v.val := Int.emod_eq_of_lt hzero (by omega)
    split <;> omega

theorem Unsigned.ofBits_val {w : Nat} (v : Unsigned w) : Unsigned.ofBits w v.val = v :=
  Subtype.ext (Nat.mod_eq_of_lt v.property)

theorem Integral.scalarBits_lt (t : Integral) (v : t.Value) : t.scalarBits v < 256 ^ t.scalarSize := by
  cases t with
  | bool => exact Nat.lt_of_le_of_lt (Bool.toNat_le v) (by decide)
  | unsigned w => exact v.property
  | signed w => exact v.toUnsigned_lt

theorem readIntegral_eq {t : Integral} {v : t.Value} {r : PortableReader} {rest : Bytes} (into : t.Value)
    (h : Ahead r (putLe t.scalarSize (t.scalarBits v)) rest) : readIntegral t into r = (v, r.advance t.scalarSize) := by
  have htake := PortableReader.take_eq h (t.scalarBits_lt v)
  cases t with
  | bool =>
    have hok : (r.advance 1).status.isOk = true := h.ok
    cases v <;> simp only [Integral.scalarBits, Integral.scalarSize] at htake <;>
      simp [readIntegral, htake, Integral.scalarSize]
  | unsigned w =>
    simp only [Integral.scalarBits, Integral.scalarSize] at htake
    simp only [readIntegral, htake, Unsigned.ofBits_val, Integral.scalarSize]
  | signed w =>
    simp only [Integral.scalarBits, Integral.scalarSize] at htake
    simp only [readIntegral, htake, Signed.ofUnsigned_toUnsigned, Integral.scalarSize]

theorem readScalar_eq {t : Scalar} {v : t.Value} {r : PortableReader} {rest : Bytes} (into : t.Value)
    (h : Ahead r (putLe t.scalarSize (t.scalarBits v)) rest) : readScalar t into r = (v, r.advance t.scalarSize) := by
  cases t with
  | integral t => exact readIntegral_eq into h
  | float =>
    have htake := PortableReader.take_eq h v.property
    simp only [Scalar.scalarSize, Scalar.scalarBits] at htake
    simp only [readScalar, htake, Unsigned.ofBits_val, Scalar.scalarSize]
  | double =>
    have htake := PortableReader.take_eq h v.property
    simp only [Scalar.scalarSize, Scalar.scalarBits] at htake
    simp only [readScalar, htake, Unsigned.ofBits_val, Scalar.scalarSize]
  | enum t => exact readIntegral_eq t.default h

theorem readerVisit_sticky (t : FieldType) : Sticky (readerVisit t) := by
  intro into r herr
  cases t <;> simp only [readerVisit, herr, Bool.not_false, if_true]

theorem visitAll_sticky {α : Type} {visit : α → PortableReader → α × PortableReader} (hvisit : Sticky visit) :
    Sticky (visitAll visit) := by
  intro vs r herr
  induction vs with
  | nil => rfl
  | cons v vs ih => simp only [visitAll, hvisit v r herr, ih]

theorem readerFields_sticky (fs : List FieldType) : Sticky (readerFields fs) := by
  intro vs r herr
  induction fs with
  | nil => rfl
  | cons f fs ih =>
    obtain ⟨v, vs⟩ := vs
    simp only [readerFields, readerVisit_sticky f v r herr, ih]

/-- Elements that read back one by one read back together, into as many places. -/
theorem visitAll_readsBack {e : FieldType} {vs : List (Value e)}
    (hvs : ∀ v ∈ vs, ReadsBack (readerVisit e) (wire e v) (CountsFit e v) v)
    {into : List (Value e)} {r : PortableReader} {rest : Bytes} (hinto : into.length = vs.length)
    (h : Ahead r (vs.flatMap (wire e)) rest) :
    (elementsFit (CountsFit e) (maxSize e) vs rest.length →
      visitAll (readerVisit e) into r = (vs, r.advance (vs.flatMap (wire e)).length)) ∧
    (¬ elementsFit (CountsFit e) (maxSize e) vs rest.length →
      (visitAll (readerVisit e) into r).2.status.isOk = false) := by
  induction vs generalizing into r with
  | nil =>
    cases List.length_eq_zero_iff.mp hinto
    exact ⟨fun _ => rfl, fun hnot => absurd trivial hnot⟩
  | cons v vs ih =>
    obtain ⟨i, is, rfl⟩ := List.exists_cons_of_length_eq_add_one hinto
    have hlen : is.length = vs.length := Nat.succ.inj hinto
    have hv := hvs v List.mem_cons_self
    rw [List.flatMap_cons] at h
    have hafter : (vs.flatMap (wire e) ++ rest).length = (vs.map (maxSize e)).sum + rest.length := by
      rw [sum_maxSize, List.length_append]
    simp only [elementsFit, visitAll, ← hafter]
    by_cases hfit : CountsFit e v (vs.flatMap (wire e) ++ rest).length
    · rw [hv.back i h.first hfit]
      obtain ⟨hback, hrefused⟩ := ih (fun u hu => hvs u (List.mem_cons_of_mem _ hu)) hlen h.next
      constructor
      · intro hall
        rw [hback hall.2, PortableReader.advance_advance, List.flatMap_cons, List.length_append]
      · intro hnot
        exact hrefused fun hall => hnot ⟨hfit, hall⟩
    · refine ⟨fun hall => absurd hall.1 hfit, fun _ => ?_⟩
      have herr := hv.refused i h.first hfit
      rw [visitAll_sticky (readerVisit_sticky e) is _ herr]
      exact herr

/-- The guard on a vector's count: only sizeless elements can run into it. -/
theorem guard_iff (e : FieldType) (vs : List (Value e)) (after : Nat) :
    ¬ ((vs.flatMap (wire e)).length + after) / elementSize e < vs.length ↔ (sizeless e = true → vs.length ≤ after) := by
  have hguard : ∀ n, (∀ v, n ≤ (wire e v).length) → vs.length * n ≤ (vs.flatMap (wire e)).length := by
    intro n hn
    induction vs with
    | nil => simp
    | cons v vs ih =>
      have := hn v
      rw [List.flatMap_cons, List.length_append, List.length_cons, Nat.add_mul]
      omega
  cases hs : sizeless e with
  | true =>
    have hsize : elementSize e = 1 := by
      cases e with
      | scalar s => cases hs
      | _ => rfl
    have hnil : vs.flatMap (wire e) = [] := List.flatMap_eq_nil_iff.mpr fun v _ => (wire_of_sizeless e v).1 hs
    rw [hnil, hsize, List.length_nil, Nat.zero_add, Nat.div_one, Nat.not_lt]
    exact ⟨fun h _ => h, fun h => h rfl⟩
  | false =>
    have hsize : 0 < elementSize e ∧ ∀ v, elementSize e ≤ (wire e v).length := by
      cases e with
      | scalar s => exact ⟨s.scalarSize_pos, fun v => Nat.le_of_eq (length_putLe _ _).symm⟩
      | _ => exact ⟨Nat.one_pos, fun v => (wire_of_sizeless _ v).2 hs⟩
    refine ⟨fun _ => (nomatch ·), fun _ => ?_⟩
    rw [Nat.not_lt, Nat.le_div_iff_mul_le hsize.1]
    exact Nat.le_trans (hguard _ hsize.2) (Nat.le_add_right _ _)

mutual

theorem readerVisit_readsBack : ∀ (t : FieldType) (v : Value t), CountsBelow t v →
    ReadsBack (readerVisit t) (wire t v) (CountsFit t v) v
  | .scalar s, v, _ => by
    refine ⟨fun into {r rest} h _ => ?_, fun _ {_ _} _ hnot => absurd trivial hnot⟩
    rw [wire, length_putLe]
    simp only [readerVisit, h.ok, Bool.not_true, Bool.false_eq_true, if_false]
    exact readScalar_eq _ h
  | .string, (v : Bytes), hcounts => by
    simp only [CountsBelow] at hcounts
    refine ⟨fun into {r rest} h _ => ?_, fun _ {_ _} _ hnot => absurd trivial hnot⟩
    rcases PortableReader.count_eq h hcounts with ⟨hlt, -⟩ | ⟨-, hcount⟩
    · rw [Nat.div_one] at hlt
      omega
    · have hnext := h.next
      rw [length_putLe] at hnext
      simp only [readerVisit, h.ok, Bool.not_true, Bool.false_eq_true, if_false, hcount, hnext.ok, hnext.at_offset.ahead,
        List.take_left, wire, List.length_append, length_putLe]
      rw [← PortableReader.advance_advance]
      rfl
  | .vector e, (vs : List (Value e)), hcounts => by
    simp only [CountsBelow] at hcounts
    have hvs := fun v hv => readerVisit_readsBack e v (hcounts.2 v hv)
    have hinto : (List.replicate vs.length (default e)).length = vs.length := List.length_replicate
    constructor
    · intro into r rest h hfit
      simp only [CountsFit] at hfit
      rcases PortableReader.count_eq h hcounts.1 with ⟨hlt, -⟩ | ⟨-, hcount⟩
      · exact absurd hlt ((guard_iff e vs rest.length).mpr hfit.1)
      · have hnext := h.next
        rw [length_putLe] at hnext
        simp only [readerVisit, h.ok, Bool.not_true, Bool.false_eq_true, if_false, hcount, hnext.ok,
          (visitAll_readsBack hvs hinto hnext).1 hfit.2, wire, List.length_append, length_putLe]
        rw [PortableReader.advance_advance]
    · intro into r rest h hnot
      simp only [CountsFit] at hnot
      simp only [readerVisit, h.ok, Bool.not_true, Bool.false_eq_true, if_false]
      rcases PortableReader.count_eq h hcounts.1 with ⟨-, herr⟩ | ⟨hnlt, hcount⟩
      · rw [herr, Bool.not_false, if_pos rfl]
        exact herr
      · have hnext := h.next
        rw [length_putLe] at hnext
        simp only [hcount, hnext.ok, Bool.not_true, Bool.false_eq_true, if_false]
        apply (visitAll_readsBack hvs hinto hnext).2
        exact fun hall => hnot ⟨(guard_iff e vs rest.length).mp hnlt, hall⟩
  | .array e n, ⟨vs, hn⟩, hcounts => by
    simp only [CountsBelow] at hcounts
    have hvs := fun v hv => readerVisit_readsBack e v (hcounts v hv)
    constructor
    · intro ⟨into, hinto⟩ r rest h hfit
      have hall := (visitAll_readsBack hvs (hinto.trans hn.symm) h).1 hfit
      simp only [readerVisit, h.ok, Bool.not_true, Bool.false_eq_true, if_false, hall, wire]
    · intro ⟨into, hinto⟩ r rest h hnot
      simp only [readerVisit, h.ok, Bool.not_true, Bool.false_eq_true, if_false]
      exact (visitAll_readsBack hvs (hinto.trans hn.symm) h).2 hnot
  | .nested fs, vs, hcounts => by
    have hfields := readerFields_readsBack fs vs hcounts
    constructor
    · intro into r rest h hfit
      simp only [readerVisit, h.ok, Bool.not_true, Bool.false_eq_true, if_false]
      exact hfields.back into h hfit
    · intro into r rest h hnot
      simp only [readerVisit, h.ok, Bool.not_true, Bool.false_eq_true, if_false]
      exact hfields.refused into h hnot

theorem readerFields_readsBack : ∀ (fs : List FieldType) (vs : Values fs), FieldCountsBelow fs vs →
    ReadsBack (readerFields fs) (wireFields fs vs) (FieldCountsFit fs vs) vs
  | [], _, _ => ⟨fun _ {_ _} _ _ => rfl, fun _ {_ _} _ hnot => absurd trivial hnot⟩
  | f :: fs, (v, vs), hcounts => by
    simp only [FieldCountsBelow] at hcounts
    have hv := readerVisit_readsBack f v hcounts.1
    have hvs := readerFields_readsBack fs vs hcounts.2
    have hafter : ∀ rest : Bytes, (wireFields fs vs ++ rest).length = sizerFields fs vs 0 + rest.length := by
      intro rest
      rw [sizerFields_eq, Nat.zero_add, List.length_append]
    constructor
    · intro ⟨i, is⟩ r rest h hfit
      simp only [FieldCountsFit, ← hafter] at hfit
      simp only [wireFields] at h
      simp only [readerFields, hv.back i h.first hfit.1, hvs.back is h.next hfit.2, wireFields, List.length_append]
      rw [PortableReader.advance_advance]
    · intro ⟨i, is⟩ r rest h hnot
      simp only [FieldCountsFit, ← hafter] at hnot
      simp only [wireFields] at h
      simp only [readerFields]
      by_cases hfit : CountsFit f v (wireFields fs vs ++ rest).length
      · rw [hv.back i h.first hfit]
        exact hvs.refused is h.next fun hall => hnot ⟨hfit, hall⟩
      · have herr := hv.refused i h.first hfit
        rw [readerFields_sticky fs is _ herr]
        exact herr

end

/-! ## There and back -/

/-- The writer succeeds, and a reader of the bytes it used, into any value, ends without an
    error, past the last byte and with the same value. -/
def RoundTrips (t : FieldType) (value : Value t) (buffer : Bytes) (into : Value t) : Prop :=
  ∃ used bytes, (encode t value buffer).1 = .ok used ∧ (encode t value buffer).2.take used = bytes ∧
    readerVisit t into { bytes } = (value, { bytes, offset := bytes.length })

theorem portable_round_trip_iff (t : PortableType) (value : Value t.val) (hcounts : CountsBelow t.val value)
    (buffer : Bytes) (hroom : maxSize t.val value ≤ buffer.length) (into : Value t.val) :
    RoundTrips t.val value buffer into ↔ CountsFit t.val value 0 := by
  have hreads := readerVisit_readsBack t.val value hcounts
  have hahead : Ahead { bytes := wire t.val value } (wire t.val value) [] :=
    ⟨rfl, .start _⟩
  have htake : (wire t.val value ++ buffer.drop (maxSize t.val value)).take (maxSize t.val value) = wire t.val value := by
    rw [maxSize_eq, List.take_left]
  unfold RoundTrips
  rw [encode_eq hcounts hroom]
  constructor
  · intro h
    obtain ⟨used, bytes, hused, hbytes, hread⟩ := h
    cases hused
    rw [htake] at hbytes
    subst hbytes
    -- a value that does not fit leaves an error behind
    by_contra hnot
    have herr := hreads.refused into hahead hnot
    rw [hread] at herr
    cases herr
  · intro hfit
    refine ⟨_, _, rfl, htake, ?_⟩
    rw [hreads.back into hahead hfit]
    simp only [PortableReader.advance, Nat.zero_add]

/-- `PortableCodec::Decode` gives back a value whose counts fit. -/
theorem decode_wire {t : FieldType} {value : Value t} (typeName : Bytes) (hcounts : CountsBelow t value)
    (hfit : CountsFit t value 0) : decode typeName t (wire t value) = .ok value := by
  have hahead : Ahead { bytes := wire t value } (wire t value) [] :=
    ⟨rfl, .start _⟩
  have hread := (readerVisit_readsBack t value hcounts).back (default t) hahead hfit
  simp only [decode, hread, PortableReader.finish, PortableReader.advance, Nat.zero_add, ne_eq, not_true, if_false]
  rfl

/-- Two values without a byte, and a double after them. -/
theorem two_pings_and_a_double_round_trip :
    RoundTrips (.nested [.vector (.nested []), .scalar .double]) ([(), ()], ⟨5, by decide⟩, ())
      (List.replicate 20 0) ([], ⟨0, by decide⟩, ()) := by
  refine (portable_round_trip_iff ⟨.nested [.vector (.nested []), .scalar .double], rfl⟩ ([(), ()], ⟨5, by decide⟩, ())
    ?_ (List.replicate 20 0) ?_ ([], ⟨0, by decide⟩, ())).mpr ?_
  · simp [CountsBelow, FieldCountsBelow]
  · decide
  · simp [CountsFit, FieldCountsFit, elementsFit, sizerFields, sizerVisit, Scalar.scalarSize]

/-- `std::vector<Ping>` with one element, where `PortableFields<Ping>` lists no field. -/
theorem one_ping_does_not_round_trip :
    ¬ ∀ (t : PortableType) (value : Value t.val), CountsBelow t.val value → ∀ buffer : Bytes,
      maxSize t.val value ≤ buffer.length → ∀ into, RoundTrips t.val value buffer into := by
  intro hall
  have hcounts : CountsBelow (.vector (.nested [])) [()] := by simp [CountsBelow, FieldCountsBelow]
  obtain ⟨used, bytes, hused, hbytes, hread⟩ :=
    hall ⟨.vector (.nested []), rfl⟩ [()] hcounts [0, 0, 0, 0] (by decide) []
  cases hused
  cases hbytes
  have hstatus := congrArg (fun result => result.2.status.isOk) hread
  revert hstatus
  decide

end PuppetMaster.Portable
