/-
  PuppetMaster.Portable.Sizes — the size that `PortableSizer` counts is the one that
  `PortableWriter` needs.

  `PortableSizer` counts in `std::size_t`; below 2^64 it is the size without a limit
  (`toNat_maxSize`). A visit of the writer that began without an error has put all of the
  value's bytes where it stood, or the front of them, and an error, where they do not fit
  (`writerVisit_wrote`); behind an error the other fields write nothing.
-/

import PuppetMaster.Portable.RoundTrip

namespace PuppetMaster.Portable

open PuppetMaster.Core
open PuppetMaster.Lib hiding Ahead

/-! ## PortableSizer in machine words -/

namespace PortableSizer

def elements (e : FieldType) (visit : Value e → UInt64 → UInt64) (values : List (Value e)) (size : UInt64) : UInt64 :=
  match e with
  | .scalar s => size + UInt64.ofNat values.length * UInt64.ofNat s.scalarSize
  | _ => values.foldl (fun size v => visit v size) size

mutual

def visit : (t : FieldType) → Value t → (size : UInt64) → UInt64
  | .scalar s, _, size => size + UInt64.ofNat s.scalarSize
  | .string, (value : Bytes), size => size + (4 + UInt64.ofNat value.length)
  | .vector e, value, size => elements e (visit e) value (size + 4)
  | .array e _, value, size => elements e (visit e) value.val size
  | .nested fs, value, size => fields fs value size

def fields : (fs : List FieldType) → Values fs → (size : UInt64) → UInt64
  | [], _, size => size
  | f :: fs, (v, vs), size => fields fs vs (visit f v size)

end

def maxSize (t : FieldType) (value : Value t) : UInt64 := visit t value 0

/-- Sums and products wrap, and so does the whole of them. -/
theorem elements_eq {e : FieldType} (h : ∀ v n, visit e v (.ofNat n) = .ofNat (sizerVisit e v n)) (values : List (Value e))
    (n : Nat) : elements e (visit e) values (.ofNat n) = .ofNat (sizerElements e (sizerVisit e) values n) := by
  have hfold : ∀ n, values.foldl (fun size v => visit e v size) (.ofNat n) =
      .ofNat (values.foldl (fun size v => sizerVisit e v size) n) := by
    induction values with
    | nil => intro n; rfl
    | cons v vs ih =>
      intro n
      rw [List.foldl_cons, h, ih, List.foldl_cons]
  cases e with
  | scalar s => rw [elements, sizerElements, UInt64.ofNat_add, UInt64.ofNat_mul]
  | string => exact hfold n
  | vector e => exact hfold n
  | array e size => exact hfold n
  | nested fs => exact hfold n

mutual

theorem visit_eq : ∀ (t : FieldType) (v : Value t) (n : Nat), visit t v (.ofNat n) = .ofNat (sizerVisit t v n)
  | .scalar s, v, n => by
    rw [visit, sizerVisit, UInt64.ofNat_add]
  | .string, v, n => by
    rw [visit, sizerVisit, UInt64.ofNat_add, UInt64.ofNat_add]
    rfl
  | .vector e, v, n => by
    rw [visit, sizerVisit, ← elements_eq (visit_eq e), UInt64.ofNat_add]
    rfl
  | .array e size, v, n => by
    rw [visit, sizerVisit, ← elements_eq (visit_eq e)]
  | .nested fs, v, n => by
    rw [visit, sizerVisit, fields_eq fs]

theorem fields_eq : ∀ (fs : List FieldType) (vs : Values fs) (n : Nat),
    fields fs vs (.ofNat n) = .ofNat (sizerFields fs vs n)
  | [], _, _ => rfl
  | f :: fs, (v, vs), n => by
    rw [fields, sizerFields, visit_eq f, fields_eq fs]

end

theorem toNat_maxSize {t : FieldType} {value : Value t} (h : Portable.maxSize t value < 2 ^ 64) :
    (maxSize t value).toNat = Portable.maxSize t value := by
  have heq : maxSize t value = .ofNat (Portable.maxSize t value) := visit_eq t value 0
  rw [heq, UInt64.toNat_ofNat_of_lt' h]

end PortableSizer

/-! ## What a visit writes -/

namespace PortableWriter

def noRoom : Status := .error .outOfRange (text "portable encoding does not fit the buffer")

/-- `w'` is `w` with all of the bytes, or with the front of those that do not fit. -/
inductive Wrote (w : PortableWriter) (bytes : Bytes) : PortableWriter → Prop
  | all (hroom : w.offset + bytes.length ≤ w.buffer.length) : Wrote w bytes (w.store bytes)
  | cut {front : Bytes} (hfront : front <+: bytes) (hroom : w.offset + front.length ≤ w.buffer.length)
      (hshort : w.buffer.length < w.offset + bytes.length) : Wrote w bytes { w.store front with status := noRoom }

variable {w w' w'' : PortableWriter} {a b : Bytes}

theorem store_wrote (hwithin : w.offset ≤ w.buffer.length) (bytes : Bytes) : w.Wrote bytes (w.store bytes) := by
  by_cases hroom : w.offset + bytes.length ≤ w.buffer.length
  · exact .all hroom
  · have hcut : w.store bytes = { w.store [] with status := noRoom } := by
      rw [store_nil, store, if_pos (by omega)]
      rfl
    rw [hcut]
    exact .cut List.nil_prefix hwithin (by omega)

theorem Wrote.nil (hwithin : w.offset ≤ w.buffer.length) : w.Wrote [] w := by
  have h := store_wrote hwithin []
  rwa [store_nil] at h

theorem Wrote.within (h : w.Wrote a w') : w'.offset ≤ w'.buffer.length := by
  cases h with
  | all hroom =>
    rw [store_offset hroom, length_store hroom]
    exact hroom
  | cut hfront hroom hshort =>
    show (w.store _).offset ≤ (w.store _).buffer.length
    rw [store_offset hroom, length_store hroom]
    exact hroom

/-- Two visits in a row; the second does nothing behind an error. -/
theorem Wrote.append (hok : w.status.isOk = true) (h : w.Wrote a w') (hmore : w'.status.isOk = true → w'.Wrote b w'')
    (hstuck : w'.status.isOk = false → w'' = w') : w.Wrote (a ++ b) w'' := by
  cases h with
  | all hroom =>
    have hsecond := hmore ((congrArg Status.isOk (store_status hroom)).trans hok)
    cases hsecond with
    | all hroom' =>
      rw [store_offset hroom, length_store hroom] at hroom'
      rw [store_store (by omega)]
      exact .all (by rw [List.length_append]; omega)
    | @cut front hfront hroom' hshort =>
      rw [store_offset hroom, length_store hroom] at hroom' hshort
      rw [store_store (by omega)]
      refine .cut ?_ ?_ ?_
      · exact (List.prefix_append_right_inj a).mpr hfront
      · rw [List.length_append]
        omega
      · rw [List.length_append]
        omega
  | cut hfront hroom hshort =>
    rw [hstuck rfl]
    exact .cut (hfront.trans (List.prefix_append a b)) hroom (by rw [List.length_append]; omega)

end PortableWriter

theorem writerVisit_stuck (t : FieldType) (v : Value t) {w : PortableWriter} (h : w.status.isOk = false) :
    writerVisit t v w = w := by
  rw [writerVisit.eq_def, h]
  rfl

theorem writerFields_stuck (fs : List FieldType) (vs : Values fs) {w : PortableWriter} (h : w.status.isOk = false) :
    writerFields fs vs w = w := by
  induction fs with
  | nil => rfl
  | cons f fs ih => rw [writerFields, writerVisit_stuck f _ h, ih]

theorem foldl_stuck {e : FieldType} (vs : List (Value e)) {w : PortableWriter} (h : w.status.isOk = false) :
    vs.foldl (fun w v => writerVisit e v w) w = w := by
  induction vs with
  | nil => rfl
  | cons v vs ih => rw [List.foldl_cons, writerVisit_stuck e v h, ih]

theorem foldl_wrote {e : FieldType} {vs : List (Value e)}
    (hvisit : ∀ v ∈ vs, ∀ w : PortableWriter, w.status.isOk = true → w.offset ≤ w.buffer.length →
      w.Wrote (wire e v) (writerVisit e v w))
    (w : PortableWriter) (hok : w.status.isOk = true) (hwithin : w.offset ≤ w.buffer.length) :
    w.Wrote (vs.flatMap (wire e)) (vs.foldl (fun w v => writerVisit e v w) w) := by
  induction vs generalizing w with
  | nil =>
    rw [List.flatMap_nil, List.foldl_nil]
    exact .nil hwithin
  | cons v vs ih =>
    have hfirst := hvisit v List.mem_cons_self w hok hwithin
    rw [List.flatMap_cons, List.foldl_cons]
    exact hfirst.append hok
      (fun hok' => ih (fun u hu => hvisit u (List.mem_cons_of_mem _ hu)) _ hok' hfirst.within) (foldl_stuck vs)

mutual

theorem writerVisit_wrote : ∀ (t : FieldType) (v : Value t), CountsBelow t v → ∀ w : PortableWriter,
    w.status.isOk = true → w.offset ≤ w.buffer.length → w.Wrote (wire t v) (writerVisit t v w)
  | .scalar s, v, _, w, hok, hwithin => by
    simp only [writerVisit, hok, Bool.not_true, Bool.false_eq_true, if_false, PortableWriter.put, wire]
    exact PortableWriter.store_wrote hwithin _
  | .string, (v : Bytes), hcounts, w, hok, hwithin => by
    simp only [CountsBelow] at hcounts
    have hcount := PortableWriter.store_wrote hwithin (putLe 4 v.length)
    simp only [writerVisit, hok, Bool.not_true, Bool.false_eq_true, if_false, PortableWriter.count_eq hcounts, wire]
    refine hcount.append hok ?_ ?_
    · intro hok'
      rw [PortableWriter.bytes, if_pos hok']
      exact PortableWriter.store_wrote hcount.within v
    · intro herr
      rw [PortableWriter.bytes, herr]
      rfl
  | .vector e, (vs : List (Value e)), hcounts, w, hok, hwithin => by
    simp only [CountsBelow] at hcounts
    have hcount := PortableWriter.store_wrote hwithin (putLe 4 vs.length)
    simp only [writerVisit, hok, Bool.not_true, Bool.false_eq_true, if_false, PortableWriter.count_eq hcounts.1, wire]
    exact hcount.append hok
      (fun hok' => foldl_wrote (fun v hv => writerVisit_wrote e v (hcounts.2 v hv)) _ hok' hcount.within)
      (foldl_stuck vs)
  | .array e n, vs, hcounts, w, hok, hwithin => by
    simp only [CountsBelow] at hcounts
    simp only [writerVisit, hok, Bool.not_true, Bool.false_eq_true, if_false, wire]
    exact foldl_wrote (fun v hv => writerVisit_wrote e v (hcounts v hv)) w hok hwithin
  | .nested fs, vs, hcounts, w, hok, hwithin => by
    simp only [CountsBelow] at hcounts
    simp only [writerVisit, hok, Bool.not_true, Bool.false_eq_true, if_false, wire]
    exact writerFields_wrote fs vs hcounts w hok hwithin

theorem writerFields_wrote : ∀ (fs : List FieldType) (vs : Values fs), FieldCountsBelow fs vs → ∀ w : PortableWriter,
    w.status.isOk = true → w.offset ≤ w.buffer.length → w.Wrote (wireFields fs vs) (writerFields fs vs w)
  | [], _, _, _, _, hwithin => .nil hwithin
  | f :: fs, (v, vs), hcounts, w, hok, hwithin => by
    simp only [FieldCountsBelow] at hcounts
    have hfirst := writerVisit_wrote f v hcounts.1 w hok hwithin
    simp only [writerFields, wireFields]
    exact hfirst.append hok (fun hok' => writerFields_wrote fs vs hcounts.2 _ hok' hfirst.within)
      (writerFields_stuck fs vs)

end

/-! ## Encode -/

/-- Without room for all of it, `Encode` fails, and leaves the front of the encoding. -/
theorem encode_short {t : FieldType} {value : Value t} (hcounts : CountsBelow t value) {buffer : Bytes}
    (hshort : buffer.length < maxSize t value) :
    ∃ written, written <+: wire t value ∧ written.length ≤ buffer.length ∧
      encode t value buffer = (.error PortableWriter.noRoom, written ++ buffer.drop written.length) := by
  have hwrote := writerVisit_wrote t value hcounts { buffer } rfl (Nat.zero_le _)
  rw [maxSize_eq] at hshort
  unfold encode
  revert hwrote
  generalize writerVisit t value { buffer } = w
  intro hwrote
  cases hwrote with
  | all hroom =>
    simp only [Nat.zero_add] at hroom
    omega
  | @cut front hfront hroom _ =>
    simp only [Nat.zero_add] at hroom
    refine ⟨front, hfront, hroom, ?_⟩
    simp only [PortableWriter.store, Nat.sub_zero, if_neg (Nat.not_lt.mpr hroom), List.take_zero, List.nil_append,
      Nat.zero_add]
    rfl

theorem encode_needs_its_size (t : PortableType) (value : Value t.val) (hcounts : CountsBelow t.val value)
    (hsize : maxSize t.val value < 2 ^ 64) (buffer : Bytes) :
    ((∃ used, (encode t.val value buffer).1 = .ok used) ↔ (PortableSizer.maxSize t.val value).toNat ≤ buffer.length)
      ∧ (∀ used, (encode t.val value buffer).1 = .ok used → used = (PortableSizer.maxSize t.val value).toNat
        ∧ (wire t.val value).length = used ∧ (encode t.val value buffer).2 = wire t.val value ++ buffer.drop used)
      ∧ (∀ status, (encode t.val value buffer).1 = .error status → ∃ written, written <+: wire t.val value
        ∧ written.length ≤ buffer.length ∧ (encode t.val value buffer).2 = written ++ buffer.drop written.length) := by
  rw [PortableSizer.toNat_maxSize hsize]
  by_cases hroom : maxSize t.val value ≤ buffer.length
  · rw [encode_eq hcounts hroom]
    refine ⟨⟨fun _ => hroom, fun _ => ⟨_, rfl⟩⟩, ?_, ?_⟩
    · intro used hused
      cases hused
      exact ⟨rfl, (maxSize_eq _ _).symm, rfl⟩
    · intro status herr
      cases herr
  · obtain ⟨written, hfront, hwithin, hencode⟩ := encode_short hcounts (Nat.not_le.mp hroom)
    rw [hencode]
    refine ⟨⟨?_, fun h => absurd h hroom⟩, ?_, ?_⟩
    · rintro ⟨used, hused⟩
      cases hused
    · intro used hused
      cases hused
    · exact fun status _ => ⟨written, hfront, hwithin, rfl⟩

/-- A string of two bytes and a vector, into a buffer with room and into one that ends inside the vector. -/
theorem a_string_and_a_vector_need_sixteen_bytes :
    (encode (.nested [.string, .vector (.scalar (.integral (.unsigned .two)))])
        (([7, 8] : Bytes), [⟨1, by decide⟩, ⟨2, by decide⟩, ⟨3, by decide⟩], ()) (List.replicate 16 9)).1 = .ok 16
      ∧ ¬ ∃ used, (encode (.nested [.string, .vector (.scalar (.integral (.unsigned .two)))])
        (([7, 8] : Bytes), [⟨1, by decide⟩, ⟨2, by decide⟩, ⟨3, by decide⟩], ()) (List.replicate 13 9)).1 = .ok used := by
  have hcounts : CountsBelow (.nested [.string, .vector (.scalar (.integral (.unsigned .two)))])
      (([7, 8] : Bytes), [⟨1, by decide⟩, ⟨2, by decide⟩, ⟨3, by decide⟩], ()) := by
    refine ⟨show [7, 8].length < 2 ^ 32 by decide, ⟨show 3 < 2 ^ 32 by decide, ?_⟩, trivial⟩
    intro v _
    trivial
  have hexact := encode_needs_its_size ⟨.nested [.string, .vector (.scalar (.integral (.unsigned .two)))], rfl⟩ _
    hcounts (by decide)
  constructor
  · obtain ⟨used, hused⟩ := (hexact (List.replicate 16 9)).1.mpr (by decide)
    rw [hused, ((hexact _).2.1 used hused).1]
    rfl
  · intro hused
    exact absurd ((hexact (List.replicate 13 9)).1.mp hused) (by decide)

end PuppetMaster.Portable
