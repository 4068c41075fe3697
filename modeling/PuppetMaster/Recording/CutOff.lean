/-
  PuppetMaster.Recording.CutOff — a recording that ends anywhere after its header.

  The first bytes of a recording are the records that lie inside them and the front of the
  next one (`take_records`). A reader returns the messages of those records and then ends;
  it says that the file is cut off exactly when the cut is not between two records. As for
  a whole recording, this takes ids that have not run out: fewer than 2^32 topics inside
  (`cut_off_recording_iff`).
-/

import Mathlib.Algebra.Group.Nat.Defs
import PuppetMaster.Recording.RoundTrip

namespace PuppetMaster.Recording

open PuppetMaster.Core PuppetMaster.Lib
open RecordingReader (CutOff Reads)

/-- The records that lie completely inside the first `n` bytes. -/
def complete : List Record → Nat → List Record
  | [], _ => []
  | rec :: recs, n => if rec.bytes.length ≤ n then rec :: complete recs (n - rec.bytes.length) else []

/-- The first `n` bytes end with a record, or are none. -/
def OnBoundary (recs : List Record) (n : Nat) : Prop := ∃ k, n = ((recs.take k).flatMap Record.bytes).length

theorem length_bytes_pos (rec : Record) : 0 < rec.bytes.length := by
  rw [Record.bytes, length_rawRecord]
  omega

/-- Past a whole record, a boundary is a boundary of the rest. -/
theorem onBoundary_cons {rec : Record} {recs : List Record} {n : Nat} (h : rec.bytes.length ≤ n) :
    OnBoundary (rec :: recs) n ↔ OnBoundary recs (n - rec.bytes.length) := by
  have hpos := length_bytes_pos rec
  constructor
  · intro h
    obtain ⟨k, hk⟩ := h
    cases k with
    | zero =>
      rw [List.take_zero, List.flatMap_nil, List.length_nil] at hk
      omega
    | succ k =>
      rw [List.take_succ_cons, List.flatMap_cons, List.length_append] at hk
      exact ⟨k, by omega⟩
  · intro h
    obtain ⟨k, hk⟩ := h
    refine ⟨k + 1, ?_⟩
    rw [List.take_succ_cons, List.flatMap_cons, List.length_append]
    omega

/-- Inside the first record, only its start is a boundary. -/
theorem onBoundary_inside {rec : Record} {recs : List Record} {n : Nat} (h : n < rec.bytes.length) :
    OnBoundary (rec :: recs) n ↔ n = 0 := by
  constructor
  · intro h
    obtain ⟨k, hk⟩ := h
    cases k with
    | zero => exact hk
    | succ k =>
      rw [List.take_succ_cons, List.flatMap_cons, List.length_append] at hk
      omega
  · rintro rfl
    exact ⟨0, rfl⟩

theorem take_records {recs : List Record} (hvalid : ∀ rec ∈ recs, rec.Valid) (n : Nat)
    (hn : n ≤ (recs.flatMap Record.bytes).length) :
    ∃ tail, (recs.flatMap Record.bytes).take n = (complete recs n).flatMap Record.bytes ++ tail ∧ CutOff tail ∧
      (tail = [] ↔ OnBoundary recs n) := by
  induction recs generalizing n with
  | nil =>
    have hzero : n = 0 := Nat.le_zero.mp hn
    exact ⟨[], by rw [List.flatMap_nil, List.take_nil]; rfl, .inl rfl, fun _ => ⟨0, hzero⟩, fun _ => rfl⟩
  | cons rec recs ih =>
    rw [List.flatMap_cons, List.length_append] at hn
    by_cases hle : rec.bytes.length ≤ n
    · obtain ⟨tail, htake, hcut, hnil⟩ :=
        ih (fun rec' h => hvalid rec' (List.mem_cons_of_mem _ h)) (n - rec.bytes.length) (by omega)
      refine ⟨tail, ?_, hcut, hnil.trans (onBoundary_cons hle).symm⟩
      rw [List.flatMap_cons, complete, if_pos hle, List.flatMap_cons, List.append_assoc, ← htake, List.take_append,
        List.take_of_length_le hle]
    · have hlt : n < rec.bytes.length := by omega
      refine ⟨rec.bytes.take n, ?_, ?_, ?_⟩
      · rw [List.flatMap_cons, complete, if_neg hle, List.take_append_of_le_length (by omega)]
        rfl
      · refine .inr ⟨rec, hvalid rec List.mem_cons_self, rec.bytes.drop n, ?_, List.take_append_drop _ _⟩
        rw [ne_eq, List.drop_eq_nil_iff]
        omega
      · rw [onBoundary_inside hlt, ← List.length_eq_zero_iff, List.length_take]
        omega

theorem complete_orderly {recs : List Record} {m : Nat} (h : Orderly m recs) (n : Nat) : Orderly m (complete recs n) := by
  induction recs generalizing m n with
  | nil => exact trivial
  | cons rec recs ih =>
    unfold complete
    split
    · cases rec with
      | topic t => exact ⟨h.1, ih h.2 _⟩
      | message m' => exact ⟨h.1, ih h.2 _⟩
      | other kind body => exact ih (m := m) h _
    · exact trivial

theorem complete_valid {recs : List Record} (h : ∀ rec ∈ recs, rec.Valid) (n : Nat) :
    ∀ rec ∈ complete recs n, rec.Valid := by
  induction recs generalizing n with
  | nil => exact h
  | cons rec recs ih =>
    intro rec' hrec'
    unfold complete at hrec'
    split at hrec'
    · rcases List.mem_cons.mp hrec' with rfl | hrec'
      · exact h _ List.mem_cons_self
      · exact ih (fun r hr => h r (List.mem_cons_of_mem _ hr)) _ rec' hrec'
    · exact nomatch hrec'

/-- The file opens, `Next` returns these messages and then none, never an error, and the
    reader then says whether the file is cut off. -/
def ReadsCut (path file : Bytes) (messages : List RecordedMessage) (cut : Prop) : Prop :=
  ∃ r r', RecordingReader.openFile path file = .ok r ∧ Reads r messages r' ∧ (r'.truncated = true ↔ cut)

theorem readsCut_iff (path : Bytes) {recs : List Record} (hvalid : ∀ rec ∈ recs, rec.Valid) (horderly : Orderly 0 recs)
    {n : Nat} (hn : n ≤ (recs.flatMap Record.bytes).length) :
    ReadsCut path (RecordingWriter.fileHeader ++ (recs.flatMap Record.bytes).take n) (messagesOf (complete recs n))
        (¬ OnBoundary recs n) ↔
      (topicsOf (complete recs n)).length < 2 ^ 32 := by
  obtain ⟨tail, htake, hcut, hboundary⟩ := take_records hvalid n hn
  have hnumbered : Numbered [] := rfl
  have hscan := scan_orderly hnumbered (by decide) (complete_orderly horderly n)
  rw [List.length_nil, Nat.zero_add, List.nil_append] at hscan
  obtain ⟨hforward, hback⟩ := RecordingReader.reads_iff (complete_valid hvalid n) hcut
    (RecordingReader.opened_positioned path _) htake (messagesOf (complete recs n))
  unfold ReadsCut
  rw [openFile_header]
  constructor
  · intro h
    obtain ⟨r, r', hopen, hreads, -⟩ := h
    cases hopen
    have hsome : scan [] (complete recs n) = some (_, r'.topics) := (hforward r' hreads).1
    by_contra hmany
    rw [hscan, if_neg hmany] at hsome
    cases hsome
  · intro hfew
    obtain ⟨r', hreads⟩ := hback _ (hscan.trans (if_pos hfew))
    refine ⟨_, r', rfl, hreads, ?_⟩
    rw [(hforward r' hreads).2, decide_eq_true_eq, ne_eq, hboundary]

theorem cut_off_recording_iff (path readerPath : Bytes) (calls : List Call) (n : Nat) (hheader : kFileHeaderSize ≤ n)
    (hn : n ≤ ((RecordingWriter.create path).run calls).out.length) :
    ReadsCut readerPath (((RecordingWriter.create path).run calls).out.take n)
        (messagesOf (complete ((RecordingWriter.create path).accepted calls) (n - kFileHeaderSize)))
        (¬ OnBoundary ((RecordingWriter.create path).accepted calls) (n - kFileHeaderSize)) ↔
      (topicsOf (complete ((RecordingWriter.create path).accepted calls) (n - kFileHeaderSize))).length < 2 ^ 32 := by
  have hlen : RecordingWriter.fileHeader.length = kFileHeaderSize := by decide
  rw [run_records, List.length_append, hlen] at hn
  rw [run_records, List.take_append, List.take_of_length_le (by omega), hlen]
  exact readsCut_iff readerPath (RecordingWriter.accepted_valid _ calls)
    (RecordingWriter.accepted_orderly (.create path) calls) (by omega)

/-- Twenty bytes into the record of the message. -/
theorem a_cut_inside_the_message :
    ReadsCut [] (((RecordingWriter.create []).run fewCalls).out.take 71)
      (messagesOf (complete ((RecordingWriter.create []).accepted fewCalls) (71 - kFileHeaderSize)))
      (¬ OnBoundary ((RecordingWriter.create []).accepted fewCalls) (71 - kFileHeaderSize)) :=
  (cut_off_recording_iff [] [] fewCalls 71 (by decide) (by decide)).mpr (by decide)

theorem complete_all (recs : List Record) : complete recs (recs.flatMap Record.bytes).length = recs := by
  induction recs with
  | nil => rfl
  | cons rec recs ih =>
    rw [List.flatMap_cons, List.length_append, complete, if_pos (Nat.le_add_right _ _), Nat.add_sub_cancel_left, ih]

/-- 2^32 times one topic, cut after the last record: the reader fails at the last one. -/
theorem an_uncut_recording_fails :
    ¬ ∀ (path readerPath : Bytes) (calls : List Call) (n : Nat), kFileHeaderSize ≤ n →
      n ≤ ((RecordingWriter.create path).run calls).out.length →
        ReadsCut readerPath (((RecordingWriter.create path).run calls).out.take n)
          (messagesOf (complete ((RecordingWriter.create path).accepted calls) (n - kFileHeaderSize)))
          (¬ OnBoundary ((RecordingWriter.create path).accepted calls) (n - kFileHeaderSize)) := by
  intro hall
  let calls := List.replicate (2 ^ 32) (Call.addTopic plainTopic)
  let recs := (RecordingWriter.create []).accepted calls
  have hlen : RecordingWriter.fileHeader.length = kFileHeaderSize := by decide
  have hout : ((RecordingWriter.create []).run calls).out.length =
      kFileHeaderSize + (recs.flatMap Record.bytes).length := by
    rw [run_records, List.length_append, hlen]
  have hread := hall [] [] calls _ (Nat.le.intro hout.symm) (Nat.le_refl _)
  rw [List.take_length, hout, Nat.add_sub_cancel_left, run_records] at hread
  have hiff := readsCut_iff [] (RecordingWriter.accepted_valid _ calls)
    (RecordingWriter.accepted_orderly (.create []) calls) (Nat.le_refl _)
  rw [List.take_length] at hiff
  have hfew := hiff.mp hread
  rw [complete_all, RecordingWriter.length_topicsOf_accepted, declarations_replicate] at hfew
  exact Nat.lt_irrefl _ hfew

end PuppetMaster.Recording
