/-
  PuppetMaster.Shm.SeqlockProofs — the seqlock machine's invariant and what it gives the
  readers (see `PuppetMaster.Shm.Seqlock`).
-/

import Mathlib.Data.List.Nodup
import PuppetMaster.Shm.Seqlock

namespace PuppetMaster.Shm.Seqlock

open PuppetMaster.Core PuppetMaster.Lib PuppetMaster.Shm

variable {g : Geometry}

/-! ## Sequences and slots -/

theorem kWritingBit_lt_mark (n : Nat) : kWritingBit ≤ n ||| kWritingBit := Nat.right_le_or

/-- Two sequences less than a ring apart live in different slots. -/
theorem slotAt_ne {k m : Nat} (hlt : k < m) (hring : m < k + g.slotCount) : slotAt g k ≠ slotAt g m := by
  intro h
  have hd : (m - k) % g.slotCount = 0 := Nat.sub_mod_eq_zero_of_mod_eq h.symm
  have := Nat.le_of_dvd (by omega) (Nat.dvd_of_mod_eq_zero hd)
  omega

/-! ## The invariant -/

/-- The slot holds, as sequence `v`, exactly what the publish that committed `v` wrote. -/
def Holds (commits : List Commit) (slot : Slot) (v : Nat) : Prop :=
  ∃ c ∈ commits, c.sequence = v ∧ c.payload = bytesAt slot.payload slot.payloadSize ∧
    c.sourceTimestamp = slot.sourceTimestampNs

variable (g) in
/-- What slot `i` can show: nothing yet, a committed sequence with its contents, or the
    sequence after the newest one, marked or sealed. -/
inductive SlotOk (r : Ring) (commits : List Commit) (i : Nat) : Prop
  | unused : (r.slots i).seq = 0 → SlotOk r commits i
  | committed : 1 ≤ (r.slots i).seq → (r.slots i).seq ≤ r.writeSeq → slotAt g (r.slots i).seq = i →
      (r.slots i).payloadSize ≤ g.slotPayloadSize → Holds commits (r.slots i) (r.slots i).seq → SlotOk r commits i
  | next : slotAt g (r.writeSeq + 1) = i →
      ((r.slots i).seq = r.writeSeq + 1 ∨ (r.slots i).seq = (r.writeSeq + 1) ||| kWritingBit) → SlotOk r commits i

/-- The publish works on the sequence after the newest one. -/
structure Prepared (g : Geometry) (r : Ring) (p : Publication) : Prop where
  sequence : p.sequence = r.writeSeq + 1
  below : p.sequence < 2 ^ 63
  capacity : p.capacity ≤ g.slotPayloadSize

/-- Its slot holds the fill function's bytes so far. -/
def Filled (g : Geometry) (r : Ring) (p : Publication) : Prop :=
  ∀ i < p.capacity, (r.slots (slotAt g p.sequence)).payload i = p.buffer i

def WriterOk (g : Geometry) (r : Ring) : WriterPc → Prop
  | .locking capacity _ | .loading capacity _ => capacity ≤ g.slotPayloadSize
  | .marking p => Prepared g r p ∧ Filled g r p
  | .filling p => Prepared g r p ∧ Filled g r p ∧ (r.slots (slotAt g p.sequence)).seq = p.sequence ||| kWritingBit
  | .sizing p => Prepared g r p ∧ Filled g r p ∧ (r.slots (slotAt g p.sequence)).seq = p.sequence ||| kWritingBit ∧
      p.used ≤ p.capacity
  | .stamping p => Prepared g r p ∧ Filled g r p ∧ (r.slots (slotAt g p.sequence)).seq = p.sequence ||| kWritingBit ∧
      p.used ≤ p.capacity ∧ (r.slots (slotAt g p.sequence)).payloadSize = p.used
  | .sealing p => Prepared g r p ∧ Filled g r p ∧ (r.slots (slotAt g p.sequence)).seq = p.sequence ||| kWritingBit ∧
      p.used ≤ p.capacity ∧ (r.slots (slotAt g p.sequence)).payloadSize = p.used ∧
      (r.slots (slotAt g p.sequence)).sourceTimestampNs = p.sourceTimestamp
  | .committing p => Prepared g r p ∧ Filled g r p ∧ (r.slots (slotAt g p.sequence)).seq = p.sequence ∧
      p.used ≤ p.capacity ∧ (r.slots (slotAt g p.sequence)).payloadSize = p.used ∧
      (r.slots (slotAt g p.sequence)).sourceTimestampNs = p.sourceTimestamp
  | .idle | .unlocking | .dead => True

def holdsLock : WriterPc → Bool
  | .loading _ _ | .marking _ | .filling _ | .sizing _ | .stamping _ | .sealing _ | .committing _ | .unlocking => true
  | .idle | .locking _ _ | .dead => false

/-- What a reader has loaded so far in this pass agrees with its slot, as long as the
    slot still shows the reader's sequence. -/
def StageOk (g : Geometry) (r : Ring) (cursor : Nat) : Stage → Prop
  | .newest => True
  | .seq => cursor ≤ r.writeSeq
  | .size before => cursor ≤ r.writeSeq ∧ before = cursor
  | .stamp before size => cursor ≤ r.writeSeq ∧ before = cursor ∧
      ((r.slots (slotAt g cursor)).seq = cursor → (r.slots (slotAt g cursor)).payloadSize = size)
  | .copy before size timestamp copied => cursor ≤ r.writeSeq ∧ before = cursor ∧ copied.length ≤ size ∧
      ((r.slots (slotAt g cursor)).seq = cursor → (r.slots (slotAt g cursor)).payloadSize = size ∧
        (r.slots (slotAt g cursor)).sourceTimestampNs = timestamp ∧
        copied = bytesAt (r.slots (slotAt g cursor)).payload copied.length)

/-- A returned message is a committed publish. -/
def Returned (commits : List Commit) (m : Message) : Prop :=
  ∃ c ∈ commits, c.sequence = m.metadata.sequence ∧ c.payload = m.payload ∧
    c.sourceTimestamp = m.metadata.sourceTimestamp

structure ReaderOk (g : Geometry) (r : Ring) (commits : List Commit) (rd : Reader) : Prop where
  cursor : 1 ≤ rd.cursor
  stage : ∀ stage passes dropped, rd.pc = .reading stage passes dropped → StageOk g r rd.cursor stage
  returned : ∀ outcome m, rd.pc = .returned outcome (some m) → Returned commits m

structure Inv (g : Geometry) (s : St) : Prop where
  below : s.ring.writeSeq < 2 ^ 63
  sequences : s.commits.map (·.sequence) = List.range' 1 s.ring.writeSeq
  slots : ∀ i, SlotOk g s.ring s.commits i
  /-- The newest messages are all there, up to the one whose slot is written next. -/
  window : ∀ k, 1 ≤ k → k ≤ s.ring.writeSeq → s.ring.writeSeq + 1 < k + g.slotCount →
    (s.ring.slots (slotAt g k)).seq = k
  locked : ∀ w, holdsLock (s.writers w) = true → s.lock = some w
  writers : ∀ w, WriterOk g s.ring (s.writers w)
  readers : ∀ r rd, s.readers r = some rd → ReaderOk g s.ring s.commits rd

theorem init_inv : Inv g init where
  below := by simp [init, Ring.fresh]
  sequences := rfl
  slots i := .unused rfl
  window k h1 h2 := by simp only [init, Ring.fresh] at h2; omega
  locked w h := by cases h
  writers w := trivial
  readers r rd h := by cases h

/-! ## Frames -/

theorem writerOk_of_not_holds {r r' : Ring} {pc : WriterPc} (h : WriterOk g r pc) (hn : holdsLock pc = false) :
    WriterOk g r' pc := by
  cases pc <;> first | exact h | cases hn

/-- Only the lock's owner has anything to say about the ring. -/
theorem writers_frame {s : St} (hi : Inv g s) {w : Nat} (hw : holdsLock (s.writers w) = true) {pc : WriterPc} {r : Ring}
    (hpc : WriterOk g r pc) : ∀ v, WriterOk g r (Function.update s.writers w pc v) := by
  intro v
  by_cases e : v = w
  · subst e; simpa using hpc
  · rw [Function.update_of_ne e]
    refine writerOk_of_not_holds (hi.writers v) ?_
    cases h : holdsLock (s.writers v) with
    | false => rfl
    | true =>
      have h1 := hi.locked v h
      rw [hi.locked w hw] at h1
      exact absurd (Option.some.inj h1).symm e

theorem locked_frame {s : St} (hi : Inv g s) {w : Nat} {pc : WriterPc}
    (hpc : holdsLock pc = true → s.lock = some w) :
    ∀ v, holdsLock (Function.update s.writers w pc v) = true → s.lock = some v := by
  intro v hv
  by_cases e : v = w
  · subst e; rw [Function.update_self] at hv; exact hpc hv
  · rw [Function.update_of_ne e] at hv; exact hi.locked v hv

theorem Holds.mono {commits commits' : List Commit} {slot : Slot} {v : Nat} (h : Holds commits slot v)
    (hc : ∀ c ∈ commits, c ∈ commits') : Holds commits' slot v := by
  obtain ⟨c, hm, h⟩ := h
  exact ⟨c, hc c hm, h⟩

theorem SlotOk.congr {r r' : Ring} {commits : List Commit} {i : Nat} (h : SlotOk g r commits i)
    (hw : r'.writeSeq = r.writeSeq) (hs : r'.slots i = r.slots i) : SlotOk g r' commits i := by
  cases h with
  | unused h => exact .unused (by rw [hs]; exact h)
  | committed h1 h2 h3 h4 h5 =>
    exact .committed (by rw [hs]; exact h1) (by rw [hs, hw]; exact h2) (by rw [hs]; exact h3) (by rw [hs]; exact h4)
      (by rw [hs]; exact h5)
  | next h1 h2 => exact .next (by rw [hw]; exact h1) (by rw [hs, hw]; exact h2)

/-- A reader is not disturbed by a change of the ring that leaves alone every slot that
    still shows a committed sequence. -/
theorem ReaderOk.frame {r r' : Ring} {commits commits' : List Commit} {rd : Reader} (h : ReaderOk g r commits rd)
    (hle : r.writeSeq ≤ r'.writeSeq) (hs : ∀ i, (r'.slots i).seq ≤ r.writeSeq → r'.slots i = r.slots i)
    (hc : ∀ c ∈ commits, c ∈ commits') : ReaderOk g r' commits' rd := by
  refine ⟨h.cursor, fun stage passes dropped hpc => ?_, fun outcome m hpc => ?_⟩
  · have hst := h.stage stage passes dropped hpc
    -- while the slot shows the cursor, the slot is as it was
    have keep : rd.cursor ≤ r.writeSeq → (r'.slots (slotAt g rd.cursor)).seq = rd.cursor →
        r'.slots (slotAt g rd.cursor) = r.slots (slotAt g rd.cursor) := by
      intro hcur hseq
      exact hs _ (by omega)
    cases stage with
    | newest => trivial
    | seq => simp only [StageOk] at hst ⊢; omega
    | size before => simp only [StageOk] at hst ⊢; omega
    | stamp before size =>
      obtain ⟨h1, h2, h3⟩ := hst
      refine ⟨by omega, h2, fun hseq => ?_⟩
      have hk := keep h1 hseq
      rw [hk] at hseq ⊢
      exact h3 hseq
    | copy before size timestamp copied =>
      obtain ⟨h1, h2, h3, h4⟩ := hst
      refine ⟨by omega, h2, h3, fun hseq => ?_⟩
      have hk := keep h1 hseq
      rw [hk] at hseq ⊢
      exact h4 hseq
  · obtain ⟨c, hm, hrest⟩ := h.returned outcome m hpc
    exact ⟨c, hc c hm, hrest⟩

/-! ## Writers keep the invariant -/

/-- A move that changes only the writer's own state. -/
theorem inv_setWriter {s : St} (hi : Inv g s) {w : Nat} {pc : WriterPc} (hpc : WriterOk g s.ring pc)
    (hl : holdsLock pc = true → s.lock = some w) : Inv g (setWriter s w pc) := by
  refine ⟨hi.below, hi.sequences, hi.slots, hi.window, locked_frame hi hl, fun v => ?_, hi.readers⟩
  show WriterOk g s.ring (Function.update s.writers w pc v)
  by_cases e : v = w
  · subst e; simpa using hpc
  · rw [Function.update_of_ne e]; exact hi.writers v

/-- A store into the slot of the next sequence by the lock's owner that leaves the slot
    marked or sealed with that sequence. -/
theorem inv_setSlot {s : St} (hi : Inv g s) {w : Nat} (hw : holdsLock (s.writers w) = true) {p : Publication}
    (hp : Prepared g s.ring p) {f : Slot → Slot} {pc : WriterPc}
    (hseq : (f (s.ring.slots (slotAt g p.sequence))).seq = p.sequence ∨
      (f (s.ring.slots (slotAt g p.sequence))).seq = p.sequence ||| kWritingBit)
    (hpc : WriterOk g (setSlot g s p.sequence f).ring pc) :
    Inv g (setWriter (setSlot g s p.sequence f) w pc) := by
  have hsq := hp.sequence
  have hlt : s.ring.writeSeq < (f (s.ring.slots (slotAt g p.sequence))).seq := by
    rcases hseq with h | h
    · rw [h]; omega
    · rw [h]
      have := kWritingBit_lt_mark p.sequence
      have := hi.below
      simp only [kWritingBit] at *
      omega
  have hother : ∀ i, i ≠ slotAt g p.sequence → (setSlot g s p.sequence f).ring.slots i = s.ring.slots i :=
    fun i h => Ring.setSlot_ne _ _ h
  have hself : (setSlot g s p.sequence f).ring.slots (slotAt g p.sequence) = f (s.ring.slots (slotAt g p.sequence)) :=
    Ring.setSlot_self _ _ _
  refine ⟨hi.below, hi.sequences, fun i => ?_, fun k h1 h2 h3 => ?_, locked_frame hi fun _ => hi.locked w hw,
    writers_frame hi hw hpc, fun r rd hr => ?_⟩
  · by_cases e : i = slotAt g p.sequence
    · subst e
      refine .next (by rw [hsq]; rfl) (hseq.imp (fun h => ?_) fun h => ?_)
      · exact (congrArg Slot.seq hself).trans (h.trans hsq)
      · exact (congrArg Slot.seq hself).trans (h.trans (congrArg (· ||| kWritingBit) hsq))
    · exact (hi.slots i).congr rfl (hother i e)
  · have hne : slotAt g k ≠ slotAt g p.sequence := by
      rw [hsq]; exact slotAt_ne (g := g) (by simp only [setWriter, setSlot, Ring.setSlot_writeSeq] at h2; omega) h3
    show ((setSlot g s p.sequence f).ring.slots (slotAt g k)).seq = k
    rw [hother _ hne]
    exact hi.window k h1 h2 h3
  · refine (hi.readers r rd hr).frame (Nat.le_refl _) (fun i hle => ?_) fun c hc => hc
    by_cases e : i = slotAt g p.sequence
    · subst e
      simp only [setWriter] at hle
      rw [hself] at hle
      omega
    · exact hother i e

theorem inv_commit {s : St} (hi : Inv g s) {w : Nat} {p : Publication} (hw : s.writers w = .committing p) :
    Inv g { setWriter s w .unlocking with
      ring := { s.ring with writeSeq := p.sequence }
      commits := s.commits ++ [⟨p.sequence, w, p.payload, p.sourceTimestamp⟩] } := by
  have hwr := hi.writers w
  rw [hw] at hwr
  obtain ⟨hp, hfill, hseq, hused, hsize, hts⟩ := hwr
  have hsq := hp.sequence
  have hbelow := hp.below
  have hholds : holdsLock (s.writers w) = true := by rw [hw]; rfl
  have hmono : ∀ c ∈ s.commits, c ∈ s.commits ++ [⟨p.sequence, w, p.payload, p.sourceTimestamp⟩] :=
    fun c hc => List.mem_append_left _ hc
  refine ⟨hp.below, ?_, fun i => ?_, fun k h1 h2 h3 => ?_, locked_frame hi fun _ => hi.locked w hholds,
    writers_frame hi hholds trivial, fun r rd hr => ?_⟩
  · simp only [List.map_append, List.map_cons, List.map_nil, hi.sequences, hsq, List.range'_concat]
    simp [Nat.add_comm]
  · -- the sealed slot now holds a committed sequence; no other slot showed the next one
    by_cases e : i = slotAt g p.sequence
    · subst e
      have hpay : p.payload = bytesAt (s.ring.slots (slotAt g p.sequence)).payload
          (s.ring.slots (slotAt g p.sequence)).payloadSize := by
        rw [hsize]
        exact bytesAt_congr fun i hi => (hfill i (by omega)).symm
      refine .committed ?_ ?_ ?_ ?_ ?_
      · simp only [hseq]; omega
      · simp only [hseq]; omega
      · simp only [hseq]
      · simp only [hsize]; have := hp.capacity; omega
      · exact ⟨_, List.mem_append_right _ (List.mem_singleton.mpr rfl), hseq.symm, hpay, hts.symm⟩
    · cases hi.slots i with
      | unused h => exact .unused h
      | committed h1 h2 h3 h4 h5 => exact .committed h1 (by simp only; omega) h3 h4 (h5.mono hmono)
      | next h _ => exact absurd (by rw [hsq]; exact h.symm) e
  · simp only at h2 h3
    by_cases e : k = p.sequence
    · subst e; exact hseq
    · exact hi.window k h1 (by omega) (by omega)
  · exact (hi.readers r rd hr).frame (by simp only; omega) (fun _ _ => rfl) hmono

/-! ## Readers keep the invariant -/

theorem clampCursor_bounds {cursor newest depth : Nat} (hc : 1 ≤ cursor) (hn : cursor ≤ newest) (hd : 1 ≤ depth) :
    cursor ≤ clampCursor cursor newest depth ∧ clampCursor cursor newest depth ≤ newest := by
  simp only [clampCursor]
  split <;> omega

theorem effectiveDepth_pos (depth : Nat) : 1 ≤ effectiveDepth g depth := Nat.le_max_left _ _

/-- While a slot shows a committed sequence it holds that publish's contents. -/
theorem Inv.holds {s : St} (hi : Inv g s) {c : Nat} (h1 : 1 ≤ c) (h2 : c ≤ s.ring.writeSeq)
    (h : (s.ring.slots (slotAt g c)).seq = c) : Holds s.commits (s.ring.slots (slotAt g c)) c := by
  cases hi.slots (slotAt g c) with
  | unused h0 => omega
  | committed _ _ _ _ hh => rw [h] at hh; exact hh
  | next _ hn =>
    have hw := hi.below
    have := kWritingBit_lt_mark (s.ring.writeSeq + 1)
    simp only [kWritingBit] at *
    omega

theorem nextPass_ok {s : St} {rd : Reader} (h : 1 ≤ rd.cursor) (passes dropped : Nat) :
    ReaderOk g s.ring s.commits (nextPass rd passes dropped) := by
  refine ⟨by simp only [nextPass]; omega, fun stage p d hpc => ?_, fun outcome m hpc => ?_⟩
  · simp only [nextPass] at hpc
    split at hpc
    · cases hpc
    · cases hpc; trivial
  · simp only [nextPass] at hpc
    split at hpc <;> cases hpc

theorem reading_ok {s : St} {rd : Reader} {cursor : Nat} {stage : Stage} {passes dropped : Nat} (h : 1 ≤ cursor)
    (hst : StageOk g s.ring cursor stage) :
    ReaderOk g s.ring s.commits { rd with cursor := cursor, pc := .reading stage passes dropped } :=
  ⟨h, fun _ _ _ hpc => by cases hpc; exact hst, fun _ _ hpc => by cases hpc⟩

theorem readerStep_ok {s : St} (hi : Inv g s) {rd rd' : Reader} {a : Act} (h : ReaderOk g s.ring s.commits rd)
    (hs : readerStep g s.ring rd a = some rd') : ReaderOk g s.ring s.commits rd' := by
  cases a with
  | tryRead r =>
    simp only [readerStep] at hs
    split at hs
    · cases hs
    · cases hs; exact reading_ok h.cursor trivial
  | newest r =>
    simp only [readerStep] at hs
    split at hs
    · split at hs
      · cases hs; exact ⟨h.cursor, fun _ _ _ hpc => (by cases hpc), fun _ _ hpc => by cases hpc⟩
      · cases hs
        have hle : rd.cursor ≤ s.ring.writeSeq := by omega
        have hb := clampCursor_bounds h.cursor hle (effectiveDepth_pos (g := g) rd.depth)
        exact reading_ok (Nat.le_trans h.cursor hb.1) hb.2
    · cases hs
  | seq r =>
    simp only [readerStep] at hs
    split at hs
    · rename_i passes dropped hpc
      have hst := h.stage _ _ _ hpc
      split at hs
      · rename_i hb; cases hs; exact reading_ok h.cursor ⟨hst, hb⟩
      · cases hs; exact nextPass_ok h.cursor _ _
    · cases hs
  | loadSize r =>
    simp only [readerStep] at hs
    split at hs
    · rename_i before passes dropped hpc
      obtain ⟨h1, h2⟩ := h.stage _ _ _ hpc
      cases hs
      exact reading_ok h.cursor ⟨h1, h2, fun _ => rfl⟩
    · cases hs
  | loadStamp r =>
    simp only [readerStep] at hs
    split at hs
    · rename_i before size passes dropped hpc
      obtain ⟨h1, h2, h3⟩ := h.stage _ _ _ hpc
      cases hs
      exact reading_ok h.cursor ⟨h1, h2, Nat.zero_le _, fun hseq => ⟨h3 hseq, rfl, rfl⟩⟩
    · cases hs
  | copy r =>
    simp only [readerStep] at hs
    split at hs
    · rename_i before size timestamp copied passes dropped hpc
      obtain ⟨h1, h2, h3, h4⟩ := h.stage _ _ _ hpc
      split at hs
      · rename_i hlt
        cases hs
        refine reading_ok h.cursor ⟨h1, h2, by simp; omega, fun hseq => ?_⟩
        obtain ⟨h5, h6, h7⟩ := h4 hseq
        refine ⟨h5, h6, ?_⟩
        rw [List.length_append, List.length_singleton, bytesAt_succ, ← h7]
      · cases hs
    · cases hs
  | recheck r =>
    simp only [readerStep] at hs
    split at hs
    · rename_i before size timestamp copied passes dropped hpc
      obtain ⟨h1, h2, h3, h4⟩ := h.stage _ _ _ hpc
      split at hs
      · split at hs
        · cases hs
        · split at hs
          · -- the sequence did not change since it was loaded: one publish's contents were copied
            rename_i hlen hseq
            cases hs
            subst h2
            obtain ⟨h5, h6, h7⟩ := h4 hseq
            obtain ⟨c, hc, e1, e2, e3⟩ := hi.holds h.cursor h1 hseq
            have hl : copied.length = size := by omega
            refine ⟨Nat.le_succ_of_le h.cursor, fun _ _ _ hpc => (by cases hpc), fun outcome m hpc => ?_⟩
            cases hpc
            refine ⟨c, hc, e1, ?_, e3.trans h6⟩
            rw [e2, h5, ← hl]
            exact h7.symm
          · cases hs; exact nextPass_ok h.cursor _ _
      · cases hs; exact nextPass_ok h.cursor _ _
    · cases hs
  | _ => cases hs

theorem inv_setReader {s : St} (hi : Inv g s) {r : Nat} {rd : Reader} (h : ReaderOk g s.ring s.commits rd) :
    Inv g (setReader s r rd) := by
  refine ⟨hi.below, hi.sequences, hi.slots, hi.window, hi.locked, hi.writers, fun q rd' hq => ?_⟩
  by_cases e : q = r
  · subst e
    simp only [setReader, Function.update_self, Option.some.injEq] at hq
    subst hq
    exact h
  · exact hi.readers q rd' (by simpa [setReader, e] using hq)

/-! ## Every reachable state -/

theorem step_inv {s t : St} {a : Act} (hi : Inv g s) (hok : seqBelow s a) (h : Step g s a t) : Inv g t := by
  cases h with
  | refuse => exact hi
  | call w capacity ts _ hcap => exact inv_setWriter hi hcap fun h => by cases h
  | lock w capacity ts hw hcan =>
    refine ⟨hi.below, hi.sequences, hi.slots, hi.window, fun v hv => ?_, fun v => ?_, hi.readers⟩
    · -- the lock was free or its owner dead, so nobody else was inside
      by_cases e : v = w
      · rw [e]
      · have hv' : holdsLock (s.writers v) = true := by simpa [setWriter, e] using hv
        have hl := hi.locked v hv'
        simp only [canLock, hl] at hcan
        cases hpc : s.writers v <;> simp [hpc, holdsLock] at hcan hv'
    · have hwr := hi.writers w
      rw [hw] at hwr
      by_cases e : v = w
      · subst e; simpa [setWriter, WriterOk] using hwr
      · simpa [setWriter, e] using hi.writers v
  | lockFails w => exact inv_setWriter hi trivial fun h => by cases h
  | load w capacity ts hw =>
    have hwr := hi.writers w
    rw [hw] at hwr
    have hu : u64 (s.ring.writeSeq + 1) = s.ring.writeSeq + 1 := by
      simp only [seqBelow] at hok
      exact Nat.mod_eq_of_lt (by omega)
    refine inv_setWriter hi ⟨⟨hu, ?_, hwr⟩, fun i _ => rfl⟩ fun _ => hi.locked w (by rw [hw]; rfl)
    simp only [hu]
    exact hok
  | mark w p hw =>
    have hwr := hi.writers w
    rw [hw] at hwr
    refine inv_setSlot hi (by rw [hw]; rfl) hwr.1 (.inr rfl) ⟨⟨hwr.1.1, hwr.1.2, hwr.1.3⟩, ?_, ?_⟩
    · intro i hic
      simpa [setSlot] using hwr.2 i hic
    · simp [setSlot]
  | store w i v p hw hic =>
    have hwr := hi.writers w
    rw [hw] at hwr
    obtain ⟨hp, hfill, hseq⟩ := hwr
    refine inv_setSlot hi (by rw [hw]; rfl) hp (.inr hseq) ⟨⟨hp.1, hp.2, hp.3⟩, ?_, ?_⟩
    · intro j hj
      simp only [setSlot, Ring.setSlot_self]
      by_cases e : j = i
      · subst e; simp
      · simpa [e] using hfill j hj
    · simpa [setSlot] using hseq
  | fillOk w r p used hw hused =>
    have hwr := hi.writers w
    rw [hw] at hwr
    exact inv_setWriter hi ⟨⟨hwr.1.1, hwr.1.2, hwr.1.3⟩, hwr.2.1, hwr.2.2, invokeFill_le hused⟩
      fun _ => hi.locked w (by rw [hw]; rfl)
  | fillFails w r p hw => exact inv_setWriter hi trivial fun _ => hi.locked w (by rw [hw]; rfl)
  | size w p hw =>
    have hwr := hi.writers w
    rw [hw] at hwr
    obtain ⟨hp, hfill, hseq, hused⟩ := hwr
    refine inv_setSlot hi (by rw [hw]; rfl) hp (.inr hseq) ⟨⟨hp.1, hp.2, hp.3⟩, ?_, ?_, hused, ?_⟩
    · intro i hic; simpa [setSlot] using hfill i hic
    · simpa [setSlot] using hseq
    · simp [setSlot]
  | stamp w p hw =>
    have hwr := hi.writers w
    rw [hw] at hwr
    obtain ⟨hp, hfill, hseq, hused, hsize⟩ := hwr
    refine inv_setSlot hi (by rw [hw]; rfl) hp (.inr hseq) ⟨⟨hp.1, hp.2, hp.3⟩, ?_, ?_, hused, ?_, ?_⟩
    · intro i hic; simpa [setSlot] using hfill i hic
    · simpa [setSlot] using hseq
    · simpa [setSlot] using hsize
    · simp [setSlot]
  | storeSeq w p hw =>
    have hwr := hi.writers w
    rw [hw] at hwr
    obtain ⟨hp, hfill, hseq, hused, hsize, hts⟩ := hwr
    refine inv_setSlot hi (by rw [hw]; rfl) hp (.inl rfl) ⟨⟨hp.1, hp.2, hp.3⟩, ?_, ?_, hused, ?_, ?_⟩
    · intro i hic; simpa [setSlot] using hfill i hic
    · simp [setSlot]
    · simpa [setSlot] using hsize
    · simpa [setSlot] using hts
  | commit w p hw => exact inv_commit hi hw
  | unlock w hw =>
    refine ⟨hi.below, hi.sequences, hi.slots, hi.window, fun v hv => ?_, fun v => ?_, hi.readers⟩
    · by_cases e : v = w
      · subst e; simp [setWriter, holdsLock] at hv
      · have hv' : holdsLock (s.writers v) = true := by simpa [setWriter, e] using hv
        have h1 := hi.locked v hv'
        rw [hi.locked w (by rw [hw]; rfl)] at h1
        exact absurd (Option.some.inj h1).symm e
    · by_cases e : v = w
      · subst e; simp [setWriter, WriterOk]
      · simpa [setWriter, e] using hi.writers v
  | die w => exact inv_setWriter hi trivial fun h => by cases h
  | attach r cursor depth _ hc =>
    exact inv_setReader hi ⟨hc, fun _ _ _ hpc => (by cases hpc), fun _ _ hpc => by cases hpc⟩
  | reader a r rd rd' hr hs => exact inv_setReader hi (readerStep_ok hi (hi.readers r rd hr) hs)

theorem inv {s : St} (h : Reach (step g) seqBelow (· = init) s) : Inv g s :=
  h.invariant (fun _ hs => hs ▸ init_inv) fun _ _ _ hi hok hst => step_inv hi hok (step_cases hst)

/-- A sequence is committed once. -/
theorem Inv.commit_unique {s : St} (hi : Inv g s) {c d : Commit} (hc : c ∈ s.commits) (hd : d ∈ s.commits)
    (h : c.sequence = d.sequence) : c = d :=
  List.inj_on_of_nodup_map (by rw [hi.sequences]; exact List.nodup_range') hc hd h

/-- Whatever a TryRead returned is, payload, size and timestamp, what the one publish
    that stored its sequence into `write_seq` had put into its buffer. -/
theorem tryRead_returns_one_publish {s : St} (h : Reach (step g) seqBelow (· = init) s) {r : Nat} {rd : Reader}
    {outcome : ReadOutcome} {m : Message} (hr : s.readers r = some rd) (hm : rd.pc = .returned outcome (some m)) :
    ∃ c ∈ s.commits, c.sequence = m.metadata.sequence ∧ c.payload = m.payload ∧
      c.sourceTimestamp = m.metadata.sourceTimestamp ∧ ∀ d ∈ s.commits, d.sequence = m.metadata.sequence → d = c := by
  have hi := inv h
  obtain ⟨c, hc, hsequence, hpayload, hstamp⟩ := (hi.readers r rd hr).returned outcome m hm
  exact ⟨c, hc, hsequence, hpayload, hstamp, fun d hd hsame => hi.commit_unique hd hc (hsame.trans hsequence.symm)⟩

/-- Two slots of four bytes. -/
def smallGeometry : Geometry := ⟨⟨4, 2⟩, by decide⟩

/-- Writer 0 publishes the byte 7 at time 5 and dies on its next publish, after storing
    the slot's sequence; reader 0 reads what was committed. -/
def publishReadCrash : List Act :=
  [.attach 0 1 2, .call 0 1 5, .lock 0, .load 0, .mark 0, .store 0 0 7, .fillReturn 0 (.returned (.ok 1)), .size 0,
    .stamp 0, .storeSeq 0, .commit 0, .unlock 0, .call 0 1 6, .lock 0, .load 0, .mark 0, .store 0 0 9,
    .fillReturn 0 (.returned (.ok 1)), .size 0, .stamp 0, .storeSeq 0, .die 0, .tryRead 0, .newest 0, .seq 0,
    .loadSize 0, .loadStamp 0, .copy 0, .recheck 0]

def returnedSeven (s : St) : Bool :=
  match s.readers 0 with
  | some ⟨_, _, .returned _ (some m)⟩ => m == ⟨[7], { sequence := 1, sourceTimestamp := 5 }⟩
  | _ => false

theorem tryRead_returns_the_committed_seven :
    ∃ (s : St) (m : Message), Reach (step smallGeometry) seqBelow (· = init) s ∧ m.payload = [7] ∧
      ∃ c ∈ s.commits, c.sequence = m.metadata.sequence ∧ c.payload = m.payload ∧
        c.sourceTimestamp = m.metadata.sourceTimestamp ∧ ∀ d ∈ s.commits, d.sequence = m.metadata.sequence → d = c := by
  obtain ⟨s, hs, hp⟩ : ∃ s, Reach (step smallGeometry) seqBelow (· = init) s ∧ returnedSeven s = true :=
    reach_of_check (fun s _ => decide (s.ring.writeSeq + 1 < 2 ^ 63)) publishReadCrash returnedSeven
      (fun s a h => by cases a <;> simp_all [seqBelow]) rfl (by decide)
  simp only [returnedSeven] at hp
  split at hp
  · rename_i cursor depth outcome m hr
    have hm : m = ⟨[7], { sequence := 1, sourceTimestamp := 5 }⟩ := by simpa using hp
    exact ⟨s, m, hs, by rw [hm], tryRead_returns_one_publish hs hr rfl⟩
  · cases hp

end PuppetMaster.Shm.Seqlock
