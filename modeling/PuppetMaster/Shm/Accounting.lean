/-
  PuppetMaster.Shm.Accounting — what one reader's successive TryRead calls account for.

  `Observed` is the machine of `PuppetMaster.Shm.Seqlock` with a `Ledger` beside it that
  only watches: the publish attempts (the marks), and for one reader the calls that
  returned, the sequences it delivered, and the sequences its drop counter counted, each
  with `write_seq` and the attempts at that time. A move that raises the counter by `n`
  counts the `n` sequences from the cursor on.

  - `Taken`: the slot of a committed sequence shows it until a later sequence's attempt
    takes the slot (`step_taken`).
  - `readerStep_entry`: what one move of a reader can do to its cursor and counter.
  - `LedgerOk`: delivered and dropped sequences are together those from the initial cursor
    up to the cursor, and every drop has its reason; `observe_ok` is one move.
-/

import Mathlib.Algebra.GroupWithZero.Nat
import Mathlib.Data.List.Perm.Basic
import Mathlib.Data.List.Range
import PuppetMaster.Shm.SeqlockProofs

namespace PuppetMaster.Shm.Seqlock

open PuppetMaster.Core PuppetMaster.Lib PuppetMaster.Shm

/-! ## The ledger -/

/-- A sequence counted as dropped, with what was known then. -/
structure Drop where
  sequence : Nat
  writeSeq : Nat
  attempts : List Nat
  deriving DecidableEq, Repr

/-- A call of TryRead that returned: the cursor it got and the one it left. -/
structure Call where
  before : Nat
  after : Nat
  outcome : ReadOutcome
  deriving DecidableEq, Repr

structure Ledger where
  initial : Nat := 0
  /-- The cursor at the start of the call that runs. -/
  before : Nat := 0
  calls : List Call := []
  delivered : List Nat := []
  drops : List Drop := []
  attempts : List Nat := []
  deriving DecidableEq, Repr

/-- `outcome.dropped` of the call that runs, or of the last one. -/
def Reader.dropped (rd : Reader) : Nat :=
  match rd.pc with
  | .idle => 0
  | .reading _ _ dropped => dropped
  | .returned outcome _ => outcome.dropped

/-- The sequences a move counted as dropped. -/
def countedDrops (ledger : Ledger) (writeSeq : Nat) (rd rd' : Reader) : List Drop :=
  (List.range' rd.cursor (rd'.dropped - rd.dropped)).map fun sequence => ⟨sequence, writeSeq, ledger.attempts⟩

def Ledger.noteReader (ledger : Ledger) (writeSeq : Nat) (rd rd' : Reader) : Ledger :=
  match rd.pc, rd'.pc with
  | .reading _ _ _, .returned outcome message =>
    { ledger with
      calls := ledger.calls ++ [⟨ledger.before, rd'.cursor, outcome⟩]
      delivered := ledger.delivered ++ (message.map fun m => m.metadata.sequence).toList
      drops := ledger.drops ++ countedDrops ledger writeSeq rd rd' }
  | .reading _ _ _, _ => { ledger with drops := ledger.drops ++ countedDrops ledger writeSeq rd rd' }
  | _, .reading _ _ _ => { ledger with before := rd.cursor }
  | _, _ => ledger

/-- The attempt an action begins: the mark of a slot. -/
def attempt (s : St) : Act → List Nat
  | .mark w =>
    match s.writers w with
    | .marking p => [p.sequence]
    | _ => []
  | _ => []

def Ledger.note (ledger : Ledger) (r : Nat) (s : St) (a : Act) (t : St) : Ledger :=
  let noted := match s.readers r, t.readers r with
    | none, some rd' => { ledger with initial := rd'.cursor }
    | some rd, some rd' => ledger.noteReader s.ring.writeSeq rd rd'
    | _, none => ledger
  { noted with attempts := ledger.attempts ++ attempt s a }

structure Observed where
  st : St
  ledger : Ledger

variable (g : Geometry)

/-- The machine, watched at reader `r`. -/
def observe (r : Nat) (o : Observed) (a : Act) : Option Observed :=
  (step g o.st a).map fun t => ⟨t, o.ledger.note r o.st a t⟩

def observedInit : Observed := ⟨init, {}⟩

def observedBelow (o : Observed) (a : Act) : Prop := seqBelow o.st a

/-- Why a sequence is lost: `depth` messages behind, or its slot went to a later one. -/
def Drop.Justified (depth : Nat) (d : Drop) : Prop :=
  d.sequence + effectiveDepth g depth ≤ d.writeSeq
    ∨ ∃ later ∈ d.attempts, d.sequence < later ∧ slotAt g later = slotAt g d.sequence

variable {g} {r : Nat}

theorem observe_some {o o' : Observed} {a : Act} (h : observe g r o a = some o') :
    step g o.st a = some o'.st ∧ o'.ledger = o.ledger.note r o.st a o'.st := by
  obtain ⟨t, ht, rfl⟩ := Option.map_eq_some_iff.mp h
  exact ⟨ht, rfl⟩

theorem observed_inv {o : Observed} (h : Reach (observe g r) observedBelow (· = observedInit) o) : Inv g o.st := by
  refine h.invariant (I := fun o => Inv g o.st) ?_ ?_
  · rintro o rfl
    exact init_inv
  · intro o a o' hi hok hs
    exact step_inv hi hok (step_cases (observe_some hs).1)

/-! ## Slots and attempts -/

/-- A committed sequence is in its slot until a later attempt takes the slot. -/
def Taken (g : Geometry) (ring : Ring) (attempts : List Nat) : Prop :=
  ∀ k, 1 ≤ k → k ≤ ring.writeSeq → (ring.slots (slotAt g k)).seq = k
    ∨ ∃ later ∈ attempts, k < later ∧ slotAt g later = slotAt g k

theorem Taken.mono {ring ring' : Ring} {attempts attempts' : List Nat} (h : Taken g ring attempts)
    (hw : ring'.writeSeq = ring.writeSeq) (hs : ∀ i, (ring'.slots i).seq = (ring.slots i).seq)
    (ha : ∀ q ∈ attempts, q ∈ attempts') : Taken g ring' attempts' := by
  intro k h1 h2
  rw [hw] at h2
  rcases h k h1 h2 with h | ⟨later, hm, hl⟩
  · exact .inl ((hs _).trans h)
  · exact .inr ⟨later, ha later hm, hl⟩

theorem setSlot_seq_of_ne {s : St} {sequence k : Nat} (f : Slot → Slot) (h : slotAt g k ≠ slotAt g sequence) :
    ((setSlot g s sequence f).ring.slots (slotAt g k)).seq = (s.ring.slots (slotAt g k)).seq := by
  rw [setSlot, Ring.setSlot_ne _ _ h]

/-- A store into a slot that leaves its sequence word alone. -/
theorem Taken.keep {s : St} {attempts : List Nat} (h : Taken g s.ring attempts) (sequence : Nat) {f : Slot → Slot}
    (hf : ∀ slot, (f slot).seq = slot.seq) : Taken g (setSlot g s sequence f).ring attempts := by
  refine h.mono rfl ?_ (fun q hq => hq)
  intro i
  by_cases e : i = slotAt g sequence
  · subst e
    simp [setSlot, hf]
  · rw [setSlot, Ring.setSlot_ne _ _ e]

/-- A store into a slot that later attempts have taken from every committed sequence. -/
theorem Taken.take {s : St} {attempts : List Nat} (h : Taken g s.ring attempts) (sequence : Nat) (f : Slot → Slot)
    (htaken : ∀ k, 1 ≤ k → k ≤ s.ring.writeSeq → slotAt g k = slotAt g sequence →
      ∃ later ∈ attempts, k < later ∧ slotAt g later = slotAt g k) :
    Taken g (setSlot g s sequence f).ring attempts := by
  intro k h1 h2
  by_cases e : slotAt g k = slotAt g sequence
  · exact .inr (htaken k h1 h2 e)
  · rcases h k h1 h2 with hk | hlater
    · exact .inl ((setSlot_seq_of_ne f e).trans hk)
    · exact .inr hlater

theorem step_taken {s t : St} {a : Act} {attempts : List Nat} (hi : Inv g s) (h : Taken g s.ring attempts)
    (hs : Step g s a t) : Taken g t.ring (attempts ++ attempt s a) := by
  have hmore : Taken g s.ring (attempts ++ attempt s a) :=
    h.mono rfl (fun _ => rfl) fun q hq => List.mem_append_left _ hq
  cases hs with
  | mark w p hw =>
    have hp : WriterOk g s.ring (.marking p) := hw ▸ hi.writers w
    have hattempt : p.sequence ∈ attempts ++ attempt s (.mark w) := by simp [attempt, hw]
    refine hmore.take p.sequence (fun slot => { slot with seq := _ }) fun k h1 h2 e =>
      ⟨p.sequence, hattempt, ?_, e.symm⟩
    rw [hp.1.sequence]
    exact Nat.lt_succ_of_le h2
  | storeSeq w p hw =>
    have hp : WriterOk g s.ring (.sealing p) := hw ▸ hi.writers w
    refine hmore.take p.sequence (fun slot => { slot with seq := _ }) fun k h1 h2 e => ?_
    rcases hmore k h1 h2 with hk | hlater
    · -- the slot is marked, so it does not show `k` any more
      have hmark := hp.2.2.1
      rw [← e, hk] at hmark
      have hbit := kWritingBit_lt_mark p.sequence
      have hbelow := hi.below
      simp only [kWritingBit] at hmark hbit
      omega
    · exact hlater
  | commit w p hw =>
    have hp : WriterOk g s.ring (.committing p) := hw ▸ hi.writers w
    intro k h1 h2
    by_cases e : k = p.sequence
    · subst e
      exact .inl hp.2.2.1
    · have hle : k ≤ s.ring.writeSeq := by
        have hsq := hp.1.sequence
        have h2 : k ≤ p.sequence := h2
        omega
      rcases hmore k h1 hle with hk | hlater
      · exact .inl hk
      · exact .inr hlater
  | store w i v p hw hic => exact hmore.keep p.sequence (f := fun slot => { slot with payload := _ }) fun _ => rfl
  | size w p hw => exact hmore.keep p.sequence (f := fun slot => { slot with payloadSize := _ }) fun _ => rfl
  | stamp w p hw => exact hmore.keep p.sequence (f := fun slot => { slot with sourceTimestampNs := _ }) fun _ => rfl
  | refuse w capacity ts => exact hmore
  | call w capacity ts _ _ => exact hmore
  | lock w capacity ts _ _ => exact hmore
  | lockFails w capacity ts _ => exact hmore
  | load w capacity ts _ => exact hmore
  | fillOk w q p used _ _ => exact hmore
  | fillFails w q p _ => exact hmore
  | unlock w _ => exact hmore
  | die w => exact hmore
  | attach q cursor depth _ _ => exact hmore
  | reader a q rd rd' _ _ => exact hmore

/-! ## One move of a reader -/

/-- What a move does to a reader's cursor and counter. -/
inductive Accounted (g : Geometry) (writeSeq : Nat) (attempts : List Nat) (rd rd' : Reader) : Prop
  | begins {passes : Nat} : (∀ stage passes dropped, rd.pc ≠ .reading stage passes dropped) →
      rd'.pc = .reading .newest passes 0 → rd'.cursor = rd.cursor → Accounted g writeSeq attempts rd rd'
  | counts {stage : Stage} {passes dropped : Nat} (n : Nat) : rd.pc = .reading stage passes dropped →
      rd'.cursor = rd.cursor + n →
      (∀ q, rd.cursor ≤ q → q < rd.cursor + n → Drop.Justified g rd.depth ⟨q, writeSeq, attempts⟩) →
      ((∃ stage' passes', rd'.pc = .reading stage' passes' (dropped + n)) ∨
        rd'.pc = .returned ⟨false, dropped + n⟩ none) → Accounted g writeSeq attempts rd rd'
  | delivers {stage : Stage} {passes dropped : Nat} (m : Message) : rd.pc = .reading stage passes dropped →
      rd'.cursor = rd.cursor + 1 → m.metadata.sequence = rd.cursor →
      rd'.pc = .returned ⟨true, dropped⟩ (some m) → Accounted g writeSeq attempts rd rd'

/-- A load that leaves cursor and counter alone. -/
theorem Accounted.stays {writeSeq : Nat} {attempts : List Nat} {rd : Reader} {stage stage' : Stage}
    {passes passes' dropped : Nat} (hpc : rd.pc = .reading stage passes dropped) :
    Accounted g writeSeq attempts rd { rd with pc := .reading stage' passes' dropped } := by
  refine .counts 0 hpc rfl ?_ (.inl ⟨stage', passes', rfl⟩)
  intro q h1 h2
  omega

/-- A pass that gives up on the cursor's sequence. -/
theorem Accounted.nextPass {writeSeq : Nat} {attempts : List Nat} {rd : Reader} {stage : Stage} {passes dropped : Nat}
    (hpc : rd.pc = .reading stage passes dropped)
    (hlost : Drop.Justified g rd.depth ⟨rd.cursor, writeSeq, attempts⟩) :
    Accounted g writeSeq attempts rd (nextPass rd passes dropped) := by
  refine .counts 1 hpc rfl ?_ ?_
  · intro q h1 h2
    have : q = rd.cursor := by omega
    subst this
    exact hlost
  · unfold Seqlock.nextPass
    split
    · exact .inr rfl
    · exact .inl ⟨_, _, rfl⟩

/-- Once the slot no longer shows the cursor, a later attempt has taken it. -/
theorem Taken.lost {ring : Ring} {attempts : List Nat} (h : Taken g ring attempts) {cursor depth : Nat}
    (h1 : 1 ≤ cursor) (h2 : cursor ≤ ring.writeSeq) (hne : (ring.slots (slotAt g cursor)).seq ≠ cursor) :
    Drop.Justified g depth ⟨cursor, ring.writeSeq, attempts⟩ := by
  rcases h cursor h1 h2 with hk | hlater
  · exact absurd hk hne
  · exact .inr hlater

/-- The sequences that the clamp skips are `depth` behind the newest one. -/
theorem clamp_justified {ring : Ring} {attempts : List Nat} {cursor depth q : Nat} (h1 : cursor ≤ q)
    (hpos : 1 ≤ cursor) (h2 : q < clampCursor cursor ring.writeSeq (effectiveDepth g depth)) :
    Drop.Justified g depth ⟨q, ring.writeSeq, attempts⟩ := by
  refine .inl ?_
  show q + effectiveDepth g depth ≤ ring.writeSeq
  unfold clampCursor at h2
  split at h2
  · omega
  · omega

/-- A slot that shows a committed sequence has a size that fits. -/
theorem Inv.size_fits {s : St} (hi : Inv g s) {c : Nat} (h1 : 1 ≤ c) (h2 : c ≤ s.ring.writeSeq)
    (h : (s.ring.slots (slotAt g c)).seq = c) : (s.ring.slots (slotAt g c)).payloadSize ≤ g.slotPayloadSize := by
  cases hi.slots (slotAt g c) with
  | unused h0 => omega
  | committed _ _ _ hfits _ => exact hfits
  | next _ hn =>
    have hw := hi.below
    have := kWritingBit_lt_mark (s.ring.writeSeq + 1)
    simp only [kWritingBit] at *
    omega

theorem readerStep_entry {s : St} {attempts : List Nat} {rd rd' : Reader} {a : Act} (hi : Inv g s)
    (ht : Taken g s.ring attempts) (h : ReaderOk g s.ring s.commits rd) (hs : readerStep g s.ring rd a = some rd') :
    rd'.depth = rd.depth ∧ Accounted g s.ring.writeSeq attempts rd rd' := by
  cases a with
  | tryRead q =>
    simp only [readerStep] at hs
    split at hs
    · cases hs
    · rename_i hidle
      cases hs
      exact ⟨rfl, .begins hidle rfl rfl⟩
  | newest q =>
    simp only [readerStep] at hs
    split at hs
    · rename_i passes dropped hpc
      split at hs
      · cases hs
        refine ⟨rfl, .counts 0 hpc rfl ?_ (.inr rfl)⟩
        intro k h1 h2
        omega
      · rename_i hle
        cases hs
        have hbounds := clampCursor_bounds h.cursor (Nat.le_of_not_lt hle) (effectiveDepth_pos (g := g) rd.depth)
        have hsum : rd.cursor + (clampCursor rd.cursor s.ring.writeSeq (effectiveDepth g rd.depth) - rd.cursor)
            = clampCursor rd.cursor s.ring.writeSeq (effectiveDepth g rd.depth) := Nat.add_sub_cancel' hbounds.1
        refine ⟨rfl, .counts _ hpc hsum.symm ?_ (.inl ⟨_, _, rfl⟩)⟩
        intro k h1 h2
        rw [hsum] at h2
        exact clamp_justified h1 h.cursor h2
    · cases hs
  | seq q =>
    simp only [readerStep] at hs
    split at hs
    · rename_i passes dropped hpc
      have hcur : rd.cursor ≤ s.ring.writeSeq := h.stage _ _ _ hpc
      split at hs
      · cases hs
        exact ⟨rfl, .stays hpc⟩
      · rename_i hne
        cases hs
        exact ⟨rfl, .nextPass hpc (ht.lost h.cursor hcur hne)⟩
    · cases hs
  | loadSize q =>
    simp only [readerStep] at hs
    split at hs
    · rename_i hpc
      cases hs
      exact ⟨rfl, .stays hpc⟩
    · cases hs
  | loadStamp q =>
    simp only [readerStep] at hs
    split at hs
    · rename_i hpc
      cases hs
      exact ⟨rfl, .stays hpc⟩
    · cases hs
  | copy q =>
    simp only [readerStep] at hs
    split at hs
    · rename_i hpc
      split at hs
      · cases hs
        exact ⟨rfl, .stays hpc⟩
      · cases hs
    · cases hs
  | recheck q =>
    simp only [readerStep] at hs
    split at hs
    · rename_i before size timestamp copied passes dropped hpc
      obtain ⟨hcur, hbefore, -, hsame⟩ := h.stage _ _ _ hpc
      split at hs
      · split at hs
        · cases hs
        · split at hs
          · cases hs
            exact ⟨rfl, .delivers _ hpc rfl rfl rfl⟩
          · rename_i hne
            cases hs
            rw [hbefore] at hne
            exact ⟨rfl, .nextPass hpc (ht.lost h.cursor hcur hne)⟩
      · -- a size that does not fit was not read from the committed message
        rename_i hbig
        cases hs
        refine ⟨rfl, .nextPass hpc (ht.lost h.cursor hcur fun hseq => hbig ?_)⟩
        rw [← (hsame hseq).1]
        exact hi.size_fits h.cursor hcur hseq
    · cases hs
  | _ => cases hs

/-! ## The account -/

/-- What the call that runs has counted so far. -/
def Reader.running (rd : Reader) : Nat :=
  match rd.pc with
  | .reading _ _ dropped => dropped
  | _ => 0

structure LedgerOk (g : Geometry) (rd : Reader) (l : Ledger) : Prop where
  initial : l.initial ≤ rd.cursor
  account : (l.delivered ++ l.drops.map Drop.sequence).Perm (List.range' l.initial (rd.cursor - l.initial))
  increasing : l.delivered.Pairwise (· < ·)
  calls : ∀ c ∈ l.calls, c.after = c.before + c.outcome.dropped + c.outcome.hasMessage.toNat
  current : ∀ stage passes dropped, rd.pc = .reading stage passes dropped → rd.cursor = l.before + dropped
  counted : (l.calls.map fun c => c.outcome.dropped).sum + rd.running = l.drops.length
  justified : ∀ d ∈ l.drops, d.Justified g rd.depth

theorem range'_extend {a c : Nat} (n : Nat) (h : a ≤ c) :
    List.range' a (c + n - a) = List.range' a (c - a) ++ List.range' c n := by
  have hlen : c + n - a = (c - a) + n := by omega
  have hstart : a + 1 * (c - a) = c := by omega
  rw [hlen, ← List.range'_append, hstart]

theorem LedgerOk.delivered_lt {rd : Reader} {l : Ledger} (h : LedgerOk g rd l) {q : Nat} (hq : q ∈ l.delivered) :
    q < rd.cursor := by
  have hin := h.account.mem_iff.mp (List.mem_append_left _ hq)
  have := h.initial
  rw [List.mem_range'_1] at hin
  omega

theorem map_countedDrops (l : Ledger) (writeSeq : Nat) {rd rd' : Reader} {n : Nat} (hn : rd'.dropped = rd.dropped + n) :
    (countedDrops l writeSeq rd rd').map Drop.sequence = List.range' rd.cursor n := by
  have hsub : rd'.dropped - rd.dropped = n := by omega
  simp only [countedDrops, hsub, List.map_map]
  exact List.map_id _

/-- The counted sequences join the account. -/
theorem LedgerOk.count {rd rd' : Reader} {l : Ledger} (h : LedgerOk g rd l) (writeSeq : Nat) {n : Nat}
    (hcursor : rd'.cursor = rd.cursor + n) (hn : rd'.dropped = rd.dropped + n) :
    (l.delivered ++ (l.drops ++ countedDrops l writeSeq rd rd').map Drop.sequence).Perm
      (List.range' l.initial (rd'.cursor - l.initial)) := by
  rw [hcursor, range'_extend n h.initial, List.map_append, map_countedDrops l writeSeq hn, ← List.append_assoc]
  exact h.account.append_right _

theorem countedDrops_justified {rd rd' : Reader} {l : Ledger} {writeSeq n : Nat} (hn : rd'.dropped = rd.dropped + n)
    (hlost : ∀ q, rd.cursor ≤ q → q < rd.cursor + n → Drop.Justified g rd.depth ⟨q, writeSeq, l.attempts⟩) :
    ∀ d ∈ countedDrops l writeSeq rd rd', d.Justified g rd.depth := by
  intro d hd
  obtain ⟨q, hq, rfl⟩ := List.mem_map.mp hd
  rw [List.mem_range'_1] at hq
  exact hlost q hq.1 (by omega)

theorem note_begins {rd rd' : Reader} {l : Ledger} {writeSeq passes : Nat} (h : LedgerOk g rd l)
    (hdepth : rd'.depth = rd.depth) (hidle : ∀ stage passes dropped, rd.pc ≠ .reading stage passes dropped)
    (hpc : rd'.pc = .reading .newest passes 0) (hcursor : rd'.cursor = rd.cursor) :
    LedgerOk g rd' (l.noteReader writeSeq rd rd') := by
  have hnote : l.noteReader writeSeq rd rd' = { l with before := rd.cursor } ∧ rd.running = 0 := by
    cases hold : rd.pc with
    | idle => simp [Ledger.noteReader, Reader.running, hold, hpc]
    | reading stage passes dropped => exact absurd hold (hidle _ _ _)
    | returned outcome message => simp [Ledger.noteReader, Reader.running, hold, hpc]
  have hrunning : rd'.running = 0 := by simp [Reader.running, hpc]
  rw [hnote.1]
  refine ⟨by rw [hcursor]; exact h.initial, by rw [hcursor]; exact h.account, h.increasing, h.calls, ?_, ?_,
    by rw [hdepth]; exact h.justified⟩
  · intro stage passes dropped hreading
    rw [hpc] at hreading
    cases hreading
    exact hcursor
  · show (l.calls.map fun c => c.outcome.dropped).sum + rd'.running = l.drops.length
    rw [hrunning, ← hnote.2]
    exact h.counted

theorem note_counts {rd rd' : Reader} {l : Ledger} {writeSeq : Nat} {stage : Stage} {passes dropped n : Nat}
    (h : LedgerOk g rd l) (hdepth : rd'.depth = rd.depth) (hpc : rd.pc = .reading stage passes dropped)
    (hcursor : rd'.cursor = rd.cursor + n)
    (hlost : ∀ q, rd.cursor ≤ q → q < rd.cursor + n → Drop.Justified g rd.depth ⟨q, writeSeq, l.attempts⟩)
    (hafter : (∃ stage' passes', rd'.pc = .reading stage' passes' (dropped + n)) ∨
      rd'.pc = .returned ⟨false, dropped + n⟩ none) : LedgerOk g rd' (l.noteReader writeSeq rd rd') := by
  have hn : rd'.dropped = rd.dropped + n := by
    rcases hafter with ⟨stage', passes', hpc'⟩ | hpc'
    · simp [Reader.dropped, hpc', hpc]
    · simp [Reader.dropped, hpc', hpc]
  have hcur := h.current _ _ _ hpc
  have hcounted := h.counted
  have hold : rd.running = dropped := by simp [Reader.running, hpc]
  have hinitial : l.initial ≤ rd'.cursor := by
    have := h.initial
    omega
  have hlength : (countedDrops l writeSeq rd rd').length = n := by
    have := congrArg List.length (map_countedDrops l writeSeq hn)
    simpa using this
  have hjustified : ∀ d ∈ l.drops ++ countedDrops l writeSeq rd rd', d.Justified g rd'.depth := by
    intro d hd
    rw [hdepth]
    rcases List.mem_append.mp hd with hd | hd
    · exact h.justified d hd
    · exact countedDrops_justified hn hlost d hd
  rcases hafter with ⟨stage', passes', hpc'⟩ | hpc'
  · have hnote : l.noteReader writeSeq rd rd' = { l with drops := l.drops ++ countedDrops l writeSeq rd rd' } := by
      simp only [Ledger.noteReader, hpc, hpc']
    have hnew : rd'.running = dropped + n := by simp [Reader.running, hpc']
    rw [hnote]
    refine ⟨hinitial, h.count writeSeq hcursor hn, h.increasing, h.calls, ?_, ?_, hjustified⟩
    · intro stage passes d hreading
      rw [hpc'] at hreading
      cases hreading
      show rd'.cursor = l.before + (dropped + n)
      omega
    · simp only [List.length_append, hlength, hnew]
      omega
  · have hnote : l.noteReader writeSeq rd rd' = { l with
        calls := l.calls ++ [⟨l.before, rd'.cursor, ⟨false, dropped + n⟩⟩]
        drops := l.drops ++ countedDrops l writeSeq rd rd' } := by
      simp [Ledger.noteReader, hpc, hpc']
    have hnew : rd'.running = 0 := by simp [Reader.running, hpc']
    rw [hnote]
    refine ⟨hinitial, h.count writeSeq hcursor hn, h.increasing, ?_, ?_, ?_, hjustified⟩
    · intro c hc
      rcases List.mem_append.mp hc with hc | hc
      · exact h.calls c hc
      · rw [List.mem_singleton.mp hc]
        show rd'.cursor = l.before + (dropped + n) + 0
        omega
    · intro stage passes d hreading
      rw [hpc'] at hreading
      cases hreading
    · simp only [List.map_append, List.sum_append, List.map_cons, List.map_nil, List.sum_cons, List.sum_nil,
        List.length_append, hlength, hnew]
      omega

theorem note_delivers {rd rd' : Reader} {l : Ledger} {writeSeq : Nat} {stage : Stage} {passes dropped : Nat}
    {m : Message} (h : LedgerOk g rd l) (hdepth : rd'.depth = rd.depth) (hpc : rd.pc = .reading stage passes dropped)
    (hcursor : rd'.cursor = rd.cursor + 1) (hseq : m.metadata.sequence = rd.cursor)
    (hpc' : rd'.pc = .returned ⟨true, dropped⟩ (some m)) : LedgerOk g rd' (l.noteReader writeSeq rd rd') := by
  have hcur := h.current _ _ _ hpc
  have hcounted := h.counted
  have hold : rd.running = dropped := by simp [Reader.running, hpc]
  have hnew : rd'.running = 0 := by simp [Reader.running, hpc']
  have hnone : countedDrops l writeSeq rd rd' = [] := by
    have hn : rd'.dropped = rd.dropped + 0 := by simp [Reader.dropped, hpc', hpc]
    have := map_countedDrops l writeSeq hn
    simpa using this
  have hnote : l.noteReader writeSeq rd rd' = { l with
      calls := l.calls ++ [⟨l.before, rd'.cursor, ⟨true, dropped⟩⟩]
      delivered := l.delivered ++ [rd.cursor] } := by
    simp [Ledger.noteReader, hpc, hpc', hseq, hnone]
  rw [hnote]
  refine ⟨?_, ?_, ?_, ?_, ?_, ?_, by rw [hdepth]; exact h.justified⟩
  · have := h.initial
    show l.initial ≤ rd'.cursor
    omega
  · show (l.delivered ++ [rd.cursor] ++ l.drops.map Drop.sequence).Perm _
    rw [hcursor, range'_extend 1 h.initial, List.append_assoc]
    refine (List.Perm.append_left _ List.perm_append_comm).trans ?_
    rw [← List.append_assoc]
    exact h.account.append_right _
  · refine List.pairwise_append.mpr ⟨h.increasing, List.pairwise_singleton _ _, ?_⟩
    intro q hq p hp
    rw [List.mem_singleton.mp hp]
    exact h.delivered_lt hq
  · intro c hc
    rcases List.mem_append.mp hc with hc | hc
    · exact h.calls c hc
    · rw [List.mem_singleton.mp hc]
      show rd'.cursor = l.before + dropped + 1
      omega
  · intro stage passes d hreading
    rw [hpc'] at hreading
    cases hreading
  · simp only [List.map_append, List.sum_append, List.map_cons, List.map_nil, List.sum_cons, List.sum_nil, hnew]
    omega

theorem noteReader_ok {rd rd' : Reader} {l : Ledger} {writeSeq : Nat} (h : LedgerOk g rd l)
    (hdepth : rd'.depth = rd.depth) (ha : Accounted g writeSeq l.attempts rd rd') :
    LedgerOk g rd' (l.noteReader writeSeq rd rd') := by
  cases ha with
  | begins hidle hpc hcursor => exact note_begins h hdepth hidle hpc hcursor
  | counts n hpc hcursor hlost hafter => exact note_counts h hdepth hpc hcursor hlost hafter
  | delivers m hpc hcursor hseq hpc' => exact note_delivers h hdepth hpc hcursor hseq hpc'

/-! ## Every run -/

/-- The ledger of a reader that is not attached yet has no entries. -/
structure ObservedOk (g : Geometry) (r : Nat) (o : Observed) : Prop where
  taken : Taken g o.st.ring o.ledger.attempts
  fresh : o.st.readers r = none → o.ledger.calls = [] ∧ o.ledger.delivered = [] ∧ o.ledger.drops = []
  account : ∀ rd, o.st.readers r = some rd → LedgerOk g rd o.ledger

theorem LedgerOk.attempts {rd : Reader} {l : Ledger} (h : LedgerOk g rd l) (attempts : List Nat) :
    LedgerOk g rd { l with attempts := attempts } := ⟨h.1, h.2, h.3, h.4, h.5, h.6, h.7⟩

theorem noteReader_self (l : Ledger) (writeSeq : Nat) (rd : Reader) : l.noteReader writeSeq rd rd = l := by
  cases hpc : rd.pc with
  | idle => simp [Ledger.noteReader, hpc]
  | reading stage passes dropped => simp [Ledger.noteReader, hpc, countedDrops]
  | returned outcome message => simp [Ledger.noteReader, hpc]

theorem attach_ledgerOk {cursor depth : Nat} {l : Ledger} (hcalls : l.calls = []) (hdelivered : l.delivered = [])
    (hdrops : l.drops = []) : LedgerOk g ⟨cursor, depth, .idle⟩ { l with initial := cursor } := by
  refine ⟨Nat.le_refl _, ?_, ?_, ?_, ?_, ?_, ?_⟩
  · show (l.delivered ++ l.drops.map Drop.sequence).Perm (List.range' cursor (cursor - cursor))
    rw [hdelivered, hdrops, Nat.sub_self]
    exact List.Perm.nil
  · show l.delivered.Pairwise (· < ·)
    rw [hdelivered]
    exact List.Pairwise.nil
  · intro c hc
    rw [show l.calls = [] from hcalls] at hc
    cases hc
  · intro stage passes dropped hpc
    cases hpc
  · show (l.calls.map fun c => c.outcome.dropped).sum + 0 = l.drops.length
    rw [hcalls, hdrops]
    rfl
  · intro d hd
    rw [show l.drops = [] from hdrops] at hd
    cases hd

/-- Everybody else's moves leave the reader as it is. -/
theorem readers_of_step {s t : St} {a : Act} (hs : Step g s a t) :
    t.readers r = s.readers r
      ∨ (∃ cursor depth, s.readers r = none ∧ t.readers r = some ⟨cursor, depth, .idle⟩)
      ∨ ∃ rd rd', s.readers r = some rd ∧ t.readers r = some rd' ∧ readerStep g s.ring rd a = some rd' := by
  cases hs with
  | attach q cursor depth hnone _ =>
    by_cases e : r = q
    · subst e
      exact .inr (.inl ⟨cursor, depth, hnone, by simp [setReader]⟩)
    · exact .inl (by simp [setReader, e])
  | reader a q rd rd' hr hstep =>
    by_cases e : r = q
    · subst e
      exact .inr (.inr ⟨rd, rd', hr, by simp [setReader], hstep⟩)
    · exact .inl (by simp [setReader, e])
  | _ => exact .inl rfl

theorem observe_ok {o o' : Observed} {a : Act} (hi : Inv g o.st) (h : ObservedOk g r o)
    (hs : observe g r o a = some o') : ObservedOk g r o' := by
  obtain ⟨hstep, hledger⟩ := observe_some hs
  have hst := step_cases hstep
  have hattempts : o'.ledger.attempts = o.ledger.attempts ++ attempt o.st a := by rw [hledger]; rfl
  have htaken : Taken g o'.st.ring o'.ledger.attempts := by
    rw [hattempts]
    exact step_taken hi h.taken hst
  rcases readers_of_step (r := r) hst with hsame | ⟨cursor, depth, hnone, hsome⟩ | ⟨rd, rd', hold, hnew, hmove⟩
  · -- the ledger only learns of attempts
    have hkept : o'.ledger = { o.ledger with attempts := o.ledger.attempts ++ attempt o.st a } := by
      rw [hledger, Ledger.note, hsame]
      cases hr : o.st.readers r with
      | none => rfl
      | some rd => simp only [noteReader_self]
    refine ⟨htaken, ?_, ?_⟩
    · intro hr
      rw [hkept]
      exact h.fresh (hsame ▸ hr)
    · intro rd hr
      rw [hkept]
      exact (h.account rd (hsame ▸ hr)).attempts _
  · have hkept : o'.ledger = { o.ledger with
        initial := cursor
        attempts := o.ledger.attempts ++ attempt o.st a } := by
      rw [hledger, Ledger.note, hnone, hsome]
    refine ⟨htaken, ?_, ?_⟩
    · intro hr
      rw [hsome] at hr
      cases hr
    · intro rd hr
      rw [hsome] at hr
      cases hr
      rw [hkept]
      obtain ⟨hcalls, hdelivered, hdrops⟩ := h.fresh hnone
      exact (attach_ledgerOk hcalls hdelivered hdrops).attempts _
  · have hkept : o'.ledger = { o.ledger.noteReader o.st.ring.writeSeq rd rd' with
        attempts := o.ledger.attempts ++ attempt o.st a } := by
      rw [hledger, Ledger.note, hold, hnew]
    refine ⟨htaken, ?_, ?_⟩
    · intro hr
      rw [hnew] at hr
      cases hr
    · intro rd'' hr
      rw [hnew] at hr
      cases hr
      rw [hkept]
      obtain ⟨hdepth, hentry⟩ := readerStep_entry hi h.taken (hi.readers r rd hold) hmove
      exact (noteReader_ok (h.account rd hold) hdepth hentry).attempts _

theorem reach_observedOk {o : Observed} (h : Reach (observe g r) observedBelow (· = observedInit) o) :
    ObservedOk g r o := by
  refine h.invariant_reach ?_ ?_
  · rintro o rfl
    refine ⟨?_, fun _ => ⟨rfl, rfl, rfl⟩, fun rd hr => (by cases hr)⟩
    intro k h1 h2
    have h2 : k ≤ 0 := h2
    omega
  · intro o a o' hr ho _ hs
    exact observe_ok (observed_inv hr) ho hs

/-- Over any run, each call's cursor moves by what it dropped and delivered, what is
    delivered is increasing, and every sequence passed was delivered once or dropped once,
    the latter for a reason. -/
theorem reader_accounts_for_every_sequence {o : Observed}
    (h : Reach (observe g r) observedBelow (· = observedInit) o) {rd : Reader} (hr : o.st.readers r = some rd) :
    (∀ c ∈ o.ledger.calls, c.after = c.before + c.outcome.dropped + c.outcome.hasMessage.toNat)
      ∧ o.ledger.delivered.Pairwise (· < ·)
      ∧ (o.ledger.delivered ++ o.ledger.drops.map Drop.sequence).Perm
        (List.range' o.ledger.initial (rd.cursor - o.ledger.initial))
      ∧ (o.ledger.calls.map fun c => c.outcome.dropped).sum + rd.running = o.ledger.drops.length
      ∧ ∀ d ∈ o.ledger.drops, d.Justified g rd.depth := by
  have hok := (reach_observedOk h).account rd hr
  exact ⟨hok.calls, hok.increasing, hok.account, hok.counted, hok.justified⟩

def sendByte (b : UInt8) : List Act :=
  [.call 0 1 5, .lock 0, .load 0, .mark 0, .store 0 0 b, .fillReturn 0 (.returned (.ok 1)), .size 0, .stamp 0, .storeSeq 0,
    .commit 0, .unlock 0]

/-- Two messages in two slots, a third publish that fails in the first one's slot, and a read. -/
def lossyRun : List Act :=
  [Act.attach 0 1 2] ++ sendByte 7 ++ sendByte 8
    ++ [Act.call 0 1 5, .lock 0, .load 0, .mark 0, .fillReturn 0 .threw, .unlock 0]
    ++ [Act.tryRead 0, .newest 0, .seq 0, .newest 0, .seq 0, .loadSize 0, .loadStamp 0, .copy 0, .recheck 0]

def lossyLedger (o : Observed) : Bool :=
  (o.st.readers 0).isSome
    && decide (o.ledger = ⟨1, 1, [⟨1, 3, ⟨true, 1⟩⟩], [2], [⟨1, 2, [1, 2, 3]⟩], [1, 2, 3]⟩)

theorem a_failed_publish_costs_one_message :
    ∃ (o : Observed) (rd : Reader), o.ledger.delivered = [2] ∧ o.ledger.drops = [⟨1, 2, [1, 2, 3]⟩]
      ∧ (o.ledger.delivered ++ o.ledger.drops.map Drop.sequence).Perm
        (List.range' o.ledger.initial (rd.cursor - o.ledger.initial))
      ∧ ∀ d ∈ o.ledger.drops, d.Justified smallGeometry rd.depth := by
  obtain ⟨o, ho, hp⟩ : ∃ o, Reach (observe smallGeometry 0) observedBelow (· = observedInit) o ∧ lossyLedger o = true :=
    reach_of_check (fun o _ => decide (o.st.ring.writeSeq + 1 < 2 ^ 63)) lossyRun lossyLedger
      (fun o a h => by cases a <;> simp_all [observedBelow, seqBelow]) rfl (by decide +kernel)
  obtain ⟨hsome, hledger⟩ := Bool.and_eq_true_iff.mp hp
  obtain ⟨rd, hr⟩ := Option.isSome_iff_exists.mp hsome
  have hledger := of_decide_eq_true hledger
  obtain ⟨-, -, haccount, -, hjustified⟩ := reader_accounts_for_every_sequence ho hr
  exact ⟨o, rd, by rw [hledger], by rw [hledger], haccount, hjustified⟩

end PuppetMaster.Shm.Seqlock
