/-
  PuppetMaster.Shm.FailedPublish — what a publish that returns an error leaves behind
  (`Segment::PublishWith`, `TryRead`, `Pending`).

  With nothing else published, a reader whose clamped cursor is `c` gets exactly the
  messages of the slots that still show their sequence, from `c` up to the newest
  (`messagesFrom`, `reads_eq`), while `Pending` counts the whole stretch
  (`pending_eq`). In every reachable segment all of the newest `slot_count - 1`
  messages are there; the oldest one the ring can hold, `write_seq + 1 - slot_count`,
  shares its slot with the next publish.

  The zero-copy path marks that slot before it knows whether the fill succeeds, and a
  failed fill does not bring the message back. So a failed publish is invisible to every
  reader except one that is still due that oldest message (`DueOldest`: the ring is
  full, the reader's depth is the whole ring and its cursor is not past it); for that
  reader the message is gone while `Pending` still counts it, unless the call was
  refused before it reached the ring. The default `WriteWith` fills a private buffer, and a
  failed `WriteWith` never changes the ring (`writeWith_error`).
-/

import PuppetMaster.Shm.SeqlockProofs

namespace PuppetMaster.Shm.Seqlock

open PuppetMaster.Core PuppetMaster.Lib PuppetMaster.Shm

variable {g : Geometry}

/-! ## What successive reads return -/

variable (g) in
/-- The slot of `k` still shows `k`, with a size that fits. -/
def readable (r : Ring) (k : Nat) : Bool :=
  decide ((r.slots (slotAt g k)).seq = k ∧ (r.slots (slotAt g k)).payloadSize ≤ g.slotPayloadSize)

variable (g) in
def messagesFrom (r : Ring) (c : Nat) : List Message :=
  ((List.range' c (r.writeSeq + 1 - c)).filter (readable g r)).map fun k => (r.slots (slotAt g k)).message k

variable (g) in
/-- The messages successive `TryRead`s return from `cursor`, up to the first that
    returns none. -/
def reads (r : Ring) (cursor depth : Nat) : List Message := readAll g r depth (r.writeSeq + 1) cursor

theorem messagesFrom_past {r : Ring} {c : Nat} (h : r.writeSeq < c) : messagesFrom g r c = [] := by
  have : r.writeSeq + 1 - c = 0 := by omega
  simp [messagesFrom, this]

theorem messagesFrom_step {r : Ring} {c : Nat} (h : c ≤ r.writeSeq) :
    messagesFrom g r c =
      if readable g r c then (r.slots (slotAt g c)).message c :: messagesFrom g r (c + 1)
      else messagesFrom g r (c + 1) := by
  have hl : r.writeSeq + 1 - c = (r.writeSeq + 1 - (c + 1)) + 1 := by omega
  unfold messagesFrom
  rw [hl, List.range'_succ, List.filter_cons]
  split <;> simp

theorem clampCursor_idem (c w d : Nat) : clampCursor (clampCursor c w d) w d = clampCursor c w d := by
  simp only [clampCursor]
  omega

theorem clampCursor_of_le {c c' w d : Nat} (h : clampCursor c w d = c) (hle : c ≤ c') : clampCursor c' w d = c' := by
  simp only [clampCursor] at *
  omega

/-- From a clamped cursor and with passes to spare, the loop finds the next readable
    message or runs out of messages. -/
theorem tryReadLoop_messages {r : Ring} {d : Nat} (hbelow : r.writeSeq + 1 < 2 ^ 64) :
    ∀ (passes c dropped : Nat), r.writeSeq + 1 - c < passes → clampCursor c r.writeSeq d = c →
    match tryReadLoop g r d passes c dropped with
    | (_, c', some m) => messagesFrom g r c = m :: messagesFrom g r c' ∧ c < c' ∧ clampCursor c' r.writeSeq d = c'
    | (_, _, none) => messagesFrom g r c = [] := by
  intro passes
  induction passes with
  | zero => intro c dropped h; omega
  | succ passes ih =>
    intro c dropped h hc
    unfold tryReadLoop
    by_cases hw : r.writeSeq < c
    · simp only [hw, if_true]
      exact messagesFrom_past hw
    · have hstep := messagesFrom_step (g := g) (r := r) (c := c) (by omega)
      have hnext : u64 (c + 1) = c + 1 := Nat.mod_eq_of_lt (by omega)
      simp only [hw, if_false, hc, hnext]
      by_cases hr : readable g r c = true
      · rw [if_pos (by simpa [readable] using hr)]
        rw [if_pos hr] at hstep
        exact ⟨hstep, by omega, clampCursor_of_le hc (by omega)⟩
      · rw [if_neg (by simpa [readable] using hr)]
        rw [if_neg hr] at hstep
        rw [hstep]
        have := ih (c + 1) (dropped + (c - c) + 1) (by omega) (clampCursor_of_le hc (by omega))
        split at this
        · exact ⟨this.1, by omega, this.2.2⟩
        · exact this

/-- The first pass clamps the cursor; the rest is as from the clamped one. -/
theorem tryReadLoop_clamp {r : Ring} {d passes c dropped : Nat} (hp : 0 < passes) (h : c ≤ r.writeSeq)
    (hw : clampCursor c r.writeSeq d ≤ r.writeSeq) :
    tryReadLoop g r d passes c dropped =
      tryReadLoop g r d passes (clampCursor c r.writeSeq d) (dropped + (clampCursor c r.writeSeq d - c)) := by
  cases passes with
  | zero => omega
  | succ passes =>
    have h1 : ¬ r.writeSeq < c := by omega
    have h2 : ¬ r.writeSeq < clampCursor c r.writeSeq d := by omega
    rw [tryReadLoop, tryReadLoop, if_neg h1, if_neg h2]
    simp only [clampCursor_idem, Nat.sub_self, Nat.add_zero]

/-- A reader that keeps at most a ring of messages reads from its clamped cursor. -/
theorem readAll_eq {r : Ring} {depth : Nat} (hbelow : r.writeSeq + 1 < 2 ^ 64) : ∀ (fuel c : Nat), 1 ≤ c →
    r.writeSeq + 1 - clampCursor c r.writeSeq (effectiveDepth g depth) ≤ fuel →
    readAll g r depth fuel c = messagesFrom g r (clampCursor c r.writeSeq (effectiveDepth g depth)) := by
  intro fuel
  induction fuel with
  | zero =>
    intro c _ h
    rw [messagesFrom_past (by omega)]
    rfl
  | succ fuel ih =>
    intro c hc hf
    have hd := effectiveDepth_pos (g := g) depth
    by_cases hw : r.writeSeq < c
    · have hcl : r.writeSeq < clampCursor c r.writeSeq (effectiveDepth g depth) :=
        Nat.lt_of_lt_of_le hw (Nat.le_max_left _ _)
      rw [messagesFrom_past hcl]
      simp only [readAll, tryRead, maxPasses, tryReadLoop, hw, if_true]
    · have hle : c ≤ r.writeSeq := by omega
      have hb := clampCursor_bounds hc hle hd
      have hring : r.writeSeq + 1 - clampCursor c r.writeSeq (effectiveDepth g depth) < maxPasses g := by
        have : effectiveDepth g depth ≤ g.slotCount := by
          have := g.slotCount_pos
          simp only [effectiveDepth]
          omega
        simp only [clampCursor, maxPasses]
        split <;> omega
      have hspec := tryReadLoop_messages (g := g) hbelow (maxPasses g) _
        (0 + (clampCursor c r.writeSeq (effectiveDepth g depth) - c)) hring (clampCursor_idem c r.writeSeq _)
      rw [← tryReadLoop_clamp (by simp [maxPasses]) hle hb.2] at hspec
      rcases htry : tryReadLoop g r (effectiveDepth g depth) (maxPasses g) c 0 with ⟨o, c', found⟩
      rw [htry] at hspec
      simp only [readAll, tryRead, htry]
      cases found with
      | some m =>
        obtain ⟨hfirst, hlt, hclamp⟩ := hspec
        have hrest := ih c' (by omega) (by rw [hclamp]; omega)
        show m :: readAll g r depth fuel c' = _
        rw [hfirst, hrest, hclamp]
      | none => exact hspec.symm

theorem reads_eq {r : Ring} {cursor : Nat} (depth : Nat) (hc : 1 ≤ cursor) (hw : r.writeSeq + 1 < 2 ^ 64) :
    reads g r cursor depth = messagesFrom g r (clampCursor cursor r.writeSeq (effectiveDepth g depth)) := by
  refine readAll_eq hw _ _ hc ?_
  have : cursor ≤ clampCursor cursor r.writeSeq (effectiveDepth g depth) := Nat.le_max_left _ _
  omega

theorem pending_eq {r : Ring} {cursor : Nat} (depth : Nat) (hc : 1 ≤ cursor) (hw : r.writeSeq + 1 < 2 ^ 64) :
    pending g r cursor depth = r.writeSeq + 1 - clampCursor cursor r.writeSeq (effectiveDepth g depth) := by
  have hd := effectiveDepth_pos (g := g) depth
  unfold pending
  split
  · have : cursor ≤ clampCursor cursor r.writeSeq (effectiveDepth g depth) := Nat.le_max_left _ _
    omega
  · have hle : cursor ≤ r.writeSeq := by omega
    have hb := clampCursor_bounds hc hle hd
    simp only [u64]
    omega

/-! ## Rings that agree on the messages -/

/-- `r'` shows the messages from `c` on as `r` does. -/
theorem messagesFrom_congr {r r' : Ring} {c : Nat} (hw : r'.writeSeq = r.writeSeq)
    (h : ∀ k, c ≤ k → k ≤ r.writeSeq → r'.slots (slotAt g k) = r.slots (slotAt g k)) :
    messagesFrom g r' c = messagesFrom g r c := by
  unfold messagesFrom
  rw [hw]
  have hmem : ∀ k ∈ List.range' c (r.writeSeq + 1 - c), r'.slots (slotAt g k) = r.slots (slotAt g k) := by
    intro k hk
    obtain ⟨h1, h2⟩ := List.mem_range'_1.mp hk
    exact h k h1 (by omega)
  rw [List.filter_congr (q := readable g r) fun k hk => by simp only [readable, hmem k hk]]
  exact List.map_congr_left fun k hk => by rw [hmem k (List.mem_of_mem_filter hk)]

/-- Every message is there exactly when nothing between the cursor and the newest is missing. -/
theorem messagesFrom_length {r : Ring} {c : Nat} :
    (messagesFrom g r c).length = r.writeSeq + 1 - c ↔ ∀ k, c ≤ k → k ≤ r.writeSeq → readable g r k = true := by
  unfold messagesFrom
  rw [List.length_map]
  constructor
  · intro h k h1 h2
    have hall := List.length_filter_eq_length_iff.mp (h.trans List.length_range'.symm)
    exact hall k (List.mem_range'_1.mpr ⟨h1, by omega⟩)
  · intro h
    have hall : ∀ k ∈ List.range' c (r.writeSeq + 1 - c), readable g r k = true := by
      intro k hk
      obtain ⟨h1, h2⟩ := List.mem_range'_1.mp hk
      exact h k h1 (by omega)
    rw [List.filter_eq_self.mpr hall]
    exact List.length_range'

/-- In a reachable segment a message in its slot fits the slot. -/
theorem Inv.readable_iff {s : St} (hi : Inv g s) {k : Nat} (h1 : 1 ≤ k) (h2 : k ≤ s.ring.writeSeq) :
    readable g s.ring k = true ↔ (s.ring.slots (slotAt g k)).seq = k := by
  simp only [readable, decide_eq_true_eq, and_iff_left_iff_imp]
  intro h
  cases hi.slots (slotAt g k) with
  | unused h0 => omega
  | committed _ _ _ hs _ => exact hs
  | next _ hn =>
    have := hi.below
    have := kWritingBit_lt_mark (s.ring.writeSeq + 1)
    simp only [kWritingBit] at *
    omega

/-! ## A publish that returns an error -/

/-- The call gets past the size check and the writer lock. -/
def reachesRing (g : Geometry) (locked : Result Bool) (capacity : Nat) : Bool :=
  decide (capacity ≤ g.slotPayloadSize) && locked.toBool

/-- A failed publish leaves the ring alone, or leaves the next sequence's slot marked. -/
theorem publishWith_error {r r' : Ring} {locked : Result Bool} {capacity : Nat} {fill : FillFunction} {ts : Int}
    {status : Status} (h : publishWith g r locked capacity fill ts = (.error status, r')) :
    (reachesRing g locked capacity = false ∧ r' = r) ∨
    (reachesRing g locked capacity = true ∧ r'.writeSeq = r.writeSeq ∧
      (r'.slots (slotAt g (u64 (r.writeSeq + 1)))).seq = u64 (r.writeSeq + 1) ||| kWritingBit ∧
      ∀ i, i ≠ slotAt g (u64 (r.writeSeq + 1)) → r'.slots i = r.slots i) := by
  unfold publishWith at h
  split at h
  · rename_i hcap
    cases h
    have hno : ¬ capacity ≤ g.slotPayloadSize := by omega
    exact .inl ⟨by simp [reachesRing, hno], rfl⟩
  · rename_i hcap
    split at h
    · cases h
      exact .inl ⟨by simp [reachesRing, Except.toBool], rfl⟩
    · simp only at h
      split at h
      · cases h
        refine .inr ⟨by simp [reachesRing, Except.toBool]; omega, rfl, by simp, fun i hne => ?_⟩
        rw [Ring.setSlot_ne _ _ hne, Ring.setSlot_ne _ _ hne]
      · cases h

/-- The default `WriteWith` never reaches the ring when its fill fails, and copying the
    filled bytes cannot fail. -/
theorem writeWith_error {r r' : Ring} {locked : Result Bool} {capacity : Nat} {fill : FillFunction} {ts : Int}
    {status : Status} (h : writeWith g r locked capacity fill ts = (.error status, r')) : r' = r := by
  simp only [writeWith] at h
  split at h
  · cases h; rfl
  · rename_i used _
    simp only [publish, publishWith, invokeFill, bytesAt_length, Nat.lt_irrefl, if_false] at h
    split at h
    · cases h; rfl
    · split at h
      · cases h; rfl
      · cases h

/-- The reader still has the oldest message of a full ring to read. -/
def DueOldest (g : Geometry) (r : Ring) (cursor depth : Nat) : Prop :=
  g.slotCount ≤ r.writeSeq ∧ depth = g.slotCount ∧ cursor ≤ r.writeSeq + 1 - g.slotCount

/-- A reader at `cursor` cannot tell `r'` from `r`, and is told the number of messages it will get. -/
structure Unnoticed (g : Geometry) (r r' : Ring) (cursor depth : Nat) : Prop where
  sameReads : reads g r' cursor depth = reads g r cursor depth
  samePending : pending g r' cursor depth = pending g r cursor depth
  counted : pending g r' cursor depth = (reads g r' cursor depth).length

theorem slotAt_oldest {w : Nat} (h : g.slotCount ≤ w) : slotAt g (w + 1 - g.slotCount) = slotAt g (w + 1) := by
  have he : w + 1 = (w + 1 - g.slotCount) + g.slotCount := by omega
  simp only [slotAt]
  rw [he, Nat.add_mod_right, ← he]

theorem clampCursor_due {r : Ring} {cursor depth : Nat} (h : DueOldest g r cursor depth) :
    clampCursor cursor r.writeSeq (effectiveDepth g depth) = r.writeSeq + 1 - g.slotCount := by
  obtain ⟨hfull, rfl, hc⟩ := h
  have he : effectiveDepth g g.slotCount = g.slotCount := by
    have := g.slotCount_pos
    simp only [effectiveDepth]; omega
  rw [he, clampCursor, if_pos hfull]
  omega

/-- A reader that is not due the oldest message only meets slots a publish leaves alone. -/
theorem clampCursor_not_due {r : Ring} {cursor depth : Nat} (hd : 1 ≤ depth) (hdn : depth ≤ g.slotCount)
    (h : ¬ DueOldest g r cursor depth) :
    r.writeSeq + 1 < clampCursor cursor r.writeSeq (effectiveDepth g depth) + g.slotCount := by
  have he : effectiveDepth g depth = depth := by simp only [effectiveDepth]; omega
  simp only [DueOldest] at h
  rw [he, clampCursor]
  split <;> omega

/-- A stretch that starts at the clamped cursor is reported and read alike. -/
theorem unnoticed_iff {r r' : Ring} {cursor depth : Nat} (hc : 1 ≤ cursor) (hw : r.writeSeq < 2 ^ 63)
    (hw' : r'.writeSeq = r.writeSeq) :
    Unnoticed g r r' cursor depth ↔
      (messagesFrom g r' (clampCursor cursor r.writeSeq (effectiveDepth g depth)) =
          messagesFrom g r (clampCursor cursor r.writeSeq (effectiveDepth g depth)) ∧
        ∀ k, clampCursor cursor r.writeSeq (effectiveDepth g depth) ≤ k → k ≤ r.writeSeq →
          readable g r' k = true) := by
  have hcount := messagesFrom_length (g := g) (r := r') (c := clampCursor cursor r.writeSeq (effectiveDepth g depth))
  rw [hw'] at hcount
  have hbelow : r.writeSeq + 1 < 2 ^ 64 := by omega
  have hbelow' : r'.writeSeq + 1 < 2 ^ 64 := by omega
  have hp : pending g r' cursor depth = pending g r cursor depth := by
    rw [pending_eq depth hc hbelow, pending_eq depth hc hbelow', hw']
  rw [← hcount]
  constructor
  · intro h
    have h1 := h.sameReads
    have h2 := h.counted
    rw [reads_eq depth hc hbelow', hw'] at h1 h2
    rw [reads_eq depth hc hbelow] at h1
    rw [hp, pending_eq depth hc hbelow] at h2
    exact ⟨h1, h2.symm⟩
  · intro h
    refine ⟨?_, hp, ?_⟩
    · rw [reads_eq depth hc hbelow', reads_eq depth hc hbelow, hw']
      exact h.1
    · rw [hp, reads_eq depth hc hbelow', pending_eq depth hc hbelow, hw']
      exact h.2.symm

/-- A publish that returns an error goes unnoticed by a reader exactly when the reader is
    not due the oldest message of a full ring, or the call was refused before it reached
    the ring and that message is still there. -/
theorem failed_publish_unnoticed_iff {s : St} (h : Reach (step g) seqBelow (· = init) s) {cursor depth : Nat}
    (hc : 1 ≤ cursor) (hd : 1 ≤ depth) (hdn : depth ≤ g.slotCount) {locked : Result Bool} {capacity : Nat}
    {fill : FillFunction} {ts : Int} {status : Status} {r' : Ring}
    (hf : publishWith g s.ring locked capacity fill ts = (.error status, r')) :
    Unnoticed g s.ring r' cursor depth ↔
      ¬ DueOldest g s.ring cursor depth ∨
      (reachesRing g locked capacity = false ∧
        (s.ring.slots (slotAt g (s.ring.writeSeq + 1 - g.slotCount))).seq = s.ring.writeSeq + 1 - g.slotCount) := by
  have hi := inv h
  have hbelow := hi.below
  have hu : u64 (s.ring.writeSeq + 1) = s.ring.writeSeq + 1 := Nat.mod_eq_of_lt (by omega)
  have hpe := publishWith_error hf
  rw [hu] at hpe
  have hw' : r'.writeSeq = s.ring.writeSeq := by
    rcases hpe with ⟨_, rfl⟩ | ⟨_, hw, _⟩
    · rfl
    · exact hw
  rw [unnoticed_iff hc hbelow hw']
  by_cases hdue : DueOldest g s.ring cursor depth
  · have hcl := clampCursor_due hdue
    have hslot := slotAt_oldest hdue.1
    have hpos := g.slotCount_pos
    have hfull := hdue.1
    rw [hcl]
    constructor
    · intro h
      obtain ⟨-, hall⟩ := h
      have hk := hall (s.ring.writeSeq + 1 - g.slotCount) (Nat.le_refl _) (by omega)
      simp only [readable, decide_eq_true_eq] at hk
      rcases hpe with ⟨hno, rfl⟩ | ⟨_, _, hmark, _⟩
      · exact .inr ⟨hno, hk.1⟩
      · -- the mark cannot be the oldest message's sequence
        rw [← hslot] at hmark
        have := kWritingBit_lt_mark (s.ring.writeSeq + 1)
        simp only [kWritingBit] at *
        omega
    · intro h
      rcases h with hnd | ⟨hno, hseq⟩
      · exact absurd hdue hnd
      · rcases hpe with ⟨_, rfl⟩ | ⟨hyes, _⟩
        · refine ⟨rfl, fun k h1 h2 => (hi.readable_iff (by omega) h2).mpr ?_⟩
          by_cases e : k = s.ring.writeSeq + 1 - g.slotCount
          · rw [e]; exact hseq
          · exact hi.window k (by omega) h2 (by omega)
        · rw [hyes] at hno; cases hno
  · have hin := clampCursor_not_due hd hdn hdue
    have hcle : cursor ≤ clampCursor cursor s.ring.writeSeq (effectiveDepth g depth) := Nat.le_max_left _ _
    have hsame : ∀ k, clampCursor cursor s.ring.writeSeq (effectiveDepth g depth) ≤ k → k ≤ s.ring.writeSeq →
        r'.slots (slotAt g k) = s.ring.slots (slotAt g k) := by
      intro k h1 h2
      rcases hpe with ⟨_, rfl⟩ | ⟨_, _, _, hother⟩
      · rfl
      · exact hother _ (slotAt_ne (by omega) (by omega))
    refine ⟨fun _ => .inl hdue, fun _ => ⟨messagesFrom_congr hw' hsame, fun k h1 h2 => ?_⟩⟩
    simp only [readable, hsame k h1 h2]
    exact (hi.readable_iff (by omega) h2).mpr (hi.window k (by omega) h2 (by omega))

/-- Writer 0 publishes one byte at time 5. -/
def publishByte (v : UInt8) : List Act :=
  [.call 0 1 5, .lock 0, .load 0, .mark 0, .store 0 0 v, .fillReturn 0 (.returned (.ok 1)), .size 0, .stamp 0,
    .storeSeq 0, .commit 0, .unlock 0]

/-- A fill function that writes nothing and throws. -/
def throwingFill : FillFunction := fun _ buffer => (buffer, .threw)

/-- Both slots hold a message; a throwing fill takes the older one away, and `Pending`
    still says two. -/
def losesTheOldest (s : St) : Bool :=
  match publishWith smallGeometry s.ring (.ok false) 1 throwingFill 6 with
  | (.error _, r') =>
    decide (((reads smallGeometry s.ring 1 2).map (·.payload) = [[7], [8]] ∧ pending smallGeometry s.ring 1 2 = 2) ∧
      (reads smallGeometry r' 1 2).map (·.payload) = [[8]] ∧ pending smallGeometry r' 1 2 = 2)
  | (.ok _, _) => false

theorem a_throwing_fill_loses_the_oldest_message :
    ∃ (s : St) (status : Status) (r' : Ring), Reach (step smallGeometry) seqBelow (· = init) s ∧
      publishWith smallGeometry s.ring (.ok false) 1 throwingFill 6 = (.error status, r') ∧
      ¬ Unnoticed smallGeometry s.ring r' 1 2 := by
  obtain ⟨s, hs, hp⟩ : ∃ s, Reach (step smallGeometry) seqBelow (· = init) s ∧ losesTheOldest s = true :=
    reach_of_check (fun s _ => decide (s.ring.writeSeq + 1 < 2 ^ 63)) (publishByte 7 ++ publishByte 8) losesTheOldest
      (fun s a h => by cases a <;> simp_all [seqBelow]) rfl (by decide)
  simp only [losesTheOldest] at hp
  split at hp
  · rename_i status r' hpub
    refine ⟨s, status, r', hs, hpub, fun hun => ?_⟩
    obtain ⟨-, hafter, hpend⟩ := of_decide_eq_true hp
    have hlen := congrArg List.length hafter
    rw [List.length_map] at hlen
    have := hun.counted
    rw [hpend, hlen] at this
    simp at this
  · cases hp

/-- One of the two slots holds a message. -/
def holdsOnlySeven (s : St) : Bool :=
  match publishWith smallGeometry s.ring (.ok false) 1 throwingFill 6 with
  | (.error _, _) => decide (s.ring.writeSeq = 1 ∧ (reads smallGeometry s.ring 1 2).map (·.payload) = [[7]])
  | (.ok _, _) => false

theorem a_throwing_fill_keeps_a_lone_message :
    ∃ (s : St) (status : Status) (r' : Ring), Reach (step smallGeometry) seqBelow (· = init) s ∧
      publishWith smallGeometry s.ring (.ok false) 1 throwingFill 6 = (.error status, r') ∧
      (reads smallGeometry s.ring 1 2).map (·.payload) = [[7]] ∧ Unnoticed smallGeometry s.ring r' 1 2 := by
  obtain ⟨s, hs, hp⟩ : ∃ s, Reach (step smallGeometry) seqBelow (· = init) s ∧ holdsOnlySeven s = true :=
    reach_of_check (fun s _ => decide (s.ring.writeSeq + 1 < 2 ^ 63)) (publishByte 7) holdsOnlySeven
      (fun s a h => by cases a <;> simp_all [seqBelow]) rfl (by decide)
  simp only [holdsOnlySeven] at hp
  split at hp
  · rename_i status r' hpub
    obtain ⟨hw, hreads⟩ := of_decide_eq_true hp
    refine ⟨s, status, r', hs, hpub, hreads,
      (failed_publish_unnoticed_iff hs (by decide) (by decide) (by decide) hpub).mpr (.inl fun h => ?_)⟩
    have hfull := h.1
    rw [hw] at hfull
    exact absurd hfull (by decide)
  · cases hp

end PuppetMaster.Shm.Seqlock
