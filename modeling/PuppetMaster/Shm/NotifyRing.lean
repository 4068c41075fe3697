/-
  PuppetMaster.Shm.NotifyRing — what the notification machine keeps of the ring is what the
  ring does (see `PuppetMaster.Shm.Segment`, `PuppetMaster.Shm.Seqlock`).

  - `commit_is_the_next`: of all moves of writers and readers on the ring, only a commit
    changes `write_seq`, and to the next sequence: the move `commit`.
  - `pendingCount_eq`: `pendingCount` is Pending.
  - `passes_are_tryRead`: the passes of a Read, one move each, compute TryRead's result on any
    ring with this `write_seq`.
-/

import PuppetMaster.Shm.NotifySteps
import PuppetMaster.Shm.SeqlockProofs

namespace PuppetMaster.Shm.Notify

open PuppetMaster.Lib PuppetMaster.Shm

variable {g : Geometry} {pollInterval : Int} {s : St}

theorem commit_is_the_next {ring ring' : Seqlock.St} {a : Seqlock.Act}
    (h : Reach (Seqlock.step g) Seqlock.seqBelow (· = Seqlock.init) ring) (hst : Seqlock.Step g ring a ring') :
    ring'.ring.writeSeq = ring.ring.writeSeq ∨
      (∃ w, a = .commit w) ∧ ring'.ring.writeSeq = ring.ring.writeSeq + 1 := by
  cases hst with
  | commit w p hw =>
    have hp := (Seqlock.inv h).writers w
    rw [hw] at hp
    exact .inr ⟨⟨w, rfl⟩, hp.1.sequence⟩
  | _ => exact .inl rfl

theorem pendingCount_eq {ring : Ring} {r : Nat} (hseq : ring.writeSeq = s.writeSeq) (hbelow : s.writeSeq < 2 ^ 63)
    (hcursor : 1 ≤ (s.endpoints r).cursor) :
    pendingCount g s r = pending g ring (s.endpoints r).cursor (s.endpoints r).depth := by
  rw [pendingCount, pending, hseq]
  split
  · rfl
  · next hle =>
    have hb := (Seqlock.clampCursor_bounds hcursor (Nat.not_lt.mp hle)
      (Seqlock.effectiveDepth_pos (g := g) (s.endpoints r).depth)).2
    rw [u64]
    omega

/-- What a pass finds in the slot at `cursor`. -/
def finds (g : Geometry) (ring : Ring) (cursor : Nat) : Bool :=
  decide ((ring.slots (slotAt g cursor)).seq = cursor ∧ (ring.slots (slotAt g cursor)).payloadSize ≤ g.slotPayloadSize)

/-- The Read of thread `u` ends its passes where TryRead ends. -/
def EndsAs (g : Geometry) (pollInterval : Int) (s : St) (u r observed : Nat) (o : ReadOptions)
    (outcome : ReadOutcome × Nat × Option Core.Message) : Prop :=
  ∃ (as : List Bool) (t : St), run (step g pollInterval) s (as.map (.advance u)) = some t ∧
    t.reads u = (if outcome.1.hasMessage then .idle else .checking r o observed) ∧
    (t.endpoints r).cursor = outcome.2.1

theorem endsAs_pass {u r observed passes : Nat} {o : ReadOptions} (hread : s.reads u = .trying r o observed passes)
    (found : Bool) {outcome : ReadOutcome × Nat × Option Core.Message}
    (h : EndsAs g pollInterval (pass g s u r o observed passes found) u r observed o outcome) :
    EndsAs g pollInterval s u r observed o outcome := by
  obtain ⟨as, t, hrun, hends⟩ := h
  refine ⟨found :: as, t, ?_, hends⟩
  simpa [run, step, readStep, advanceStep, hread] using hrun

theorem endsAs_now {u r observed : Nat} {o : ReadOptions} {outcome : ReadOutcome × Nat × Option Core.Message}
    (hread : s.reads u = if outcome.1.hasMessage then .idle else .checking r o observed)
    (hcursor : (s.endpoints r).cursor = outcome.2.1) : EndsAs g pollInterval s u r observed o outcome :=
  ⟨[], s, rfl, hread, hcursor⟩

/-- The cursor after a pass that found messages to look at. -/
def nextCursor (g : Geometry) (s : St) (r : Nat) : Nat :=
  clampCursor (s.endpoints r).cursor s.writeSeq (effectiveDepth g (s.endpoints r).depth) + 1

/-- One pass: TryRead ends with it, or the slot had nothing for it and the cursor moves on. -/
theorem endsAs_unless_lost {ring : Ring} {u r observed passes : Nat} {o : ReadOptions} (hwait : o.wait = true)
    (hseq : ring.writeSeq = s.writeSeq) (hbelow : s.writeSeq < 2 ^ 63) (hcursor : 1 ≤ (s.endpoints r).cursor)
    (hread : s.reads u = .trying r o observed passes) (dropped : Nat)
    (hlost : ∀ dropped, EndsAs g pollInterval
      (if passes = 0 then missed (setEndpoint s r { s.endpoints r with cursor := nextCursor g s r }) u r o observed
        else setRead (setEndpoint s r { s.endpoints r with cursor := nextCursor g s r }) u
          (.trying r o observed (passes - 1)))
      u r observed o
      (tryReadLoop g ring (effectiveDepth g (s.endpoints r).depth) passes (nextCursor g s r) dropped)) :
    EndsAs g pollInterval s u r observed o
      (tryReadLoop g ring (effectiveDepth g (s.endpoints r).depth) (passes + 1) (s.endpoints r).cursor dropped) := by
  refine endsAs_pass hread (finds g ring
    (clampCursor (s.endpoints r).cursor s.writeSeq (effectiveDepth g (s.endpoints r).depth))) ?_
  rw [tryReadLoop, hseq]
  split
  · next hlt =>
    refine endsAs_now ?_ ?_
    · simp [pass, hlt, missed, hwait, setRead]
    · simp [pass, hlt, missed, hwait, setRead]
  · next hle =>
    have hb := Seqlock.clampCursor_bounds hcursor (Nat.not_lt.mp hle)
      (Seqlock.effectiveDepth_pos (g := g) (s.endpoints r).depth)
    have hnext : u64 (clampCursor (s.endpoints r).cursor s.writeSeq (effectiveDepth g (s.endpoints r).depth) + 1) =
        nextCursor g s r := by
      rw [u64, nextCursor]
      omega
    simp only [hnext]
    split
    · next hfound =>
      refine endsAs_now ?_ ?_
      · simp [pass, hle, finds, hfound, release, setRead]
      · simp [pass, hle, finds, hfound, release, setRead, setEndpoint, nextCursor]
    · next hnot =>
      simpa [pass, hle, finds, hnot, nextCursor] using hlost _

theorem passes_are_tryRead {ring : Ring} {u r observed : Nat} {o : ReadOptions} (hwait : o.wait = true)
    (hseq : ring.writeSeq = s.writeSeq) (hbelow : s.writeSeq < 2 ^ 63) (hcursor : 1 ≤ (s.endpoints r).cursor)
    {passes : Nat} (hread : s.reads u = .trying r o observed passes) (dropped : Nat) :
    EndsAs g pollInterval s u r observed o
      (tryReadLoop g ring (effectiveDepth g (s.endpoints r).depth) (passes + 1) (s.endpoints r).cursor dropped) := by
  induction passes generalizing s dropped with
  | zero =>
    refine endsAs_unless_lost hwait hseq hbelow hcursor hread dropped fun dropped => endsAs_now ?_ ?_
    · simp [missed, hwait, setRead, tryReadLoop]
    · simp [missed, hwait, setRead, setEndpoint, tryReadLoop]
  | succ passes ih =>
    refine endsAs_unless_lost hwait hseq hbelow hcursor hread dropped fun dropped => ?_
    have hmoved := ih (s := setRead (setEndpoint s r { s.endpoints r with cursor := nextCursor g s r }) u
      (.trying r o observed passes)) hseq hbelow (by simp [setRead, setEndpoint, nextCursor])
      (by simp [setRead]) dropped
    simpa [setRead, setEndpoint] using hmoved

end PuppetMaster.Shm.Notify
