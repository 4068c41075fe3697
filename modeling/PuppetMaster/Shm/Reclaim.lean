/-
  PuppetMaster.Shm.Reclaim — what becomes of the entries of dead processes.

  `Alone a` are the accesses of one thread with nothing else running, and `Completes` a
  call run that way to its end. ReclaimDeadParticipants frees the active entries whose
  identity is not alive and leaves every other entry as it is (`reclaim_alone`, from
  `sweep_one` by the loop over the table); ClaimParticipant does the same and then takes
  the first free entry, or is refused when there is none (`claim_alone`, from
  `search_alone`).

  So an entry in kind `claiming` is never reclaimed: a process that dies between the
  compare-exchange of its claim and the store that activates the entry leaves it behind
  for good. `claiming_iff` says, for runs without stale releases, that this is the only
  way to leave such an entry.
-/

import Mathlib.Logic.Relation
import PuppetMaster.Shm.ParticipantsProofs

namespace PuppetMaster.Shm.Participants

open PuppetMaster.Lib

/-! ## One thread alone -/

def Alone (a : Thread) : St → St → Prop := Relation.ReflTransGen fun s t => step s (.access a) = some t

/-- The call of thread `a` runs from `s` to its end, which is `t`, and nobody else moves. -/
def Completes (a : Thread) (call : Act) (s t : St) : Prop :=
  ∃ begun, step s call = some begun ∧ Alone a begun t ∧ step t (.access a) = none

theorem alone_access {a : Thread} {me : Identity} {s u : St} (t : St) (ha : currentProcess s a = some me)
    (h : access s a me = some t) (hrest : Alone a t u) : Alone a s u := by
  refine Relation.ReflTransGen.head ?_ hrest
  simp [step, ha, h]

theorem completes_unique {a : Thread} {call : Act} {s t u : St} (ht : Completes a call s t)
    (hu : Completes a call s u) : t = u := by
  obtain ⟨begun, hb, hrun, hend⟩ := ht
  obtain ⟨begun', hb', hrun', hend'⟩ := hu
  cases hb.symm.trans hb'
  have hunique : Relator.RightUnique fun s t : St => step s (.access a) = some t := by
    intro x y z hy hz
    exact Option.some.inj (hy.symm.trans hz)
  -- the longer of the two runs cannot leave the end of the shorter one
  rcases Relation.ReflTransGen.total_of_right_unique hunique hrun hrun' with h | h
  · rcases Relation.ReflTransGen.cases_head h with h | ⟨v, hv, -⟩
    · exact h
    · rw [hend] at hv
      cases hv
  · rcases Relation.ReflTransGen.cases_head h with h | ⟨v, hv, -⟩
    · exact h.symm
    · rw [hend'] at hv
      cases hv

@[simp] theorem currentProcess_setThread (s : St) (a b : Thread) (pc : Pc) :
    currentProcess (setThread s a pc) b = currentProcess s b := rfl

@[simp] theorem currentProcess_setEntry (s : St) (i : Nat) (f : Entry → Entry) (b : Thread) :
    currentProcess (setEntry s i f) b = currentProcess s b := rfl

@[simp] theorem threads_setThread (s : St) (a : Thread) (pc : Pc) : (setThread s a pc).threads a = pc := by
  simp [setThread]

@[simp] theorem setThread_setThread (s : St) (a : Thread) (pc pc' : Pc) :
    setThread (setThread s a pc) a pc' = setThread s a pc' := by
  simp [setThread]

/-! ## ReclaimDeadParticipants -/

/-- Active, but nobody with its identity is alive. -/
def abandoned (s : St) (i : Nat) : Bool :=
  decide ((s.entries i).state.kind = .active)
    && !isProcessAlive s ⟨(s.entries i).pid, (s.entries i).startTime⟩

def freed (e : Entry) : Entry := { e with state := ⟨.free, e.state.generation⟩ }

/-- The table after the entries from `i` on have been swept. -/
def sweepFrom (s : St) (i : Nat) : St :=
  { s with entries := fun j =>
    if i ≤ j ∧ j < kMaxParticipants ∧ abandoned s j = true then freed (s.entries j) else s.entries j }

def sweepEntry (s : St) (i : Nat) : St := if abandoned s i then setEntry s i freed else s

theorem sweep_one {s : St} {a : Thread} {me : Identity} {claim : Bool} {i : Nat} (ha : currentProcess s a = some me)
    (hpc : s.threads a = .reclaiming claim i .state) :
    Alone a s (setThread (sweepEntry s i) a (reclaimNext claim i)) := by
  by_cases hactive : (s.entries i).state.kind = .active
  · refine alone_access (setThread s a (.reclaiming claim i (.pid ⟨(s.entries i).state, s.claims i⟩))) ha ?_ ?_
    · simp [access, hpc, hactive]
    refine alone_access (setThread s a
      (.reclaiming claim i (.startTime ⟨(s.entries i).state, s.claims i⟩ (s.entries i).pid))) ha ?_ ?_
    · simp [access, setThread]
    refine alone_access (setThread s a
      (.reclaiming claim i (.alive ⟨(s.entries i).state, s.claims i⟩ (s.entries i).pid (s.entries i).startTime))) ha ?_ ?_
    · simp [access, setThread]
    cases halive : isProcessAlive s ⟨(s.entries i).pid, (s.entries i).startTime⟩ with
    | true =>
      have hkept : sweepEntry s i = s := by simp [sweepEntry, abandoned, halive]
      have halive' : ∀ pc, isProcessAlive (setThread s a pc) ⟨(s.entries i).pid, (s.entries i).startTime⟩ = true :=
        fun _ => halive
      rw [hkept]
      refine alone_access (setThread s a (reclaimNext claim i)) ha ?_ ?_
      · simp [access, halive']
      exact Relation.ReflTransGen.refl
    | false =>
      have hfreed : sweepEntry s i = setEntry s i freed := by simp [sweepEntry, abandoned, halive, hactive]
      have halive' : ∀ pc, isProcessAlive (setThread s a pc) ⟨(s.entries i).pid, (s.entries i).startTime⟩ = false :=
        fun _ => halive
      rw [hfreed]
      refine alone_access (setThread s a (.reclaiming claim i (.free ⟨(s.entries i).state, s.claims i⟩))) ha ?_ ?_
      · simp [access, halive']
      refine alone_access (setThread (setEntry s i freed) a (reclaimNext claim i)) ha ?_ ?_
      · simp [access, setThread, setEntry, freed]
      exact Relation.ReflTransGen.refl
  · have hkept : sweepEntry s i = s := by simp [sweepEntry, abandoned, hactive]
    rw [hkept]
    refine alone_access (setThread s a (reclaimNext claim i)) ha ?_ ?_
    · simp [access, hpc, hactive]
    exact Relation.ReflTransGen.refl

theorem abandoned_sweepEntry {s : St} {a : Thread} {pc : Pc} {i j : Nat} (h : j ≠ i) :
    abandoned (setThread (sweepEntry s i) a pc) j = abandoned s j := by
  have hentry : (setThread (sweepEntry s i) a pc).entries j = s.entries j := by
    unfold sweepEntry
    split
    · simp [setThread, h]
    · rfl
  have halive : ∀ identity, isProcessAlive (setThread (sweepEntry s i) a pc) identity = isProcessAlive s identity := by
    intro identity
    unfold sweepEntry
    split
    · rfl
    · rfl
  simp only [abandoned, hentry, halive]

/-- Sweeping one entry and then the rest is sweeping from it on. -/
theorem sweepFrom_sweepEntry {s : St} {a : Thread} {i : Nat} (hi : i < kMaxParticipants) (pc pc' : Pc) :
    setThread (sweepFrom (setThread (sweepEntry s i) a pc) (i + 1)) a pc' = setThread (sweepFrom s i) a pc' := by
  have hentries : (sweepFrom (setThread (sweepEntry s i) a pc) (i + 1)).entries = (sweepFrom s i).entries := by
    funext j
    by_cases e : j = i
    · subst e
      have hnot : ¬ (j + 1 ≤ j) := Nat.not_succ_le_self j
      by_cases hab : abandoned s j = true
      · simp only [sweepFrom, sweepEntry, hab, hi, hnot, setThread, setEntry_entries, if_true, false_and, if_false,
          Nat.le_refl, and_self]
      · simp only [sweepFrom, sweepEntry, hab, hnot, setThread, Bool.false_eq_true, if_false, false_and, and_false]
    · have hother : (setThread (sweepEntry s i) a pc).entries j = s.entries j := by
        unfold sweepEntry
        split
        · simp [setThread, e]
        · rfl
      have hle : i + 1 ≤ j ↔ i ≤ j := by omega
      simp only [sweepFrom, abandoned_sweepEntry e, hother, hle]
  have hrest : ∀ t u : St, t.entries = u.entries → t.processes = u.processes → t.os = u.os → t.claims = u.claims →
      t.threads = Function.update u.threads a pc → setThread t a pc' = setThread u a pc' := by
    intro t u h1 h2 h3 h4 h5
    simp [setThread, h1, h2, h3, h4, h5]
  refine hrest _ _ hentries ?_ ?_ ?_ ?_
  all_goals
    simp only [sweepFrom, sweepEntry]
    split
    · rfl
    · rfl

theorem sweepFrom_end {s : St} {i : Nat} (hi : kMaxParticipants ≤ i) : sweepFrom s i = s := by
  have hentries : (sweepFrom s i).entries = s.entries := by
    funext j
    have hnot : ¬ (i ≤ j ∧ j < kMaxParticipants ∧ abandoned s j = true) := by omega
    simp only [sweepFrom, hnot, if_false]
  exact congrArg (fun entries => ({ s with entries := entries } : St)) hentries

theorem sweep_alone {s : St} {a : Thread} {me : Identity} {claim : Bool} {i : Nat} (ha : currentProcess s a = some me)
    (hpc : s.threads a = .reclaiming claim i .state) (hi : i < kMaxParticipants) :
    Alone a s (setThread (sweepFrom s i) a (if claim then .searching 0 else .idle)) := by
  have hone := sweep_one ha hpc
  have hself : currentProcess (setThread (sweepEntry s i) a (reclaimNext claim i)) a = some me := by
    unfold sweepEntry
    split
    · exact ha
    · exact ha
  by_cases hlast : i + 1 < kMaxParticipants
  · have hnext : reclaimNext claim i = .reclaiming claim (i + 1) .state := by simp [reclaimNext, hlast]
    rw [hnext] at hone hself
    have hrest := sweep_alone hself (threads_setThread _ _ _) hlast
    rw [sweepFrom_sweepEntry hi _ _] at hrest
    exact hone.trans hrest
  · have hnext : reclaimNext claim i = if claim then .searching 0 else .idle := by simp [reclaimNext, hlast]
    rw [hnext] at hone
    have hend := sweepFrom_sweepEntry (s := s) (a := a) hi (if claim then .searching 0 else .idle)
      (if claim then .searching 0 else .idle)
    rw [sweepFrom_end (Nat.le_of_not_lt hlast), setThread_setThread] at hend
    rw [← hend]
    exact hone
termination_by kMaxParticipants - i

theorem sweepFrom_setThread (s : St) (a : Thread) (pc : Pc) (i : Nat) :
    sweepFrom (setThread s a pc) i = setThread (sweepFrom s i) a pc := rfl

/-- The whole call, alone. -/
theorem reclaim_alone {s : St} {a : Thread} {me : Identity} (ha : currentProcess s a = some me)
    (hidle : s.threads a = .idle ∨ s.threads a = .refused) :
    Completes a (.reclaimDeadParticipants a) s (setThread (sweepFrom s 0) a .idle) := by
  have hbegun : step s (.reclaimDeadParticipants a) = some (setThread s a (.reclaiming false 0 .state)) := by
    rcases hidle with hpc | hpc
    · simp [step, ha, hpc]
    · simp [step, ha, hpc]
  refine ⟨_, hbegun, ?_, ?_⟩
  · have hsweep := sweep_alone (s := setThread s a (.reclaiming false 0 .state)) ha (threads_setThread _ _ _) (by decide)
    rw [sweepFrom_setThread, setThread_setThread] at hsweep
    exact hsweep
  · have hself : currentProcess (setThread (sweepFrom s 0) a .idle) a = some me := ha
    simp [step, hself, access]

/-! ## ClaimParticipant -/

/-- Entry `i` taken by the process. -/
def claimed (me : Identity) (e : Entry) : Entry := ⟨⟨.active, nextGeneration e.state⟩, me.pid, me.startTime⟩

theorem take_alone {s : St} {a : Thread} {me : Identity} {i : Nat} (ha : currentProcess s a = some me)
    (hpc : s.threads a = .searching i) (hfree : (s.entries i).state.kind = .free) :
    ∃ t n, Alone a s t ∧ t.threads a = .holding i n ∧ currentProcess t a = some me
      ∧ ∀ j, t.entries j = if j = i then claimed me (s.entries i) else s.entries j := by
  let taken : St := { setThread (setEntry s i fun e => { e with state := ⟨.claiming, nextGeneration e.state⟩ }) a
      (.storingPid i (s.claims i + 1) ⟨.claiming, nextGeneration (s.entries i).state⟩) with
    claims := Function.update s.claims i (s.claims i + 1) }
  have htaken : Alone a s taken := by
    refine alone_access (setThread s a (.taking i (s.entries i).state)) ha ?_ ?_
    · simp [access, hpc, hfree]
    refine alone_access taken ha ?_ Relation.ReflTransGen.refl
    simp [access, setThread, setEntry, taken]
  let named := setThread (setEntry taken i fun e => { e with pid := me.pid }) a
    (.storingStartTime i (s.claims i + 1) ⟨.claiming, nextGeneration (s.entries i).state⟩)
  let dated := setThread (setEntry named i fun e => { e with startTime := me.startTime }) a
    (.activating i (s.claims i + 1) ⟨.claiming, nextGeneration (s.entries i).state⟩)
  let held := setThread (setEntry dated i fun e => { e with state := ⟨.active, nextGeneration (s.entries i).state⟩ }) a
    (.holding i (s.claims i + 1))
  refine ⟨held, s.claims i + 1, htaken.trans ?_, threads_setThread _ _ _, ha, ?_⟩
  · refine alone_access named ha (by simp [access, taken, named, setThread]) ?_
    refine alone_access dated ha (by simp [access, named, dated, setThread]) ?_
    exact alone_access held ha (by simp [access, dated, held, setThread]) Relation.ReflTransGen.refl
  · intro j
    by_cases e : j = i
    · subst e
      simp [held, dated, named, taken, setThread, claimed]
    · simp [held, dated, named, taken, setThread, e]

/-- The search takes a free entry, or finds none. -/
theorem search_alone {s : St} {a : Thread} {me : Identity} {i : Nat} (ha : currentProcess s a = some me)
    (hpc : s.threads a = .searching i) (hi : i < kMaxParticipants) :
    ∃ t, Alone a s t ∧ currentProcess t a = some me ∧
      ((∃ j n, j < kMaxParticipants ∧ (s.entries j).state.kind = .free ∧ t.threads a = .holding j n
          ∧ ∀ k, k ≠ j → t.entries k = s.entries k)
        ∨ ((∀ j, i ≤ j → j < kMaxParticipants → (s.entries j).state.kind ≠ .free) ∧ t.threads a = .refused
          ∧ t.entries = s.entries)) := by
  by_cases hfree : (s.entries i).state.kind = .free
  · obtain ⟨t, n, hrun, hholds, hself, hentries⟩ := take_alone ha hpc hfree
    refine ⟨t, hrun, hself, .inl ⟨i, n, hi, hfree, hholds, ?_⟩⟩
    intro k hk
    rw [hentries k, if_neg hk]
  · have hnext : Alone a s (setThread s a (searchNext i)) := by
      refine alone_access _ ha ?_ Relation.ReflTransGen.refl
      simp [access, hpc, hfree]
    by_cases hlast : i + 1 < kMaxParticipants
    · have hsearch : searchNext i = .searching (i + 1) := by simp [searchNext, hlast]
      rw [hsearch] at hnext
      obtain ⟨t, hrun, hself, hend⟩ :=
        search_alone (s := setThread s a (.searching (i + 1))) ha (threads_setThread _ _ _) hlast
      refine ⟨t, hnext.trans hrun, hself, ?_⟩
      rcases hend with hholds | ⟨hnone, hrefused, hentries⟩
      · exact .inl hholds
      · refine .inr ⟨?_, hrefused, hentries⟩
        intro j hij hj
        by_cases e : j = i
        · rw [e]
          exact hfree
        · exact hnone j (by omega) hj
    · have hrefused : searchNext i = .refused := by simp [searchNext, hlast]
      rw [hrefused] at hnext
      refine ⟨_, hnext, ha, .inr ⟨?_, threads_setThread _ _ _, rfl⟩⟩
      intro j hij hj
      have : j = i := by omega
      rw [this]
      exact hfree
termination_by kMaxParticipants - i

theorem claim_alone {s : St} {a : Thread} {me : Identity} (ha : currentProcess s a = some me)
    (hidle : s.threads a = .idle ∨ s.threads a = .refused) :
    ∃ t, Completes a (.claimParticipant a) s t ∧
      ((∃ j n, j < kMaxParticipants ∧ ((sweepFrom s 0).entries j).state.kind = .free ∧ t.threads a = .holding j n
          ∧ ∀ k, k ≠ j → t.entries k = (sweepFrom s 0).entries k)
        ∨ ((∀ j, j < kMaxParticipants → ((sweepFrom s 0).entries j).state.kind ≠ .free) ∧ t.threads a = .refused
          ∧ t.entries = (sweepFrom s 0).entries)) := by
  have hsweep := sweep_alone (s := setThread s a (.reclaiming true 0 .state)) ha (threads_setThread _ _ _) (by decide)
  rw [sweepFrom_setThread, setThread_setThread] at hsweep
  obtain ⟨t, hrun, hself, hend⟩ :=
    search_alone (s := setThread (sweepFrom s 0) a (.searching 0)) ha (threads_setThread _ _ _) (by decide)
  have hbegun : step s (.claimParticipant a) = some (setThread s a (.reclaiming true 0 .state)) := by
    rcases hidle with hpc | hpc
    · simp [step, ha, hpc]
    · simp [step, ha, hpc]
  have hcalled : Alone a (setThread s a (.reclaiming true 0 .state)) t := hsweep.trans hrun
  have hdone : step t (.access a) = none := by
    rcases hend with ⟨j, n, -, -, hholds, -⟩ | ⟨-, hrefused, -⟩
    · simp [step, hself, access, hholds]
    · simp [step, hself, access, hrefused]
  refine ⟨t, ⟨_, hbegun, hcalled, hdone⟩, ?_⟩
  rcases hend with hholds | ⟨hnone, hrefused, hentries⟩
  · exact .inl hholds
  · exact .inr ⟨fun j hj => hnone j (Nat.zero_le j) hj, hrefused, hentries⟩

/-! ## Where an entry is claiming -/

/-- The entry a thread works on is one of the table. -/
def entryOf : Pc → Option Nat
  | .reclaiming _ i _ | .searching i | .taking i _ | .storingPid i _ _ | .storingStartTime i _ _ | .activating i _ _
  | .holding i _ | .releasing i _ | .clearingPid i _ _ | .clearingStartTime i _ _ | .freeing i _ _ => some i
  | .idle | .refused => none

def InTable (pc : Pc) : Prop := ∀ i, entryOf pc = some i → i < kMaxParticipants

theorem reclaimNext_inTable (claim : Bool) (i : Nat) : InTable (reclaimNext claim i) := by
  intro j hj
  unfold reclaimNext at hj
  split at hj
  · cases hj
    assumption
  · split at hj
    · cases hj
      decide
    · cases hj

theorem searchNext_inTable (i : Nat) : InTable (searchNext i) := by
  intro j hj
  unfold searchNext at hj
  split at hj
  · cases hj
    assumption
  · cases hj

/-- An access stays with its entry or goes on to another of the table. -/
theorem access_inTable {s t : St} {a : Thread} {me : Identity} (h : InTable (s.threads a))
    (hs : access s a me = some t) : ∃ pc, t.threads = Function.update s.threads a pc ∧ InTable pc := by
  unfold access at hs
  split at hs
  · rename_i claim i hpc
    cases hs
    refine ⟨_, rfl, ?_⟩
    split
    · rw [hpc] at h
      exact h
    · exact reclaimNext_inTable claim i
  · rename_i hpc
    cases hs
    exact ⟨_, rfl, by rw [hpc] at h; exact h⟩
  · rename_i hpc
    cases hs
    exact ⟨_, rfl, by rw [hpc] at h; exact h⟩
  · rename_i claim i l pid startTime hpc
    cases hs
    refine ⟨_, rfl, ?_⟩
    split
    · exact reclaimNext_inTable claim i
    · rw [hpc] at h
      exact h
  · split at hs
    · cases hs
      exact ⟨_, rfl, reclaimNext_inTable _ _⟩
    · cases hs
      exact ⟨_, rfl, reclaimNext_inTable _ _⟩
  · rename_i i hpc
    cases hs
    refine ⟨_, rfl, ?_⟩
    split
    · rw [hpc] at h
      exact h
    · exact searchNext_inTable i
  · rename_i i word hpc
    dsimp only at hs
    split at hs
    · cases hs
      exact ⟨_, rfl, by rw [hpc] at h; exact h⟩
    · cases hs
      exact ⟨_, rfl, searchNext_inTable i⟩
  · rename_i hpc
    cases hs
    exact ⟨_, rfl, by rw [hpc] at h; exact h⟩
  · rename_i hpc
    cases hs
    exact ⟨_, rfl, by rw [hpc] at h; exact h⟩
  · rename_i hpc
    cases hs
    exact ⟨_, rfl, by rw [hpc] at h; exact h⟩
  · rename_i hpc
    cases hs
    exact ⟨_, rfl, by rw [hpc] at h; exact h⟩
  · rename_i hpc
    cases hs
    exact ⟨_, rfl, by rw [hpc] at h; exact h⟩
  · rename_i hpc
    cases hs
    exact ⟨_, rfl, by rw [hpc] at h; exact h⟩
  · cases hs
    exact ⟨_, rfl, fun _ hj => (by cases hj)⟩
  · cases hs
  · cases hs
  · cases hs

theorem step_inTable {s t : St} {act : Act} (h : ∀ a, InTable (s.threads a)) (hs : step s act = some t) :
    ∀ a, InTable (t.threads a) := by
  have hset : ∀ a pc, InTable pc → ∀ b, InTable (Function.update s.threads a pc b) := by
    intro a pc hpc b
    by_cases e : b = a
    · subst e
      rw [Function.update_self]
      exact hpc
    · rw [Function.update_of_ne e]
      exact h b
  have hstart : ∀ claim, InTable (.reclaiming claim 0 .state) := by
    intro claim i hi
    cases hi
    decide
  cases act with
  | spawn p identity =>
    simp only [step] at hs
    split at hs
    · cases hs
      exact h
    · cases hs
  | die p =>
    obtain ⟨identity, -, rfl⟩ := Option.map_eq_some_iff.mp hs
    exact h
  | claimParticipant a | reclaimDeadParticipants a =>
    obtain ⟨me, -, hs⟩ := Option.bind_eq_some_iff.mp hs
    split at hs
    · cases hs
      exact hset a _ (hstart _)
    · cases hs
      exact hset a _ (hstart _)
    · cases hs
  | releaseParticipant a =>
    obtain ⟨me, -, hs⟩ := Option.bind_eq_some_iff.mp hs
    split at hs
    · rename_i i n hpc
      cases hs
      refine hset a _ ?_
      have ha := h a
      rw [hpc] at ha
      split
      · exact fun _ hj => (by cases hj)
      · exact ha
    · cases hs
  | access a =>
    obtain ⟨me, -, hs⟩ := Option.bind_eq_some_iff.mp hs
    obtain ⟨pc, hthreads, hpc⟩ := access_inTable (h a) hs
    rw [hthreads]
    exact hset a pc hpc

theorem reach_inTable {s : St} {ok : St → Act → Prop} (h : Reach step ok (· = init) s) :
    ∀ a, InTable (s.threads a) := by
  refine h.invariant (I := fun s => ∀ a, InTable (s.threads a)) ?_ fun s act t hi _ hs => step_inTable hi hs
  rintro s rfl a i hi
  cases hi

theorem entryOf_ticket {pc : Pc} {i n : Nat} (h : ticket pc = some (i, n)) : entryOf pc = some i := by
  cases pc with
  | storingPid | storingStartTime | activating | holding | releasing | clearingPid | clearingStartTime | freeing =>
    cases h
    rfl
  | _ => cases h

/-- The newest claim of an entry: the entry is claiming exactly until the claim is completed. -/
def ClaimingOk (s : St) : Prop :=
  ∀ b i n, ticket (s.threads b) = some (i, n) → s.claims i = n →
    ((s.entries i).state.kind = .claiming ↔ claimer (s.threads b) = some (i, n))

/-- A move of thread `a` that leaves the claims, and the kinds of entries with a newest claim, as they are. -/
theorem ClaimingOk.frame {s t : St} {a : Thread} {pc : Pc} (h : ClaimingOk s)
    (hthreads : t.threads = Function.update s.threads a pc) (hclaims : t.claims = s.claims)
    (hkind : ∀ b i n, b ≠ a → ticket (s.threads b) = some (i, n) → s.claims i = n →
      ((t.entries i).state.kind = .claiming ↔ (s.entries i).state.kind = .claiming))
    (hself : ∀ i n, ticket pc = some (i, n) → s.claims i = n →
      ((t.entries i).state.kind = .claiming ↔ claimer pc = some (i, n))) : ClaimingOk t := by
  intro b i n hb hn
  rw [hclaims] at hn
  rw [hthreads] at hb ⊢
  by_cases e : b = a
  · subst e
    rw [Function.update_self] at hb ⊢
    exact hself i n hb hn
  · rw [Function.update_of_ne e] at hb ⊢
    exact (hkind b i n e hb hn).trans (h b i n hb hn)

/-- A move that leaves every state word alone. -/
theorem ClaimingOk.keep {s t : St} {a : Thread} {pc : Pc} (h : ClaimingOk s)
    (hthreads : t.threads = Function.update s.threads a pc) (hclaims : t.claims = s.claims)
    (hstates : ∀ i, (t.entries i).state = (s.entries i).state)
    (hpc : ∀ tk, ticket pc = some tk → ticket (s.threads a) = some tk ∧ claimer pc = claimer (s.threads a)) :
    ClaimingOk t := by
  refine h.frame hthreads hclaims ?_ ?_
  · intro b i n _ _ _
    rw [hstates]
  · intro i n ht hn
    obtain ⟨hold, hsame⟩ := hpc _ ht
    rw [hstates, hsame]
    exact h a i n hold hn

theorem setEntry_state {s : St} {i j : Nat} {f : Entry → Entry} (hf : ∀ e, (f e).state = e.state) :
    ((setEntry s i f).entries j).state = (s.entries j).state := by
  rw [setEntry_entries]
  split
  · rename_i e
    rw [hf, e]
  · rfl

theorem ticket_searchNext (i : Nat) : ticket (searchNext i) = none := by
  unfold searchNext
  split
  · rfl
  · rfl

theorem ticket_reclaimNext (claim : Bool) (i : Nat) : ticket (reclaimNext claim i) = none := by
  unfold reclaimNext
  split
  · rfl
  · split
    · rfl
    · rfl

/-- A thread goes to where it holds no ticket. -/
theorem ClaimingOk.plain {s : St} {a : Thread} {pc : Pc} (h : ClaimingOk s) (hpc : ticket pc = none) :
    ClaimingOk (setThread s a pc) := by
  refine h.keep rfl rfl (fun _ => rfl) ?_
  intro tk ht
  rw [hpc] at ht
  cases ht

/-- A thread stores to a word that is not the state, and keeps its ticket. -/
theorem ClaimingOk.store {s : St} {a : Thread} {pc : Pc} (h : ClaimingOk s) (i : Nat) {f : Entry → Entry}
    (hf : ∀ e, (f e).state = e.state) (hticket : ticket pc = ticket (s.threads a))
    (hclaimer : claimer pc = claimer (s.threads a)) : ClaimingOk (setThread (setEntry s i f) a pc) := by
  refine h.keep rfl rfl (fun _ => setEntry_state hf) ?_
  intro tk ht
  rw [hticket] at ht
  exact ⟨ht, hclaimer⟩

/-- A thread with the newest claim of entry `i` writes its state; other newest claims are of other entries. -/
theorem ClaimingOk.write {s : St} {a : Thread} {pc : Pc} {i n : Nat} (h : ClaimingOk s) (hi : Inv s)
    (ha : ticket (s.threads a) = some (i, n)) (hnewest : s.claims i = n) (f : Entry → Entry)
    (hself : ∀ j m, ticket pc = some (j, m) → s.claims j = m →
      (((setEntry s i f).entries j).state.kind = .claiming ↔ claimer pc = some (j, m))) :
    ClaimingOk (setThread (setEntry s i f) a pc) := by
  refine h.frame rfl rfl ?_ hself
  intro b j m hne hb hm
  have hj : j ≠ i := by
    rintro rfl
    obtain rfl : m = n := hm.symm.trans hnewest
    exact hne (hi.unique b a _ hb ha)
  show ((setEntry s i f).entries j).state.kind = .claiming ↔ _
  rw [setEntry_entries, if_neg hj]

/-- The compare-exchange of a claim: it is the newest of its entry, and nobody else's is. -/
theorem ClaimingOk.taken {s : St} {a : Thread} {i : Nat} {claiming : Word} (h : ClaimingOk s) (hi : Inv s)
    (hkind : claiming.kind = .claiming) :
    ClaimingOk { setThread (setEntry s i fun e => { e with state := claiming }) a
        (.storingPid i (s.claims i + 1) claiming) with
      claims := Function.update s.claims i (s.claims i + 1) } := by
  intro b j n hb hn
  by_cases e : b = a
  · subst e
    simp only [setThread, Function.update_self, ticket, Option.some.injEq, Prod.mk.injEq] at hb
    obtain ⟨rfl, rfl⟩ := hb
    simp [setThread, claimer, hkind]
  · simp only [setThread, Function.update_of_ne e] at hb ⊢
    have hle := hi.tickets b j n hb
    by_cases ej : j = i
    · subst ej
      simp only [Function.update_self] at hn
      omega
    · simp only [Function.update_of_ne ej] at hn
      rw [setEntry_entries, if_neg ej]
      exact h b j n hb hn

theorem access_claimingOk {s t : St} {a : Thread} {me : Identity} (hi : Inv s) (h : ClaimingOk s)
    (ha : currentProcess s a = some me) (hown : ownRelease s (.access a)) (hs : access s a me = some t) :
    ClaimingOk t := by
  have hok := hi.threads a me ha
  unfold access at hs
  split at hs
  · cases hs
    refine h.plain ?_
    split
    · rfl
    · exact ticket_reclaimNext _ _
  · cases hs
    exact h.plain rfl
  · cases hs
    exact h.plain rfl
  · cases hs
    refine h.plain ?_
    split
    · exact ticket_reclaimNext _ _
    · rfl
  · rename_i claim i l hpc
    split at hs
    · -- only an active entry is freed
      rename_i hword
      cases hs
      rw [hpc] at hok
      have hactive : (s.entries i).state.kind = .active := by rw [hword]; exact hok.1.active
      refine h.frame rfl rfl ?_ ?_
      · intro b j n _ _ _
        by_cases e : j = i
        · subst e
          simp [setThread, hactive]
        · simp [setThread, e]
      · intro j n ht
        rw [ticket_reclaimNext] at ht
        cases ht
    · cases hs
      exact h.plain (ticket_reclaimNext _ _)
  · cases hs
    refine h.plain ?_
    split
    · rfl
    · exact ticket_searchNext _
  · rename_i i word hpc
    dsimp only at hs
    split at hs
    · cases hs
      exact h.taken hi rfl
    · cases hs
      exact h.plain (ticket_searchNext _)
  · rename_i i n claiming hpc
    cases hs
    exact h.store i (fun _ => rfl) (by rw [hpc]; rfl) (by rw [hpc]; rfl)
  · rename_i i n claiming hpc
    cases hs
    exact h.store i (fun _ => rfl) (by rw [hpc]; rfl) (by rw [hpc]; rfl)
  · rename_i i n claiming hpc
    cases hs
    rw [hpc] at hok
    refine h.write hi (by rw [hpc]; rfl) hok.1 _ ?_
    intro j m ht _
    cases ht
    simp [claimer]
  · rename_i i n hpc
    cases hs
    refine h.keep rfl rfl (fun _ => rfl) fun tk ht => ?_
    rw [hpc]
    exact ⟨ht, rfl⟩
  · rename_i i n word hpc
    cases hs
    exact h.store i (fun _ => rfl) (by rw [hpc]; rfl) (by rw [hpc]; rfl)
  · rename_i i n word hpc
    cases hs
    exact h.store i (fun _ => rfl) (by rw [hpc]; rfl) (by rw [hpc]; rfl)
  · rename_i i n word hpc
    cases hs
    have hnewest : s.claims i = n := by simpa only [ownRelease, hpc] using hown
    exact h.write hi (by rw [hpc]; rfl) hnewest _ fun j m ht => (by cases ht)
  · cases hs
  · cases hs
  · cases hs

theorem step_claimingOk {s t : St} {act : Act} (hi : Inv s) (h : ClaimingOk s) (hown : ownRelease s act)
    (hs : step s act = some t) : ClaimingOk t := by
  cases act with
  | spawn p identity =>
    simp only [step] at hs
    split at hs
    · cases hs
      exact h
    · cases hs
  | die p =>
    obtain ⟨identity, -, rfl⟩ := Option.map_eq_some_iff.mp hs
    exact h
  | claimParticipant a | reclaimDeadParticipants a =>
    obtain ⟨me, -, hs⟩ := Option.bind_eq_some_iff.mp hs
    split at hs
    · cases hs
      exact h.plain rfl
    · cases hs
      exact h.plain rfl
    · cases hs
  | releaseParticipant a =>
    obtain ⟨me, -, hs⟩ := Option.bind_eq_some_iff.mp hs
    split at hs
    · rename_i i n hpc
      cases hs
      split
      · exact h.plain rfl
      · refine h.keep rfl rfl (fun _ => rfl) fun tk ht => ?_
        rw [hpc]
        exact ⟨ht, rfl⟩
    · cases hs
  | access a =>
    obtain ⟨me, ha, hs⟩ := Option.bind_eq_some_iff.mp hs
    exact access_claimingOk hi h ha hown hs

/-- Without stale releases, an entry's newest claim left it claiming exactly when its
    thread stopped between the compare-exchange and the activation. -/
theorem claiming_iff {s : St} (h : Reach step (fun s a => noWrap s a ∧ ownRelease s a) (· = init) s) : ClaimingOk s := by
  refine h.invariant_reach ?_ fun s act t hr hc hok hs => step_claimingOk (inv hr) hc hok.2 hs
  rintro s rfl b i n hb
  cases hb

/-! ## The entries of dead processes -/

/-- What a reclaim makes free, or finds free. -/
def reclaimable (s : St) (i : Nat) : Bool := decide ((s.entries i).state.kind = .free) || abandoned s i

theorem sweepFrom_free {s : St} {i : Nat} (hi : i < kMaxParticipants) :
    ((sweepFrom s 0).entries i).state.kind = .free ↔ reclaimable s i = true := by
  cases hab : abandoned s i with
  | true => simp [sweepFrom, hi, hab, reclaimable, freed]
  | false => simp [sweepFrom, hab, reclaimable]

/-- Entry `i` is still the one that the dead process of thread `b` took, or was about to. -/
structure LeftBehind (s : St) (b : Thread) (i : Nat) : Prop where
  dead : currentProcess s b = none
  newest : ticket (s.threads b) = some (i, s.claims i)

theorem entries_of_the_dead_are_reclaimed_iff {s : St} (h : Reach step anyMove (· = init) s) {a b : Thread}
    {me : Identity} {i : Nat} (ha : currentProcess s a = some me)
    (hidle : s.threads a = .idle ∨ s.threads a = .refused) (hb : LeftBehind s b i) :
    ((∃ t, Completes a (.reclaimDeadParticipants a) s t)
        ∧ ∀ t, Completes a (.reclaimDeadParticipants a) s t →
          ((t.entries i).state.kind = .free ↔ reclaimable s i = true))
      ∧ ((∃ t, Completes a (.claimParticipant a) s t)
        ∧ ∀ t, Completes a (.claimParticipant a) s t →
          (((t.entries i).state.kind = .free ∨ ∃ m, t.threads a = .holding i m) ↔ reclaimable s i = true)
            ∧ (t.threads a = .refused ↔ ∀ j < kMaxParticipants, reclaimable s j = false))
      ∧ (Reach step (fun s a => noWrap s a ∧ ownRelease s a) (· = init) s →
        (reclaimable s i = false ↔ claimer (s.threads b) = some (i, s.claims i)
          ∨ ((s.entries i).state.kind = .active
            ∧ isProcessAlive s ⟨(s.entries i).pid, (s.entries i).startTime⟩ = true))) := by
  have hi : i < kMaxParticipants := reach_inTable h b i (entryOf_ticket hb.newest)
  refine ⟨⟨⟨_, reclaim_alone ha hidle⟩, ?_⟩, ?_, ?_⟩
  · intro t ht
    rw [completes_unique ht (reclaim_alone ha hidle)]
    exact sweepFrom_free hi
  · obtain ⟨u, hu, hend⟩ := claim_alone ha hidle
    refine ⟨⟨u, hu⟩, fun t ht => ?_⟩
    rw [completes_unique ht hu]
    rcases hend with ⟨j, n, hj, hfree, hholds, hothers⟩ | ⟨hnone, hrefused, hentries⟩
    · constructor
      · by_cases e : i = j
        · subst e
          simp only [hholds, Pc.holding.injEq, true_and, exists_eq', or_true, true_iff]
          exact (sweepFrom_free hi).mp hfree
        · have hne : ¬ ∃ m, u.threads a = .holding i m := by
            intro h
            obtain ⟨m, hm⟩ := h
            rw [hholds] at hm
            cases hm
            exact e rfl
          rw [hothers i e, or_iff_left hne]
          exact sweepFrom_free hi
      · refine ⟨fun hr => ?_, fun hall => ?_⟩
        · rw [hholds] at hr
          cases hr
        · have := (sweepFrom_free hj).mp hfree
          rw [hall j hj] at this
          cases this
    · constructor
      · have hne : ¬ ∃ m, u.threads a = .holding i m := by
          intro h
          obtain ⟨m, hm⟩ := h
          rw [hrefused] at hm
          cases hm
        rw [hentries, or_iff_left hne]
        exact sweepFrom_free hi
      · refine ⟨fun _ j hj => ?_, fun _ => hrefused⟩
        rw [← Bool.not_eq_true, ← sweepFrom_free hj]
        exact hnone j hj
  · intro hclean
    rw [← claiming_iff hclean b i _ hb.newest rfl]
    cases hk : (s.entries i).state.kind with
    | free => simp [reclaimable, hk]
    | claiming => simp [reclaimable, abandoned, hk]
    | active => simp [reclaimable, abandoned, hk]

/-- Process 1 claims entry 0 and dies while it holds it; process 2 is there. -/
def crashHolding : List Act :=
  [Act.spawn 1 ⟨10, 100⟩, .spawn 2 ⟨20, 200⟩, .claimParticipant (1, 0)] ++ accesses (1, 0) 69 ++ [Act.die 1]

def leftActive (s : St) : Bool :=
  decide (currentProcess s (2, 0) = some ⟨20, 200⟩ ∧ s.threads (2, 0) = .idle ∧ currentProcess s (1, 0) = none
    ∧ ticket (s.threads (1, 0)) = some (0, s.claims 0)) && reclaimable s 0

theorem a_crashed_holder_is_reclaimed :
    ∃ s t, LeftBehind s (1, 0) 0 ∧ Completes (2, 0) (.reclaimDeadParticipants (2, 0)) s t
      ∧ (t.entries 0).state.kind = .free := by
  obtain ⟨s, hs, hp⟩ : ∃ s, Reach step anyMove (· = init) s ∧ leftActive s = true :=
    reach_of_run crashHolding leftActive rfl (by decide +kernel)
  obtain ⟨hfacts, hreclaimable⟩ := Bool.and_eq_true_iff.mp hp
  obtain ⟨ha, hidle, hdead, hnewest⟩ := of_decide_eq_true hfacts
  have hleft : LeftBehind s (1, 0) 0 := ⟨hdead, hnewest⟩
  obtain ⟨⟨⟨t, ht⟩, hiff⟩, -⟩ := entries_of_the_dead_are_reclaimed_iff hs ha (.inl hidle) hleft
  exact ⟨s, t, hleft, ht, (hiff t ht).mpr hreclaimable⟩

/-- Process 1 dies right after the compare-exchange that takes entry 0. -/
def crashClaiming : List Act :=
  [Act.spawn 1 ⟨10, 100⟩, .spawn 2 ⟨20, 200⟩, .claimParticipant (1, 0)] ++ accesses (1, 0) 66 ++ [Act.die 1]

def leftClaiming (s : St) : Bool :=
  decide (currentProcess s (2, 0) = some ⟨20, 200⟩ ∧ s.threads (2, 0) = .idle ∧ currentProcess s (1, 0) = none
    ∧ ticket (s.threads (1, 0)) = some (0, s.claims 0) ∧ (s.entries 0).state.kind = .claiming)

theorem a_crash_inside_a_claim_is_never_reclaimed :
    ∃ s t, Reach step anyMove (· = init) s ∧ LeftBehind s (1, 0) 0 ∧ currentProcess s (2, 0) = some ⟨20, 200⟩
      ∧ Completes (2, 0) (.reclaimDeadParticipants (2, 0)) s t ∧ (t.entries 0).state.kind = .claiming := by
  obtain ⟨s, hs, hp⟩ : ∃ s, Reach step anyMove (· = init) s ∧ leftClaiming s = true :=
    reach_of_run crashClaiming leftClaiming rfl (by decide +kernel)
  obtain ⟨ha, hidle, hdead, hnewest, hclaiming⟩ := of_decide_eq_true hp
  refine ⟨s, _, hs, ⟨hdead, hnewest⟩, ha, reclaim_alone ha (.inl hidle), ?_⟩
  have hkept : abandoned s 0 = false := by simp [abandoned, hclaiming]
  simp [sweepFrom, setThread, hkept, hclaiming]

end PuppetMaster.Shm.Participants
