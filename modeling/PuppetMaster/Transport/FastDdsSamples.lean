/-
  PuppetMaster.Transport.FastDdsSamples — what becomes of the samples of a FastDDS reader (see
  `PuppetMaster.Transport.FastDdsReads`).

  - `reads_account`: each sample that came is delivered once, in the hands of a Read, in the
    queue, or dropped, and the sequences of what was delivered are 1, 2, 3 and so on.
  - `reads_in_order`: what is delivered is delivered in the order in which it came, as long as
    no callback reads. A Read in a callback takes without `entity_mutex`, so it can overtake
    one that has a sample in its hands (`a_callback_overtakes`).
-/

import PuppetMaster.Transport.FastDdsReadsProofs

namespace PuppetMaster.FastDds.Reads

open PuppetMaster.Core PuppetMaster.Lib

/-! ## Every sample is accounted for -/

def ReadPc.held : ReadPc → Option Sample
  | .taken _ sample => some sample
  | _ => none

/-- The samples in the hands of a Read, which were taken and are not numbered yet. -/
def ReaderState.hands (s : ReaderState) : List Sample := s.threads.filterMap ReadPc.held

/-- All that is known of the samples. -/
def ReaderState.known (s : ReaderState) : List Sample :=
  s.delivered.map (·.sample) ++ s.hands ++ s.queue ++ s.skipped ++ s.dropped

structure Accounts (s : ReaderState) : Prop where
  came : ∃ came : List Sample, came.map (·.arrival) = List.range s.arrivals ∧ s.known.Perm came
  sequences : s.delivered.map (·.sequence) = List.range' 1 s.sequence
  valid : (∀ message ∈ s.delivered, message.sample.valid = true) ∧ ∀ sample ∈ s.hands, sample.valid = true
  skipped : ∀ sample ∈ s.skipped, sample.valid = false
  answered : ∀ message, .outside (some (.ok message)) ∈ s.threads → message ∈ s.delivered

theorem Goes.held {s : ReaderState} {i : Nat} {move : Move} {pc pc' : ReadPc} (h : Goes s i move pc pc') :
    pc'.held = pc.held ∧ ∀ message, pc' ≠ .outside (some (.ok message)) := by
  cases h <;> exact ⟨rfl, fun message => by simp⟩

/-- A move that leaves the samples where they are. -/
theorem Accounts.kept {s t : ReaderState} (h : Accounts s) (hdelivered : t.delivered = s.delivered) (hhands : t.hands = s.hands)
    (hqueue : t.queue = s.queue) (hskipped : t.skipped = s.skipped) (hdropped : t.dropped = s.dropped)
    (harrivals : t.arrivals = s.arrivals) (hsequence : t.sequence = s.sequence)
    (hthreads : ∀ message, .outside (some (.ok message)) ∈ t.threads →
      .outside (some (.ok message)) ∈ s.threads) : Accounts t := by
  have hknown : t.known = s.known := by
    rw [ReaderState.known, ReaderState.known, hdelivered, hhands, hqueue, hskipped, hdropped]
  refine ⟨?_, ?_, ?_, ?_, fun message hmem => ?_⟩
  · rw [hknown, harrivals]
    exact h.came
  · rw [hdelivered, hsequence]
    exact h.sequences
  · rw [hdelivered, hhands]
    exact h.valid
  · rw [hskipped]
    exact h.skipped
  · rw [hdelivered]
    exact h.answered message (hthreads message hmem)

theorem set_answer {threads : List ReadPc} {i : Nat} {pc : ReadPc} {message : Message}
    (hpc : ∀ message, pc ≠ .outside (some (.ok message))) (hmem : .outside (some (.ok message)) ∈ threads.set i pc) :
    .outside (some (.ok message)) ∈ threads :=
  (List.mem_or_eq_of_mem_set hmem).resolve_right fun heq => hpc message heq.symm

theorem wake_held (threads : List ReadPc) : (threads.map ReadPc.wake).filterMap ReadPc.held = threads.filterMap ReadPc.held := by
  rw [List.filterMap_map]
  refine List.filterMap_congr fun pc _ => ?_
  cases pc <;> rfl

theorem wake_answer {threads : List ReadPc} {message : Message}
    (hmem : .outside (some (.ok message)) ∈ threads.map ReadPc.wake) : .outside (some (.ok message)) ∈ threads := by
  obtain ⟨pc, hpc, hwake⟩ := List.mem_map.mp hmem
  cases pc with
  | outside a => exact hwake ▸ hpc
  | _ => cases hwake

theorem Accounts.step {s t : ReaderState} {move : Move} (h : Accounts s) (hstep : Step s move t) : Accounts t := by
  obtain ⟨came, hcame, hperm⟩ := h.came
  cases hstep with
  | goes hi hgoes =>
    exact h.kept rfl (filterMap_set_eq hi hgoes.held.1) rfl rfl rfl rfl rfl fun _ => set_answer hgoes.held.2
  | locks hi hout hfree hattached =>
    exact h.kept rfl (filterMap_set_eq hi rfl) rfl rfl rfl rfl rfl fun _ => set_answer (fun _ => ReadPc.noConfusion)
  | misses hi hmay hqueue hwait =>
    exact h.kept rfl (filterMap_set_eq hi rfl) rfl rfl rfl rfl rfl fun _ => set_answer (fun _ => ReadPc.noConfusion)
  | returns hi hmay hqueue hwait =>
    exact h.kept rfl (filterMap_set_eq hi rfl) rfl rfl rfl rfl rfl fun _ => set_answer (fun _ => by simp)
  | takes hi hmay hqueue hvalid =>
    rename_i i o g sample rest
    have hhands : (ReaderState.hands { s with queue := rest, threads := s.threads.set i (.taken o sample) }).Perm
      (sample :: s.hands) :=
      filterMap_set_perm (f := ReadPc.held) _ hi
    refine ⟨⟨came, hcame, List.Perm.trans ?_ hperm⟩, h.sequences, ⟨h.valid.1, fun other hmem => ?_⟩, h.skipped,
      fun message hmem => h.answered message (set_answer (fun _ => ReadPc.noConfusion) hmem)⟩
    · simp only [ReaderState.known, hqueue]
      refine (List.Perm.append_right _ (List.Perm.append_right _ ?_))
      refine ((hhands.append_left _).append_right rest).trans ?_
      simp only [List.append_assoc, List.cons_append]
      exact List.Perm.append_left _ (List.perm_middle.symm)
    · rcases List.mem_cons.mp (hhands.mem_iff.mp hmem) with rfl | hmem
      · exact hvalid
      · exact h.valid.2 other hmem
  | skips hi hmay hqueue hinvalid =>
    rename_i i o g sample rest
    refine ⟨⟨came, hcame, List.Perm.trans ?_ hperm⟩, h.sequences, h.valid, fun other hmem => ?_, h.answered⟩
    · simp only [ReaderState.known, ReaderState.hands, hqueue, List.append_assoc, List.cons_append]
      refine List.Perm.append_left _ (List.Perm.append_left _ ?_)
      rw [← List.append_assoc, ← List.append_assoc]
      exact List.perm_middle
    · rcases List.mem_append.mp hmem with hmem | hmem
      · exact h.skipped other hmem
      · rw [List.mem_singleton.mp hmem]
        exact hinvalid
  | numbers hi =>
    rename_i i o sample
    have hhands : (sample :: ReaderState.hands { s with
        threads := s.threads.set i (.outside (some (.ok ⟨s.sequence + 1, sample⟩))) }).Perm s.hands :=
      filterMap_set_perm (f := ReadPc.held) _ hi
    have hin : sample ∈ s.hands := List.mem_filterMap.mpr ⟨_, List.mem_of_getElem? hi, rfl⟩
    refine ⟨⟨came, hcame, List.Perm.trans ?_ hperm⟩, ?_, ⟨fun message hmem => ?_, fun other hmem => ?_⟩, h.skipped,
      fun message hmem => ?_⟩
    · show ((s.delivered ++ [(⟨s.sequence + 1, sample⟩ : Message)]).map (·.sample) ++
        ReaderState.hands { s with threads := s.threads.set i (.outside (some (.ok ⟨s.sequence + 1, sample⟩))) } ++
          s.queue ++ s.skipped ++ s.dropped).Perm s.known
      simp only [ReaderState.known, List.map_append, List.map_cons, List.map_nil, List.append_assoc]
      refine List.Perm.append_left _ ?_
      rw [← List.append_assoc]
      exact hhands.append_right _
    · simp only [ReaderState.setThread, ReaderState.unlock, List.map_append, h.sequences, List.map_cons, List.map_nil,
        List.range'_concat, Nat.one_mul]
      rw [Nat.add_comm]
    · rcases List.mem_append.mp hmem with hmem | hmem
      · exact h.valid.1 message hmem
      · rw [List.mem_singleton.mp hmem]
        exact h.valid.2 sample hin
    · exact h.valid.2 other (hhands.mem_iff.mp (List.mem_cons_of_mem _ hmem))
    · rcases List.mem_or_eq_of_mem_set hmem with hmem | heq
      · exact List.mem_append_left _ (h.answered message hmem)
      · cases heq
        exact List.mem_append_right _ (List.mem_singleton_self _)
  | setsCallback =>
    split
    · exact h
    · exact h.kept rfl rfl rfl rfl rfl rfl rfl fun _ => id
  | arrives hopen hlistener =>
    rename_i payload valid
    refine ⟨⟨came ++ [{ arrival := s.arrivals, payload, valid }], ?_, ?_⟩, h.sequences, h.valid, h.skipped, h.answered⟩
    · rw [List.map_append, hcame, List.range_succ]
      rfl
    · refine List.Perm.trans ?_ (hperm.append_right _)
      simp only [ReaderState.known, ReaderState.hands, List.append_assoc]
      refine List.Perm.append_left _ (List.Perm.append_left _ (List.Perm.append_left _ ?_))
      rw [← List.append_assoc s.skipped]
      exact List.perm_append_comm
  | drops hqueue =>
    rename_i sample rest
    refine ⟨⟨came, hcame, List.Perm.trans ?_ hperm⟩, h.sequences, h.valid, h.skipped, h.answered⟩
    simp only [ReaderState.known, ReaderState.hands, hqueue, List.append_assoc, List.cons_append]
    refine List.Perm.append_left _ (List.Perm.append_left _ ?_)
    have hmove : (rest ++ (s.skipped ++ (s.dropped ++ [sample]))) = (rest ++ s.skipped ++ s.dropped) ++ [sample] := by
      simp only [List.append_assoc]
    rw [hmove]
    exact List.perm_append_comm.trans (by simp)
  | passes hi hclosed => exact h.kept rfl rfl rfl rfl rfl rfl rfl fun _ => id
  | hears hi hopen hcloser hlistener => exact h.kept rfl rfl rfl rfl rfl rfl rfl fun _ => id
  | notifies hlistener => exact h.kept rfl (wake_held _) rfl rfl rfl rfl rfl fun _ => wake_answer
  | heard hlistener hi => exact h.kept rfl rfl rfl rfl rfl rfl rfl fun _ => id
  | closes hidle => exact h.kept rfl rfl rfl rfl rfl rfl rfl fun _ => id
  | notifiesClosed hclosed => exact h.kept rfl (wake_held _) rfl rfl rfl rfl rfl fun _ => wake_answer
  | detaches hnotified hfree => exact h.kept rfl rfl rfl rfl rfl rfl rfl fun _ => id
  | deletes hdetached hlistener => exact h.kept rfl rfl rfl rfl rfl rfl rfl fun _ => id

/-- A message is delivered in the step in which a Read returns it. -/
theorem delivered_of_step {s t : ReaderState} {move : Move} (hstep : Step s move t) :
    t.delivered = s.delivered
      ∨ ∃ (i : Nat) (message : Message), t.delivered = s.delivered ++ [message]
      ∧ t.threads[i]? = some (ReadPc.outside (some (.ok message))) := by
  cases hstep with
  | numbers hi =>
    rename_i i o sample
    refine .inr ⟨i, ⟨s.sequence + 1, sample⟩, rfl, ?_⟩
    exact List.getElem?_set_self (List.getElem?_eq_some_iff.mp hi).1
  | setsCallback => split <;> exact .inl rfl
  | _ => exact .inl rfl

/-- What came is delivered, in the hands of a Read, in the queue, skipped as it had no data, or
dropped by DDS, and each sample is in one of these places once. The sequences of what was
delivered are 1, 2, 3 and so on, and what is delivered is what Reads return. -/
theorem reads_account {ok : ReaderState → Move → Prop} {s : ReaderState} (h : Reached ok s) :
    ((s.delivered.map (·.sample) ++ s.hands ++ s.queue ++ s.skipped ++ s.dropped).map (·.arrival)).Perm (List.range s.arrivals) ∧
      s.delivered.map (·.sequence) = List.range' 1 s.delivered.length ∧
      (∀ message ∈ s.delivered, message.sample.valid = true) ∧ (∀ sample ∈ s.skipped, sample.valid = false) ∧
      (∀ message, .outside (some (.ok message)) ∈ s.threads → message ∈ s.delivered) ∧
      ∀ move t, step s move = some t → t.delivered = s.delivered ∨
        ∃ (i : Nat) (message : Message), t.delivered = s.delivered ++ [message]
        ∧ t.threads[i]? = some (ReadPc.outside (some (.ok message))) := by
  have haccounts : Accounts s := by
    refine Reach.invariant ?_ (fun s move t haccounts _ hstep => haccounts.step (step_cases hstep)) h
    rintro s ⟨n, rfl⟩
    have hhands : (List.replicate n (ReadPc.outside none)).filterMap ReadPc.held = [] :=
      List.filterMap_eq_nil_iff.mpr fun pc hmem => by rw [List.eq_of_mem_replicate hmem]; rfl
    refine ⟨⟨[], rfl, ?_⟩, rfl, ⟨fun _ hmem => (nomatch hmem), fun sample hmem => ?_⟩, fun _ hmem => (nomatch hmem),
      fun message hmem => ?_⟩
    · simp only [ReaderState.known, ReaderState.hands, hhands]
      exact List.Perm.refl _
    · rw [ReaderState.hands, hhands] at hmem
      cases hmem
    · have heq := List.eq_of_mem_replicate hmem
      cases heq
  obtain ⟨came, hcame, hperm⟩ := haccounts.came
  have hlength : s.sequence = s.delivered.length := by
    have hlengths := congrArg List.length haccounts.sequences
    rw [List.length_map, List.length_range'] at hlengths
    exact hlengths.symm
  refine ⟨?_, hlength ▸ haccounts.sequences, haccounts.valid.1, haccounts.skipped, haccounts.answered,
    fun move t hstep => delivered_of_step (step_cases hstep)⟩
  rw [← hcame]
  exact hperm.map _

/-- Two samples are read, one is skipped and one is dropped. -/
def fourCame : List Move :=
  [.arrives [1] true, .arrives [2] false, .arrives [3] true, .arrives [4] true, .hears 1, .notifies, .drops,
    .reads 0 { wait := false, timed := false }, .enters 0, .locks 0, .takes 0, .takes 0, .numbers 0,
    .reads 0 { wait := false, timed := false }, .enters 0, .locks 0, .takes 0]

theorem reads_account_fourCame :
    ∃ s, Reached anyMove s ∧ s.hands.length = 1 ∧ s.arrivals = 4
    ∧ s.delivered.map (·.sequence) = List.range' 1 s.delivered.length := by
  obtain ⟨s, hreached, hend⟩ := @reach_of_run _ _ step Fresh _ fourCame
    (fun s => decide (s.hands.length = 1 ∧ s.arrivals = 4)) ⟨2, rfl⟩ (by decide +kernel)
  obtain ⟨hhands, harrivals⟩ := of_decide_eq_true hend
  exact ⟨s, hreached, hhands, harrivals, (reads_account hreached).2.1⟩

/-! ## In order -/

/-- No callback reads. -/
def callbacksDoNotRead (s : ReaderState) (move : Move) : Prop := ∀ i options, move = .reads i options → s.inListener i = false

/-- The samples from the oldest delivered to the newest in the queue. -/
def ReaderState.line (s : ReaderState) : List Sample := s.delivered.map (·.sample) ++ s.hands ++ s.queue

structure Ordered (s : ReaderState) : Prop where
  outside : ∀ i pc, s.threads[i]? = some pc → s.inListener i = true → pc.isOutside = true
  line : (s.line.map (·.arrival)).Pairwise (· < ·)
  before : ∀ sample ∈ s.line, sample.arrival < s.arrivals

/-- Where only Reads that hold the mutex take, one thread at most has a sample in its hands. -/
theorem hands_of_inside {s : ReaderState} (hlocking : Locking s) (hordered : Ordered s) {i : Nat} {pc : ReadPc}
    (hi : s.threads[i]? = some pc) (hinside : pc.inside = true) : s.hands = pc.held.toList := by
  have hmutex : ∀ j pcj, s.threads[j]? = some pcj → pcj.inside = true → s.entityMutex = some j := by
    intro j pcj hj hin
    refine (hlocking.threads j pcj hj).inside hin ?_
    rw [← Bool.not_eq_true]
    intro hlistener
    have hout := inside_outside (hordered.outside j pcj hj hlistener)
    rw [hin] at hout
    cases hout
  refine filterMap_only hi fun j pcj hj hne => ?_
  cases pcj with
  | taken o sample =>
    have hmine := hmutex i pc hi hinside
    rw [hmutex j _ hj rfl] at hmine
    exact absurd (Option.some.inj hmine) hne
  | _ => rfl

theorem Ordered.kept {s t : ReaderState} (h : Ordered s)
    (houtside : ∀ i pc, t.threads[i]? = some pc → t.inListener i = true → pc.isOutside = true)
    (hline : t.line.Sublist s.line) (harrivals : t.arrivals = s.arrivals) : Ordered t :=
  ⟨houtside, h.line.sublist (hline.map _), fun sample hmem => harrivals ▸ h.before sample (hline.subset hmem)⟩

theorem Ordered.set {s t : ReaderState} {i : Nat} {pc pc' : ReadPc} (h : Ordered s) (hi : s.threads[i]? = some pc)
    (hthreads : t.threads = s.threads.set i pc') (hlistener : t.listener = s.listener)
    (hnew : s.inListener i = true → pc'.isOutside = true) (hline : t.line.Sublist s.line) (harrivals : t.arrivals = s.arrivals) :
    Ordered t := by
  refine h.kept (fun j pcj hj hin => ?_) hline harrivals
  rw [ReaderState.inListener, hlistener] at hin
  rw [hthreads, getElem?_set_cases hi] at hj
  split at hj
  · next heq =>
    cases hj
    exact hnew (heq ▸ hin)
  · exact h.outside j pcj hj hin

theorem line_of_hands {s t : ReaderState} (hdelivered : t.delivered = s.delivered) (hhands : t.hands = s.hands)
    (hqueue : t.queue = s.queue) : t.line.Sublist s.line := by
  rw [ReaderState.line, ReaderState.line, hdelivered, hhands, hqueue]

theorem Ordered.step {s t : ReaderState} {move : Move} (h : Ordered s) (hlocking : Locking s) (hok : callbacksDoNotRead s move)
    (hstep : Step s move t) : Ordered t := by
  cases hstep with
  | goes hi hgoes =>
    refine h.set hi rfl rfl (fun hin => ?_) (line_of_hands rfl (filterMap_set_eq hi hgoes.held.1) rfl) rfl
    have hout := h.outside _ _ hi hin
    cases hgoes with
    | reads hbusy =>
      rw [hok _ _ rfl] at hin
      cases hin
    | _ => cases hout
  | locks hi hout hfree hattached =>
    exact h.set hi rfl rfl (fun hin => by cases h.outside _ _ hi hin) (line_of_hands rfl (filterMap_set_eq hi rfl) rfl) rfl
  | misses hi hmay hqueue hwait =>
    exact h.set hi rfl rfl (fun hin => by cases h.outside _ _ hi hin) (line_of_hands rfl (filterMap_set_eq hi rfl) rfl) rfl
  | returns hi hmay hqueue hwait => exact h.set hi rfl rfl (fun _ => rfl) (line_of_hands rfl (filterMap_set_eq hi rfl) rfl) rfl
  | takes hi hmay hqueue hvalid =>
    rename_i i o g sample rest
    have hnone : s.hands = [] := hands_of_inside hlocking h hi rfl
    have hone : ReaderState.hands { s with queue := rest, threads := s.threads.set i (.taken o sample) } = [sample] := by
      have hperm := filterMap_set_perm (f := ReadPc.held) (.taken o sample) hi
      rw [show s.threads.filterMap ReadPc.held = [] from hnone] at hperm
      exact List.perm_singleton.mp hperm
    refine h.set hi rfl rfl (fun hin => by cases h.outside _ _ hi hin) ?_ rfl
    show (s.delivered.map (·.sample)
      ++ ReaderState.hands { s with queue := rest, threads := s.threads.set i (.taken o sample) } ++ rest).Sublist s.line
    rw [hone, ReaderState.line, hnone, hqueue, List.append_nil, List.append_assoc, List.singleton_append]
  | skips hi hmay hqueue hinvalid =>
    refine h.kept h.outside ?_ rfl
    simp only [ReaderState.line, ReaderState.hands, hqueue]
    exact (List.sublist_cons_self _ _).append_left _
  | numbers hi =>
    rename_i i o sample
    have hone : s.hands = [sample] := hands_of_inside hlocking h hi rfl
    have hnone : ReaderState.hands { s with
        threads := s.threads.set i (.outside (some (.ok ⟨s.sequence + 1, sample⟩))) } = [] := by
      have hperm := filterMap_set_perm (f := ReadPc.held) (.outside (some (.ok ⟨s.sequence + 1, sample⟩))) hi
      rw [show s.threads.filterMap ReadPc.held = [sample] from hone] at hperm
      exact List.perm_nil.mp ((List.perm_cons sample).mp hperm)
    refine h.set hi rfl rfl (fun _ => rfl) ?_ rfl
    show ((s.delivered ++ [(⟨s.sequence + 1, sample⟩ : Message)]).map (·.sample) ++
      ReaderState.hands { s with threads := s.threads.set i (.outside (some (.ok ⟨s.sequence + 1, sample⟩))) }
      ++ s.queue).Sublist s.line
    rw [hnone, ReaderState.line, hone, List.append_nil, List.map_append]
    exact List.Sublist.refl _
  | setsCallback =>
    split
    · exact h
    · exact h.kept h.outside (List.Sublist.refl _) rfl
  | arrives hopen hlistener =>
    rename_i payload valid
    have hline : ReaderState.line { s with
        queue := s.queue ++ [{ arrival := s.arrivals, payload, valid }]
        arrivals := s.arrivals + 1
        owed := true } = s.line ++ [{ arrival := s.arrivals, payload, valid }] := (List.append_assoc _ _ _).symm
    refine ⟨h.outside, ?_, fun sample hmem => ?_⟩
    · rw [hline, List.map_append]
      refine List.pairwise_append.mpr ⟨h.line, List.pairwise_singleton _ _, fun arrival hmem other hother => ?_⟩
      obtain ⟨sample, hsample, rfl⟩ := List.mem_map.mp hmem
      rw [List.mem_singleton.mp hother]
      exact h.before sample hsample
    · rw [hline] at hmem
      rcases List.mem_append.mp hmem with hmem | hmem
      · exact Nat.lt_succ_of_lt (h.before sample hmem)
      · rw [List.mem_singleton.mp hmem]
        exact Nat.lt_succ_self _
  | drops hqueue =>
    refine h.kept h.outside ?_ rfl
    simp only [ReaderState.line, ReaderState.hands, hqueue]
    exact (List.sublist_cons_self _ _).append_left _
  | passes hi hclosed => exact h.kept h.outside (List.Sublist.refl _) rfl
  | hears hi hopen hcloser hlistener =>
    exact h.kept (fun j pc hj hin => by cases inListener_iff.mp hin) (List.Sublist.refl _) rfl
  | notifies hlistener =>
    rename_i thread callback
    refine h.kept (fun j pc hj hin => ?_) (line_of_hands rfl (wake_held _) rfl) rfl
    obtain ⟨old, hold, rfl⟩ := Option.map_eq_some_iff.mp (List.getElem?_map ▸ hj)
    have hcalling := inListener_iff.mp hin
    cases callback with
    | false => cases hcalling
    | true =>
      cases hcalling
      have hbusy : s.busy thread = true := by rw [ReaderState.busy, hlistener]; exact decide_eq_true rfl
      have houtside := (hlocking.threads _ _ hold).busy hbusy
      cases old <;> first | rfl | cases houtside
  | heard hlistener hi => exact h.kept (fun j pc hj hin => by cases inListener_iff.mp hin) (List.Sublist.refl _) rfl
  | closes hidle => exact h.kept h.outside (List.Sublist.refl _) rfl
  | notifiesClosed hclosed =>
    refine h.kept (fun j pc hj hin => ?_) (line_of_hands rfl (wake_held _) rfl) rfl
    obtain ⟨old, hold, rfl⟩ := Option.map_eq_some_iff.mp (List.getElem?_map ▸ hj)
    have houtside := h.outside j old hold hin
    cases old <;> first | rfl | cases houtside
  | detaches hnotified hfree => exact h.kept h.outside (List.Sublist.refl _) rfl
  | deletes hdetached hlistener => exact h.kept h.outside (List.Sublist.refl _) rfl

/-- While no callback reads, the messages are delivered in the order in which they came, before
what is in the hands of a Read and in the queue. -/
theorem reads_in_order {s : ReaderState} (h : Reached callbacksDoNotRead s) :
    ((s.delivered.map (·.sample) ++ s.hands ++ s.queue).map (·.arrival)).Pairwise (· < ·) := by
  have hordered : Ordered s := by
    refine Reach.invariant_reach ?_ (fun s move t hreached ih hok hstep => ih.step (inv hreached).locking hok
      (step_cases hstep)) h
    rintro s ⟨n, rfl⟩
    have hline : ReaderState.line { threads := List.replicate n (.outside none) } = [] := by
      have hhands : (List.replicate n (ReadPc.outside none)).filterMap ReadPc.held = [] :=
        List.filterMap_eq_nil_iff.mpr fun pc hmem => by rw [List.eq_of_mem_replicate hmem]; rfl
      simp only [ReaderState.line, ReaderState.hands, hhands]
      rfl
    refine ⟨fun i pc hi hin => (nomatch inListener_iff.mp hin), ?_, fun sample hmem => ?_⟩
    · rw [hline]
      exact List.Pairwise.nil
    · rw [hline] at hmem
      cases hmem
  exact hordered.line

theorem reads_in_order_fourCame :
    ∃ s, Reached callbacksDoNotRead s ∧ s.hands.length = 1 ∧
      ((s.delivered.map (·.sample) ++ s.hands ++ s.queue).map (·.arrival)).Pairwise (· < ·) := by
  obtain ⟨s, hreached, hend⟩ := @reach_of_check _ _ step callbacksDoNotRead Fresh _
    (fun s move => match move with
      | .reads i _ => !s.inListener i
      | _ => true) fourCame (fun s => decide (s.hands.length = 1))
    (fun s move hcheck i options hmove => by
      subst hmove
      simpa using hcheck) ⟨2, rfl⟩ (by decide +kernel)
  exact ⟨s, hreached, of_decide_eq_true hend, reads_in_order hreached⟩

/-- A Read in a callback takes the second sample and numbers it before the first is numbered. -/
theorem a_callback_overtakes : ∃ s, Reached anyMove s ∧ s.delivered.map (·.sample.arrival) = [1, 0] := by
  obtain ⟨s, hreached, hend⟩ := @reach_of_run _ _ step Fresh _
    [.setsCallback true, .arrives [1] true, .reads 0 { wait := false, timed := false }, .enters 0, .locks 0, .takes 0,
      .arrives [2] true, .hears 1, .notifies, .reads 1 { wait := false, timed := false }, .enters 1, .locks 1,
      .takes 1, .numbers 1,
      .numbers 0]
    (fun s => decide (s.delivered.map (·.sample.arrival) = [1, 0])) ⟨2, rfl⟩ (by decide +kernel)
  exact ⟨s, hreached, of_decide_eq_true hend⟩

end PuppetMaster.FastDds.Reads
