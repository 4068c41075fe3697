/-
  PuppetMaster.Tools.RecordedRun — what `record` leaves in a file, and what `replay` makes of it.

  A `record` that succeeds makes the calls of a writer that accepts them all: a topic record
  for each topic, then a record for each message it took (`record_run`). The messages it
  took are those of its turns, up to `count` (`Takes`). What it says it received and lost of
  a topic adds up to the span of the sequences (`received_and_lost`).

  `replay` publishes what the reader returns, to its end (`replay_reads`). So a recording
  that was cut off at any byte replays a prefix of what was taken, and a whole one all of it
  (`recording_replays`).
-/

import PuppetMaster.Lib.Lists
import PuppetMaster.Recording.AnyInput
import PuppetMaster.Recording.CutOff
import PuppetMaster.Tools.RecordReplay

namespace PuppetMaster.Tools

open PuppetMaster.Core PuppetMaster.Lib PuppetMaster.Recording

/-! ## What a recording holds -/

/-- The message record of a turn, while the recorded topics are `topics`. -/
def recordedBy (started : Int) (topics : List TopicInfo) : RecordTurn → Option RecordedMessage
  | .flush => none
  | .message index message =>
    topics[index]?.map fun topic =>
      { topic := UInt32.ofNat (index + 1)
        time := Int64.ofInt (recordedTime topic started message.metadata)
        sequence := UInt64.ofNat message.metadata.sequence
        payload := message.payload }

/-- The topic records, numbered on from `n`. -/
def declared (n : Nat) : List TopicInfo → List Recording.Record
  | [] => []
  | topic :: topics => .topic { recordedTopic topic with id := UInt32.ofNat (n + 1) } :: declared (n + 1) topics

/-- The turns that `record` takes: all of them, or those up to the message with number `count`. -/
structure Takes (count : UInt64) (started : Int) (topics : List TopicInfo) (taken turns : List RecordTurn) : Prop where
  isPrefix : taken <+: turns
  all : count = 0 → taken = turns
  most : count ≠ 0 → (taken.filterMap (recordedBy started topics)).length ≤ count.toNat
  stopped : taken ≠ turns → (taken.filterMap (recordedBy started topics)).length = count.toNat

/-- The sequences of the messages of a topic. -/
def sequencesOf (index : Nat) (turns : List RecordTurn) : List UInt64 :=
  turns.filterMap fun
    | .message i message => if i = index then some (UInt64.ofNat message.metadata.sequence) else none
    | .flush => none

/-- A channel that nothing was read from. -/
def RecordedChannel.Fresh (channel : RecordedChannel) : Prop := channel.last = none ∧ channel.received = 0 ∧ channel.lost = 0

/-- The channels are those of the topics, with the ids of the writer. -/
structure Recorder.Declares (recorder : Recorder) (topics : List TopicInfo) : Prop where
  channels : recorder.channels.map (·.topic) = topics
  ids : ∀ (i : Nat) (channel : RecordedChannel), recorder.channels[i]? = some channel → channel.id = UInt32.ofNat (i + 1)
  writer : recorder.writer.topics.length = topics.length

theorem accepted_append (w : RecordingWriter) (calls more : List Call) :
    w.accepted (calls ++ more) = w.accepted calls ++ (w.run calls).accepted more := by
  induction calls generalizing w with
  | nil => rfl
  | cons call calls ih => rw [List.cons_append, RecordingWriter.accepted, RecordingWriter.accepted, ih, List.append_assoc]; rfl

theorem run_append (w : RecordingWriter) (calls more : List Call) : w.run (calls ++ more) = (w.run calls).run more :=
  List.foldl_append

/-- A call that declares a topic, when it succeeds. -/
theorem addTopic_step {w w' : RecordingWriter} {topic : RecordedTopic} {id : UInt32} (h : w.addTopic topic = (.ok id, w')) :
    w.step (.addTopic topic) = w' ∧ id = UInt32.ofNat (w.topics.length + 1) ∧ w'.topics.length = w.topics.length + 1 ∧
      w.acceptedBy (.addTopic topic) = some (.topic { topic with id := UInt32.ofNat (w.topics.length + 1) }) ∧
      (validateName "topic name" topic.name).isOk = true := by
  have hname : (validateName "topic name" topic.name).isOk = true := by
    have haccepts := (w.addTopic_accepts topic).mp ⟨id, congrArg Prod.fst h⟩
    simp only [acceptable, Bool.and_eq_true] at haccepts
    exact haccepts.2.1.1.1
  rcases w.addTopic_cases topic with ⟨t, ht, -, heq⟩ | ⟨s, heq⟩
  · rw [heq] at h
    cases h
    subst ht
    refine ⟨?_, rfl, ?_, ?_, hname⟩
    · simp only [RecordingWriter.step, heq]
    · rw [List.length_append, List.length_singleton]
    · simp only [RecordingWriter.acceptedBy, heq]
  · rw [heq] at h
    cases h

theorem declareTopics_run {subscribe : TopicInfo → Result Unit} {recorder recorder' : Recorder} {before topics : List TopicInfo}
    (hbefore : recorder.Declares before) (h : declareTopics subscribe recorder topics = .ok recorder') :
    recorder'.Declares (before ++ topics) ∧ recorder'.total = recorder.total ∧
      ((∀ channel ∈ recorder.channels, channel.Fresh) → ∀ channel ∈ recorder'.channels, channel.Fresh) ∧
      (∀ topic ∈ topics, (validateName "topic name" topic.name).isOk = true) ∧
      ∃ calls, recorder'.writer = recorder.writer.run calls ∧
        recorder.writer.accepted calls = declared before.length topics := by
  induction topics generalizing recorder before with
  | nil =>
    cases h
    exact ⟨(List.append_nil before).symm ▸ hbefore, rfl, id, fun _ h => (nomatch h), [], rfl, rfl⟩
  | cons topic topics ih =>
    rw [declareTopics] at h
    split at h
    · cases h
    · next id writer hadd =>
      obtain ⟨-, h⟩ := then_eq_ok.mp h
      obtain ⟨hstep, hid, hlength, haccepted, hname⟩ := addTopic_step hadd
      have hnow : Recorder.Declares { recorder with writer, channels := recorder.channels ++ [{ topic, id }] }
          (before ++ [topic]) := by
        refine ⟨?_, ?_, ?_⟩
        · rw [List.map_append, hbefore.channels, List.map_singleton]
        · intro i channel hchannel
          have hcount : recorder.channels.length = recorder.writer.topics.length := by
            rw [hbefore.writer, ← hbefore.channels, List.length_map]
          rcases getElem?_concat_cases hchannel with hold | ⟨hi, rfl⟩
          · exact hbefore.ids i channel hold
          · rw [hid, hi, hcount]
        · rw [hlength, hbefore.writer, List.length_append, List.length_singleton]
      obtain ⟨hdeclares, htotal, hfresh, hnames, calls, hrun, hcalls⟩ := ih hnow h
      rw [List.append_assoc] at hdeclares
      refine ⟨hdeclares, htotal, fun hall => hfresh ?_, List.forall_mem_cons.mpr ⟨hname, hnames⟩,
        .addTopic (recordedTopic topic) :: calls, ?_, ?_⟩
      · exact List.forall_mem_append.mpr ⟨hall, List.forall_mem_singleton.mpr ⟨rfl, rfl, rfl⟩⟩
      · rw [hrun, RecordingWriter.run_cons, hstep]
      · rw [RecordingWriter.accepted, haccepted, hstep, hcalls, List.length_append, hbefore.writer]
        rfl

/-- Counting a message keeps what the channel is of. -/
theorem Recorder.Declares.counted {recorder : Recorder} {topics : List TopicInfo} (h : recorder.Declares topics)
    {index : Nat} {channel : RecordedChannel} (hchannel : recorder.channels[index]? = some channel) (sequence : UInt64)
    {writer : RecordingWriter} (hwriter : writer.topics = recorder.writer.topics) (total : UInt64) :
    Recorder.Declares { writer, channels := recorder.channels.set index (channel.count sequence), total } topics := by
  have hkept : (channel.count sequence).topic = channel.topic ∧ (channel.count sequence).id = channel.id := by
    simp only [RecordedChannel.count]
    split <;> exact ⟨rfl, rfl⟩
  obtain ⟨hindex, hget⟩ := List.getElem?_eq_some_iff.mp hchannel
  refine ⟨?_, ?_, ?_⟩
  · rw [List.map_set, hkept.1, ← h.channels]
    apply List.ext_getElem?
    intro i
    rw [List.getElem?_set]
    split
    · next heq =>
      subst heq
      rw [List.length_map, if_pos hindex, List.getElem?_map, hchannel]
      rfl
    · rfl
  · intro i other hother
    rw [List.getElem?_set] at hother
    split at hother
    · next heq =>
      subst heq
      cases hother
      rw [hkept.2]
      exact h.ids index channel hchannel
    · exact h.ids i other hother
  · rw [hwriter, h.writer]

/-- A turn that succeeds writes the record of its message, if it has one. -/
theorem recordTurn_run {started : Int} {recorder recorder' : Recorder} {topics : List TopicInfo} {turn : RecordTurn}
    (hdeclares : recorder.Declares topics) (h : recordTurn started recorder turn = .ok recorder') :
    recorder'.Declares topics ∧
      recorder'.total = recorder.total + UInt64.ofNat (recordedBy started topics turn).toList.length ∧
      (∀ i, recorder'.channels[i]? = recorder.channels[i]?.map ((sequencesOf i [turn]).foldl RecordedChannel.count)) ∧
      ∃ calls, recorder'.writer = recorder.writer.run calls ∧
        recorder.writer.accepted calls = (recordedBy started topics turn).toList.map .message := by
  cases turn with
  | flush =>
    have hflush : recorder.writer.flush.2 = recorder.writer := by
      unfold RecordingWriter.flush
      split <;> rfl
    have hsame : (do recorder.writer.flush.1.check; pure { recorder with writer := recorder.writer.flush.2 }) =
        (.ok recorder' : Result Recorder) := h
    rw [hflush] at hsame
    obtain rfl := pure_eq_ok.mp (then_eq_ok.mp hsame).2
    exact ⟨hdeclares, (UInt64.add_zero _).symm, fun i => Option.map_id_apply.symm, [], rfl, rfl⟩
  | message index message =>
    have hother {i : Nat} (hne : index ≠ i) : sequencesOf i [.message index message] = [] := by
      simp [sequencesOf, hne]
    have hthis : sequencesOf index [.message index message] = [UInt64.ofNat message.metadata.sequence] := by
      simp [sequencesOf]
    have hlookup : topics[index]? = recorder.channels[index]?.map (·.topic) := by
      rw [← hdeclares.channels, List.getElem?_map]
    simp only [recordTurn] at h
    split at h
    · next hnone =>
      cases h
      rw [hnone] at hlookup
      simp only [recordedBy, hlookup, Option.map_none, Option.toList_none]
      refine ⟨hdeclares, (UInt64.add_zero _).symm, fun i => ?_, [], rfl, rfl⟩
      by_cases heq : index = i
      · rw [← heq, hnone]
        rfl
      · rw [hother heq]
        exact Option.map_id_apply.symm
    · next channel hchannel =>
      obtain ⟨hwritten, h⟩ := then_eq_ok.mp h
      obtain rfl := pure_eq_ok.mp h
      have hid := hdeclares.ids index channel hchannel
      rw [hchannel] at hlookup
      rcases recorder.writer.write_cases channel.id (Int64.ofInt (recordedTime channel.topic started message.metadata))
        (UInt64.ofNat message.metadata.sequence) message.payload with ⟨m, -, -, -, -, -, heq⟩ | ⟨s, herr, heq⟩
      · simp only [recordedBy, hlookup, Option.map_some, Option.toList_some, heq]
        refine ⟨?_, rfl, fun i => ?_, [.write channel.id (Int64.ofInt (recordedTime channel.topic started message.metadata))
          (UInt64.ofNat message.metadata.sequence) message.payload], ?_, ?_⟩
        · apply hdeclares.counted hchannel
          rfl
        · rw [List.getElem?_set]
          by_cases heq : index = i
          · subst heq
            obtain ⟨hindex, -⟩ := List.getElem?_eq_some_iff.mp hchannel
            rw [if_pos rfl, if_pos hindex, hchannel, hthis]
            rfl
          · rw [if_neg heq, hother heq]
            exact Option.map_id_apply.symm
        · simp only [RecordingWriter.run, List.foldl_cons, List.foldl_nil, RecordingWriter.step]
          rw [heq]
        · simp only [RecordingWriter.accepted, RecordingWriter.acceptedBy, heq, List.append_nil]
          rw [hid]
          rfl
      · rw [heq, Status.check_eq_ok] at hwritten
        rw [herr] at hwritten
        cases hwritten

theorem recordTurns_run {started : Int} {count : UInt64} {recorder recorder' : Recorder} {topics : List TopicInfo}
    {turns : List RecordTurn} (hdeclares : recorder.Declares topics) (htotal : count ≠ 0 → recorder.total ≤ count)
    (h : recordTurns started count recorder turns = .ok recorder') :
    ∃ taken, taken <+: turns ∧ (count = 0 → taken = turns) ∧
      (count ≠ 0 → recorder.total.toNat + (taken.filterMap (recordedBy started topics)).length ≤ count.toNat) ∧
      (taken ≠ turns → recorder.total.toNat + (taken.filterMap (recordedBy started topics)).length = count.toNat) ∧
      (∀ i, recorder'.channels[i]? = recorder.channels[i]?.map ((sequencesOf i taken).foldl RecordedChannel.count)) ∧
      ∃ calls, recorder'.writer = recorder.writer.run calls ∧
        recorder.writer.accepted calls = (taken.filterMap (recordedBy started topics)).map .message := by
  induction turns generalizing recorder with
  | nil =>
    cases h
    exact ⟨[], List.prefix_rfl, fun _ => rfl, htotal, fun h => absurd rfl h, fun i => Option.map_id_apply.symm, [], rfl, rfl⟩
  | cons turn turns ih =>
    rw [recordTurns] at h
    split at h
    · next hdone =>
      have hfull : recorder.total.toNat = count.toNat :=
        Nat.le_antisymm (UInt64.le_iff_toNat_le.mp (htotal hdone.1)) (UInt64.le_iff_toNat_le.mp hdone.2)
      cases h
      exact ⟨[], List.nil_prefix, fun hzero => absurd hzero hdone.1, htotal, fun _ => hfull,
        fun i => Option.map_id_apply.symm, [], rfl, rfl⟩
    · next hmore =>
      obtain ⟨next, hturn, h⟩ := bind_eq_ok.mp h
      obtain ⟨hnext, hadded, hcounted, calls, hrun, hcalls⟩ := recordTurn_run hdeclares hturn
      have hone : (recordedBy started topics turn).toList.length ≤ 1 := by
        cases recordedBy started topics turn with
        | none => exact Nat.zero_le 1
        | some m => exact Nat.le_refl 1
      -- a limit that is not reached leaves room for one more, so the total does not wrap
      have hroom (hcount : count ≠ 0) :
          next.total.toNat = recorder.total.toNat + (recordedBy started topics turn).toList.length ∧
            next.total.toNat ≤ count.toNat := by
        have hless : recorder.total.toNat < count.toNat :=
          Nat.lt_of_not_le fun hle => hmore ⟨hcount, UInt64.le_iff_toNat_le.mpr hle⟩
        have hbound := count.toNat_lt
        rw [hadded, UInt64.toNat_add, UInt64.toNat_ofNat']
        omega
      obtain ⟨taken, hwritten, hall, hmost, hstopped, hchannels, more, hrest, hmessages⟩ :=
        ih hnext (fun hcount => UInt64.le_iff_toNat_le.mpr (hroom hcount).2) h
      have hlength : ((turn :: taken).filterMap (recordedBy started topics)).length =
          (recordedBy started topics turn).toList.length + (taken.filterMap (recordedBy started topics)).length := by
        cases hturn : recordedBy started topics turn with
        | none => rw [List.filterMap_cons_none hturn, Option.toList_none, List.length_nil, Nat.zero_add]
        | some m => rw [List.filterMap_cons_some hturn, List.length_cons, Option.toList_some, List.length_singleton, Nat.add_comm]
      refine ⟨turn :: taken, (List.cons_prefix_cons).mpr ⟨rfl, hwritten⟩, fun hzero => by rw [hall hzero], fun hcount => ?_,
        fun hne => ?_, fun i => ?_, calls ++ more, ?_, ?_⟩
      · have hmost := hmost hcount
        have hroom := (hroom hcount).1
        omega
      · have hcount : count ≠ 0 := fun hzero => hne (by rw [hall hzero])
        have hstopped := hstopped fun heq => hne (by rw [heq])
        have hroom := (hroom hcount).1
        omega
      · have hsplit : sequencesOf i (turn :: taken) = sequencesOf i [turn] ++ sequencesOf i taken :=
          List.filterMap_append (l := [turn])
        rw [hchannels, hcounted, Option.map_map, hsplit]
        congr 1
        funext channel
        exact List.foldl_append.symm
      · rw [hrest, hrun, run_append]
      · rw [accepted_append, hcalls, ← hrun, hmessages, ← List.map_append]
        cases hturn : recordedBy started topics turn with
        | none => rw [List.filterMap_cons_none hturn]; rfl
        | some m => rw [List.filterMap_cons_some hturn]; rfl

/-- The calls of a `record` that succeeds, and what the writer accepted of them. -/
theorem record_run {subscribe : TopicInfo → Result Unit} {path : Bytes} {topics : List TopicInfo} {started : Int} {count : UInt64}
    {turns : List RecordTurn} {recorder : Recorder} (h : record subscribe path topics started count turns = .ok recorder) :
    (∀ topic ∈ topics, (validateName "topic name" topic.name).isOk = true) ∧
      ∃ taken, Takes count started topics taken turns ∧
        (∀ index channel, recorder.channels[index]? = some channel →
          ∃ fresh : RecordedChannel, fresh.Fresh ∧ channel = (sequencesOf index taken).foldl RecordedChannel.count fresh) ∧
        ∃ calls, recorder.writer = (RecordingWriter.create path).run calls ∧
          (RecordingWriter.create path).accepted calls =
            declared 0 topics ++ (taken.filterMap (recordedBy started topics)).map .message := by
  obtain ⟨opened, hopened, h⟩ := bind_eq_ok.mp h
  obtain ⟨ran, hran, h⟩ := bind_eq_ok.mp h
  have hnone : Recorder.Declares { writer := .create path } [] := ⟨rfl, fun i channel hchannel => (nomatch hchannel), rfl⟩
  obtain ⟨hdeclares, htotal, hfresh, hnames, calls, hcalls, haccepted⟩ := declareTopics_run hnone hopened
  have hle : count ≠ 0 → opened.total ≤ count := fun _ => htotal ▸ UInt64.zero_le
  obtain ⟨taken, hwritten, hall, hmost, hstopped, hchannels, more, hmore, hmessages⟩ := recordTurns_run hdeclares hle hran
  have hzero : opened.total.toNat = 0 := congrArg UInt64.toNat htotal
  rw [hzero] at hmost hstopped
  simp only [Nat.zero_add] at hmost hstopped
  obtain ⟨hclosed, hsame⟩ : recorder.writer = ran.writer.step .close ∧ recorder.channels = ran.channels := by
    obtain rfl := pure_eq_ok.mp (then_eq_ok.mp h).2
    exact ⟨rfl, rfl⟩
  refine ⟨hnames, taken, ⟨hwritten, hall, hmost, hstopped⟩, fun index channel hchannel => ?_, calls ++ more ++ [.close], ?_, ?_⟩
  · rw [hsame, hchannels, Option.map_eq_some_iff] at hchannel
    obtain ⟨fresh, hget, rfl⟩ := hchannel
    exact ⟨fresh, hfresh (fun _ h => nomatch h) fresh (List.mem_of_getElem? hget), rfl⟩
  · rw [hclosed, hmore, hcalls, run_append, run_append]
    rfl
  · rw [accepted_append, accepted_append, haccepted, ← hcalls, hmessages]
    exact List.append_nil _

/-! ## What a recorder counts -/

theorem gap_of_lt {last sequence : UInt64} (h : last < sequence) : gap (some last) sequence = sequence - last - 1 := by
  unfold gap
  dsimp only
  split
  · rfl
  · next hnot =>
    have hsucc : last + 1 = sequence := by
      have hlt := UInt64.lt_iff_toNat_lt.mp h
      have hbound := sequence.toNat_lt
      rw [UInt64.lt_iff_toNat_lt, UInt64.toNat_add] at hnot
      apply UInt64.toNat_inj.mp
      rw [UInt64.toNat_add]
      have hone : (1 : UInt64).toNat = 1 := rfl
      omega
    grind

theorem count_spec (channel : RecordedChannel) (sequence : UInt64) :
    (channel.count sequence).topic = channel.topic ∧ (channel.count sequence).received = channel.received + 1 ∧
      (channel.topic.transport = .ipc → (channel.count sequence).last = some sequence ∧
        (channel.count sequence).lost = channel.lost + gap channel.last sequence) ∧
      (channel.topic.transport ≠ .ipc → (channel.count sequence).lost = channel.lost) := by
  unfold RecordedChannel.count carriedBy
  by_cases h : channel.topic.transport = .ipc
  · simp [h]
  · simp [h]

/-- After a message, each of the next ones adds its distance from the one before. -/
theorem counted_after {channel : RecordedChannel} (hkind : channel.topic.transport = .ipc) {last : UInt64}
    (hlast : channel.last = some last) {sequences : List UInt64} (hsorted : (last :: sequences).Pairwise (· < ·)) :
    (sequences.foldl RecordedChannel.count channel).received + (sequences.foldl RecordedChannel.count channel).lost =
      channel.received + channel.lost + ((last :: sequences).getLast (List.cons_ne_nil _ _) - last) := by
  induction sequences generalizing channel last with
  | nil =>
    rw [List.foldl_nil, List.getLast_singleton]
    grind
  | cons sequence sequences ih =>
    obtain ⟨hfirst, hrest⟩ := List.pairwise_cons.mp hsorted
    obtain ⟨htopic, hreceived, hcarried, -⟩ := count_spec channel sequence
    obtain ⟨hnow, hlost⟩ := hcarried hkind
    rw [hlast, gap_of_lt (hfirst sequence List.mem_cons_self)] at hlost
    rw [List.foldl_cons, ih (htopic ▸ hkind) hnow hrest, hreceived, hlost, List.getLast_cons (List.cons_ne_nil _ _)]
    grind

theorem counted_kept (channel : RecordedChannel) (sequences : List UInt64) :
    (sequences.foldl RecordedChannel.count channel).topic = channel.topic ∧
      (sequences.foldl RecordedChannel.count channel).received = channel.received + UInt64.ofNat sequences.length ∧
      (channel.topic.transport ≠ .ipc → (sequences.foldl RecordedChannel.count channel).lost = channel.lost) := by
  induction sequences generalizing channel with
  | nil => exact ⟨rfl, (UInt64.add_zero _).symm, fun _ => rfl⟩
  | cons sequence sequences ih =>
    obtain ⟨htopic, hreceived, -, hlost⟩ := count_spec channel sequence
    obtain ⟨hsame, hadded, hnone⟩ := ih (channel.count sequence)
    rw [List.foldl_cons]
    refine ⟨hsame.trans htopic, ?_, fun hkind => ?_⟩
    · rw [hadded, hreceived, List.length_cons, UInt64.ofNat_add]
      grind
    · rw [hnone (htopic ▸ hkind), hlost hkind]
/-- Of each topic `record` counts what it took, and what it received and lost of a topic whose
sequences increase is every sequence from the first to the last. -/
theorem received_and_lost {subscribe : TopicInfo → Result Unit} {path : Bytes} {topics : List TopicInfo} {started : Int}
    {count : UInt64} {turns : List RecordTurn} {recorder : Recorder}
    (h : record subscribe path topics started count turns = .ok recorder) :
    ∃ taken, Takes count started topics taken turns ∧
      ∀ index channel, recorder.channels[index]? = some channel →
        channel.received = UInt64.ofNat (sequencesOf index taken).length ∧
          (channel.topic.transport ≠ .ipc → channel.lost = 0) ∧
          (channel.topic.transport = .ipc → (sequencesOf index taken).Pairwise (· < ·) →
            ∀ hne : sequencesOf index taken ≠ [],
              channel.received + channel.lost =
                (sequencesOf index taken).getLast hne - (sequencesOf index taken).head hne + 1) := by
  obtain ⟨-, taken, htakes, hchannels, -⟩ := record_run h
  refine ⟨taken, htakes, fun index channel hchannel => ?_⟩
  obtain ⟨fresh, ⟨hlast, hreceived, hlost⟩, rfl⟩ := hchannels index channel hchannel
  obtain ⟨htopic, hadded, hnone⟩ := counted_kept fresh (sequencesOf index taken)
  rw [htopic]
  refine ⟨by rw [hadded, hreceived, UInt64.zero_add], fun hkind => (hnone hkind).trans hlost, fun hkind hsorted hne => ?_⟩
  generalize sequencesOf index taken = sequences at hsorted hne
  cases sequences with
  | nil => exact absurd rfl hne
  | cons first rest =>
    obtain ⟨hsame, hone, hcarried, -⟩ := count_spec fresh first
    obtain ⟨hnow, hgap⟩ := hcarried hkind
    rw [hlast, hlost] at hgap
    rw [List.foldl_cons, counted_after (hsame ▸ hkind) hnow hsorted, hone, hreceived, hgap, List.head_cons]
    simp only [gap]
    grind

/-- Topic `a` of type `t`, encoded as `e`. -/
def plainInfo : TopicInfo := { name := [97], descriptor := ⟨[116], [101], 0⟩ }

def fewTurns : List RecordTurn := [.message 0 ⟨[1], ⟨1, 7, 8⟩⟩, .message 0 ⟨[2], ⟨3, 9, 9⟩⟩, .flush]

theorem few_turns_recorded : ∃ recorder, record (fun _ => .ok ()) [114] [plainInfo] 5 2 fewTurns = .ok recorder := by
  have hok : (record (fun _ => .ok ()) [114] [plainInfo] 5 2 fewTurns).isOk = true := by decide +kernel
  cases hrecord : record (fun _ => .ok ()) [114] [plainInfo] 5 2 fewTurns with
  | error status =>
    rw [hrecord] at hok
    cases hok
  | ok recorder => exact ⟨recorder, rfl⟩

theorem received_and_lost_two :
    ∃ recorder, record (fun _ => .ok ()) [114] [plainInfo] 5 2 fewTurns = .ok recorder ∧
      ∃ taken, Takes 2 5 [plainInfo] taken fewTurns ∧
        ∀ index channel, recorder.channels[index]? = some channel →
          channel.received = UInt64.ofNat (sequencesOf index taken).length ∧
            (channel.topic.transport ≠ .ipc → channel.lost = 0) ∧
            (channel.topic.transport = .ipc → (sequencesOf index taken).Pairwise (· < ·) →
              ∀ hne : sequencesOf index taken ≠ [],
                channel.received + channel.lost =
                  (sequencesOf index taken).getLast hne - (sequencesOf index taken).head hne + 1) := by
  obtain ⟨recorder, hrecord⟩ := few_turns_recorded
  exact ⟨recorder, hrecord, received_and_lost hrecord⟩

/-! ## What the reader knows of a message it returns -/

section reader

open RecordingReader

variable {file : Bytes} {r r' : RecordingReader}

theorem turn_topics {result : Option (Result RecordedMessage)} (h : Turn r result r') :
    r.topics <+: r'.topics ∧ ∀ m, result = some (.ok m) → m.topic ∈ ids r'.topics := by
  cases h with
  | ends hsize hended htopics => exact ⟨htopics ▸ List.prefix_rfl, fun m h => nomatch h⟩
  | record hsize hinput hhandles =>
    cases hhandles with
    | topic => exact ⟨List.prefix_append _ _, fun m h => nomatch h⟩
    | message hkind hfixed hdeclared =>
      refine ⟨List.prefix_rfl, fun m h => ?_⟩
      cases h
      exact hdeclared
    | error => exact ⟨List.prefix_rfl, fun m h => nomatch h⟩
    | skipped => exact ⟨List.prefix_rfl, fun m h => nomatch h⟩

/-- A call only adds topics, and has the topic of a message that it returns. -/
theorem next_topics (h : OfFile file r) :
    OfFile file r.next.2 ∧ r.topics <+: r.next.2.topics ∧ ∀ m, r.next.1 = .ok (some m) → m.topic ∈ ids r.next.2.topics := by
  induction hn : r.remaining using Nat.strongRecOn generalizing r with
  | ind n ih =>
    subst hn
    cases hopen : r.ended with
    | true =>
      rw [next_of_ended hopen]
      exact ⟨h, List.prefix_rfl, fun m h => nomatch h⟩
    | false =>
      have hless := turn_remaining hopen
      have hfile := h.turn hopen
      obtain ⟨htopics, hfound⟩ := turn_topics (turn_cases (h.position_input hopen))
      rcases hturn : r.turn with ⟨result, r₁⟩
      rw [hturn] at hless hfile htopics hfound
      cases result with
      | none =>
        rw [next_of_go_on hopen hturn]
        obtain ⟨hlast, hmore, hreturned⟩ := ih _ hless hfile rfl
        exact ⟨hlast, htopics.trans hmore, hreturned⟩
      | some result =>
        rw [next_of_return hopen hturn]
        refine ⟨hfile, htopics, fun m hm => ?_⟩
        cases result with
        | error s => cases hm
        | ok returned =>
          cases hm
          exact hfound m rfl

theorem reads_topics (h : OfFile file r) {messages : List RecordedMessage} (hreads : Reads r messages r') :
    r.topics <+: r'.topics := by
  induction hreads with
  | done hnext =>
    have htopics := (next_topics h).2.1
    rwa [hnext] at htopics
  | more hnext _ ih =>
    obtain ⟨hfile, htopics, -⟩ := next_topics h
    rw [hnext] at hfile htopics
    exact htopics.trans (ih hfile)

/-- A topic that is there stays the one that is found. -/
theorem find_of_prefix {topics more : List RecordedTopic} (h : topics <+: more) {id : UInt32} (hid : id ∈ ids topics) :
    ∃ topic, topics.find? (·.id == id) = some topic ∧ more.find? (·.id == id) = some topic := by
  obtain ⟨rest, rfl⟩ := h
  obtain ⟨topic, hmem, htopic⟩ := List.mem_map.mp hid
  have hsome : (topics.find? (·.id == id)).isSome = true :=
    List.find?_isSome.mpr ⟨topic, hmem, beq_iff_eq.mpr htopic⟩
  obtain ⟨found, hfound⟩ := Option.isSome_iff_exists.mp hsome
  exact ⟨found, hfound, by rw [List.find?_append, hfound]; rfl⟩

end reader

/-! ## What a replay publishes -/

section replays

open RecordingReader

variable {environment : Environment} {args : ReplayArguments} {topics : List RecordedTopic} {replays : RecordedTopic → TopicInfo}

/-- What is published of a message, where each topic `replays` to some topic. -/
def publishedOf (args : ReplayArguments) (topics : List RecordedTopic) (replays : RecordedTopic → TopicInfo)
    (message : RecordedMessage) : Option (TopicInfo × Bytes) :=
  (topics.find? (·.id == message.topic)).bind fun topic =>
    if args.wants topic.name then some (replays topic, message.payload) else none

/-- The channels that were made are those that will be made. -/
def Channels (args : ReplayArguments) (topics : List RecordedTopic) (replays : RecordedTopic → TopicInfo)
    (channels : SortedMap Nat (Option TopicInfo)) : Prop :=
  ∀ (id : UInt32) (channel : Option TopicInfo), channels.find? id.toNat = some channel →
    ∃ topic, topics.find? (·.id == id) = some topic ∧
      channel = if args.wants topic.name then some (replays topic) else none

/-- The transports let the topic in and take the message. -/
structure Taken (environment : Environment) (args : ReplayArguments) (replays : RecordedTopic → TopicInfo)
    (topic : RecordedTopic) (message : RecordedMessage) : Prop where
  opened : openReplayChannel environment args topic = .ok (replays topic)
  written : (environment.writes (replays topic) message.payload).isOk = true

theorem channelOf_eq {reader : RecordingReader} {replayer : Replayer} {message : RecordedMessage} {topic : RecordedTopic}
    (hchannels : Channels args topics replays replayer.channels) (hreader : reader.findTopic message.topic = some topic)
    (htopic : topics.find? (·.id == message.topic) = some topic)
    (hopened : args.wants topic.name = true → openReplayChannel environment args topic = .ok (replays topic)) :
    ∃ channels, Channels args topics replays channels ∧
      channelOf environment args reader replayer message =
        .ok (if args.wants topic.name then some (replays topic) else none, { replayer with channels }) := by
  unfold channelOf
  split
  · next channel hfound =>
    obtain ⟨known, hknown, rfl⟩ := hchannels message.topic channel hfound
    rw [htopic] at hknown
    cases hknown
    exact ⟨replayer.channels, hchannels, rfl⟩
  · next hnew =>
    have hkept : Channels args topics replays
        (replayer.channels.insert message.topic.toNat (if args.wants topic.name then some (replays topic) else none)) := by
      intro id channel hchannel
      rw [SortedMap.find?_insert] at hchannel
      by_cases heq : id.toNat = message.topic.toNat
      · obtain rfl := UInt32.toNat_inj.mp heq
        rw [if_pos rfl] at hchannel
        cases hchannel
        exact ⟨topic, htopic, rfl⟩
      · rw [if_neg heq] at hchannel
        exact hchannels id channel hchannel
    refine ⟨_, hkept, ?_⟩
    rw [hreader]
    by_cases hwanted : args.wants topic.name = true
    · simp only [hwanted, if_true, hopened hwanted]
      rfl
    · simp only [hwanted]
      rfl

theorem replayMessage_eq {reader : RecordingReader} {replayer : Replayer} {message : RecordedMessage} {topic : RecordedTopic}
    (hchannels : Channels args topics replays replayer.channels) (hreader : reader.findTopic message.topic = some topic)
    (htopic : topics.find? (·.id == message.topic) = some topic)
    (htaken : args.wants topic.name = true → Taken environment args replays topic message) :
    ∃ channels, Channels args topics replays channels ∧
      replayMessage environment args reader replayer message =
        .ok { channels, published := replayer.published ++ (publishedOf args topics replays message).toList } := by
  obtain ⟨channels, hkept, hchannel⟩ := channelOf_eq hchannels hreader htopic fun hwanted => (htaken hwanted).opened
  refine ⟨channels, hkept, ?_⟩
  rw [replayMessage, hchannel, publishedOf, htopic, Option.bind_some]
  by_cases hwanted : args.wants topic.name = true
  · have hwritten := Status.check_eq_ok.mpr (htaken hwanted).written
    simp only [hwanted, if_true, Option.toList_some]
    simp [bind, Except.bind, hwritten, within, pure, Except.pure]
  · simp [hwanted, bind, Except.bind, pure, Except.pure]

/-- The loop publishes what the reader returns, when the transports take it. -/
theorem replayLoop_reads {file : Bytes} {r r' : RecordingReader} {messages : List RecordedMessage} {replayer : Replayer}
    (hfile : OfFile file r) (hreads : Reads r messages r') (htopics : r'.topics <+: topics)
    (hchannels : Channels args topics replays replayer.channels)
    (htaken : ∀ message ∈ messages, ∀ topic, topics.find? (·.id == message.topic) = some topic →
      args.wants topic.name = true → Taken environment args replays topic message) :
    ∃ channels, replayLoop environment args r replayer =
      .ok (r', { channels, published := replayer.published ++ messages.filterMap (publishedOf args topics replays) }) := by
  induction hreads generalizing replayer with
  | done hnext =>
    refine ⟨replayer.channels, ?_⟩
    rw [replayLoop]
    split
    · next heq =>
      rw [hnext] at heq
      cases heq
    · next heq =>
      rw [hnext] at heq
      cases heq
      rw [List.filterMap_nil, List.append_nil]
    · next heq =>
      rw [hnext] at heq
      cases heq
  | @more r r₁ r' message messages hnext hrest ih =>
    obtain ⟨hfile₁, -, hfound⟩ := next_topics hfile
    rw [hnext] at hfile₁ hfound
    have hbefore := (reads_topics hfile₁ hrest).trans htopics
    obtain ⟨topic, hreader, htopic⟩ := find_of_prefix hbefore (hfound message rfl)
    obtain ⟨hfirst, hothers⟩ := List.forall_mem_cons.mp htaken
    obtain ⟨channels, hkept, hmessage⟩ := replayMessage_eq hchannels hreader htopic (hfirst topic htopic)
    obtain ⟨last, hloop⟩ := @ih
      { channels, published := replayer.published ++ (publishedOf args topics replays message).toList }
      hfile₁ htopics hkept hothers
    have hlist : (publishedOf args topics replays message).toList ++ messages.filterMap (publishedOf args topics replays) =
        (message :: messages).filterMap (publishedOf args topics replays) := by
      cases hone : publishedOf args topics replays message with
      | none => rw [List.filterMap_cons_none hone]; rfl
      | some pair => rw [List.filterMap_cons_some hone]; rfl
    rw [List.append_assoc, hlist] at hloop
    refine ⟨last, ?_⟩
    rw [replayLoop]
    split
    · next heq =>
      rw [hnext] at heq
      cases heq
    · next heq =>
      rw [hnext] at heq
      cases heq
    · next heq =>
      rw [hnext] at heq
      cases heq
      rw [hmessage]
      exact hloop

end replays

/-! ## A recording replayed -/

theorem complete_front (recs : List Recording.Record) (n : Nat) : complete recs n <+: recs := by
  induction recs generalizing n with
  | nil => exact List.prefix_rfl
  | cons rec recs ih =>
    rw [complete]
    split
    · exact List.cons_prefix_cons.mpr ⟨rfl, ih _⟩
    · exact List.nil_prefix

/-- A file of these records that is cut off at any byte, read to its end. -/
theorem reads_cut (path : Bytes) {recs : List Recording.Record} (hvalid : ∀ rec ∈ recs, rec.Valid) (horderly : Orderly 0 recs)
    (hfew : (topicsOf recs).length < 2 ^ 32) {n : Nat} (hn : n ≤ (recs.flatMap Record.bytes).length) :
    ∃ file r r', RecordingReader.openFile path (RecordingWriter.fileHeader ++ (recs.flatMap Record.bytes).take n) = .ok r ∧
      RecordingReader.OfFile file r ∧ RecordingReader.Reads r (messagesOf (complete recs n)) r' ∧
      r'.topics = topicsOf (complete recs n) ∧ (r'.truncated = true ↔ ¬ OnBoundary recs n) := by
  obtain ⟨tail, htake, hcut, hboundary⟩ := take_records hvalid n hn
  have hnumbered : Numbered [] := rfl
  have hscan := scan_orderly hnumbered (by decide) (complete_orderly horderly n)
  have hless : (topicsOf (complete recs n)).length < 2 ^ 32 :=
    Nat.lt_of_le_of_lt (List.IsPrefix.length_le (List.IsPrefix.filterMap _ (complete_front recs n))) hfew
  rw [List.length_nil, Nat.zero_add, List.nil_append, if_pos hless] at hscan
  obtain ⟨hforward, hback⟩ := RecordingReader.reads_iff (complete_valid hvalid n) hcut
    (RecordingReader.opened_positioned path _) htake (messagesOf (complete recs n))
  obtain ⟨r', hreads⟩ := hback _ hscan
  obtain ⟨hsome, htruncated⟩ := hforward r' hreads
  have htopics : r'.topics = topicsOf (complete recs n) := congrArg Prod.snd (Option.some.inj (hsome.symm.trans hscan))
  have hlength : RecordingWriter.fileHeader.length = kFileHeaderSize := by decide
  have hfile : RecordingReader.OfFile (RecordingWriter.fileHeader ++ (recs.flatMap Record.bytes).take n)
      (.opened path ((recs.flatMap Record.bytes).take n)) := by
    refine ⟨?_, fun _ => ?_, fun _ => ?_, List.nodup_nil, List.not_mem_nil⟩
    · rw [List.length_append, hlength]
      rfl
    · rw [List.length_append, hlength]
      exact Nat.le_add_right _ _
    · exact (hlength ▸ List.drop_left).symm
  refine ⟨_, _, r', openFile_header path _, hfile, hreads, htopics, ?_⟩
  rw [htruncated, decide_eq_true_eq, ne_eq, hboundary]

theorem topicsOf_declared (n : Nat) (topics : List TopicInfo) (messages : List RecordedMessage) :
    topicsOf (declared n topics ++ messages.map .message) = topicsOf (declared n topics) ∧
      messagesOf (declared n topics ++ messages.map .message) = messages ∧
      (topicsOf (declared n topics)).map (·.name) = topics.map (·.name) := by
  induction topics generalizing n with
  | nil =>
    refine ⟨?_, ?_, rfl⟩
    · rw [declared, List.nil_append, topicsOf, List.filterMap_map]
      exact List.filterMap_eq_nil_iff.mpr fun _ _ => rfl
    · rw [declared, List.nil_append, messagesOf, List.filterMap_map]
      exact List.filterMap_some
  | cons topic topics ih =>
    obtain ⟨htopics, hmessages, hnames⟩ := ih (n + 1)
    exact ⟨congrArg (_ :: ·) htopics, hmessages, congrArg (topic.name :: ·) hnames⟩

/-- The topic with number `i` is found under the id after its number. -/
theorem find_declared {n i : Nat} {topics : List TopicInfo} {topic : TopicInfo} (htopic : topics[i]? = some topic)
    (hfew : n + topics.length < 2 ^ 32) :
    (topicsOf (declared n topics)).find? (·.id == UInt32.ofNat (n + i + 1)) =
      some { recordedTopic topic with id := UInt32.ofNat (n + i + 1) } := by
  induction topics generalizing n i with
  | nil => cases htopic
  | cons first topics ih =>
    have hcons : topicsOf (declared n (first :: topics)) =
        { recordedTopic first with id := UInt32.ofNat (n + 1) } :: topicsOf (declared (n + 1) topics) := rfl
    rw [List.length_cons] at hfew
    cases i with
    | zero =>
      cases htopic
      rw [hcons]
      exact List.find?_cons_of_pos (by simp)
    | succ i =>
      obtain ⟨hi, -⟩ := List.getElem?_eq_some_iff.mp htopic
      rw [List.length_cons] at hi
      have hne : ¬ UInt32.ofNat (n + 1) = UInt32.ofNat (n + (i + 1) + 1) := by
        intro heq
        have hnat := congrArg UInt32.toNat heq
        rw [toNat_ofNat (by omega), toNat_ofNat (by omega)] at hnat
        omega
      have hnext : n + (i + 1) + 1 = n + 1 + i + 1 := by omega
      rw [hcons, List.find?_cons_of_neg (by simpa using hne), hnext]
      exact ih htopic (by omega)

/-- A topic that `replay` can make again. -/
structure Replayable (environment : Environment) (args : ReplayArguments) (topic : TopicInfo) : Prop where
  kind : topic.transport = .fastDds ∧ args.fastDds = true ∨
    topic.transport = .ipc ∧ topic.geometry.validate.isOk = true ∧ topic.geometry.slotPayloadSize < 10 ^ 12
  opens : (environment.opens (topic.replayed args)).isOk = true

/-- What a replay publishes of a turn that was recorded. -/
def replayedFrom (args : ReplayArguments) (topics : List TopicInfo) : RecordTurn → Option (TopicInfo × Bytes)
  | .flush => none
  | .message index message =>
    topics[index]?.bind fun topic =>
      if args.wants topic.name then some (topic.replayed args, message.payload) else none

def replaysTo (args : ReplayArguments) (recorded : RecordedTopic) : TopicInfo :=
  (replayedTopic args recorded).toOption.getD { name := recorded.name, descriptor := recorded.descriptor }

theorem records_recordedTopic (topic : TopicInfo) (id : UInt32) : Records topic { recordedTopic topic with id } := ⟨rfl, rfl, rfl⟩

theorem Replayable.replaysTo {environment : Environment} {args : ReplayArguments} {topic : TopicInfo}
    (h : Replayable environment args topic) (hname : (validateName "topic name" topic.name).isOk = true) (id : UInt32) :
    openReplayChannel environment args { recordedTopic topic with id } = .ok (topic.replayed args) ∧
      replaysTo args { recordedTopic topic with id } = topic.replayed args := by
  have hrecords := records_recordedTopic topic id
  have hreplayed : replayedTopic args { recordedTopic topic with id } = .ok (topic.replayed args) := by
    rcases h.kind with ⟨hkind, hbuilt⟩ | ⟨hkind, hgeometry, hsize⟩
    · exact hrecords.replayedTopic_fastDds hkind hbuilt
    · exact (hrecords.replayedTopic_shm hkind hgeometry).mpr hsize
  refine ⟨?_, by rw [Tools.replaysTo, hreplayed]; rfl⟩
  rw [openReplayChannel, within_eq_ok, bind_eq_ok]
  refine ⟨_, hreplayed, ?_⟩
  rw [then_eq_ok, then_eq_ok, pure_eq_ok, Status.check_eq_ok, Status.check_eq_ok]
  exact ⟨hname, h.opens, rfl⟩

section whole

variable {environment : Environment} {args : ReplayArguments} {started : Int} {topics : List TopicInfo}

/-- What is published of the record of a turn is what is published of the turn. -/
theorem published_recordedBy (hfew : topics.length < 2 ^ 32)
    (hnames : ∀ topic ∈ topics, (validateName "topic name" topic.name).isOk = true)
    (hreplayable : ∀ topic ∈ topics, args.wants topic.name = true → Replayable environment args topic) (turn : RecordTurn) :
    (recordedBy started topics turn).bind (publishedOf args (topicsOf (declared 0 topics)) (replaysTo args)) =
      replayedFrom args topics turn := by
  cases turn with
  | flush => rfl
  | message index message =>
    cases htopic : topics[index]? with
    | none => simp only [recordedBy, replayedFrom, htopic, Option.map_none, Option.bind_none]
    | some topic =>
      have hmem := List.mem_of_getElem? htopic
      have hfind := find_declared htopic (by omega : 0 + topics.length < 2 ^ 32)
      rw [Nat.zero_add] at hfind
      simp only [recordedBy, replayedFrom, htopic, Option.map_some, Option.bind_some, publishedOf, hfind]
      by_cases hwanted : args.wants topic.name = true
      · have hsame := ((hreplayable topic hmem hwanted).replaysTo (hnames topic hmem) (UInt32.ofNat (index + 1))).2
        rw [hsame]
        rfl
      · have hleft : args.wants (recordedTopic topic).name = false := Bool.eq_false_iff.mpr hwanted
        simp only [hleft, hwanted]
        rfl

/-- A replay of what `reads_cut` reads. -/
theorem replay_cut {recs : List Recording.Record} {taken : List RecordTurn} (file : Bytes)
    (hrecs : recs = declared 0 topics ++ (taken.filterMap (recordedBy started topics)).map .message)
    (hvalid : ∀ rec ∈ recs, rec.Valid) (horderly : Orderly 0 recs) (hfew : topics.length < 2 ^ 32)
    (hnames : ∀ topic ∈ topics, (validateName "topic name" topic.name).isOk = true)
    (hreplayable : ∀ topic ∈ topics, args.wants topic.name = true → Replayable environment args topic)
    (hwrites : ∀ topic payload, (topic, payload) ∈ taken.filterMap (replayedFrom args topics) →
      (environment.writes topic payload).isOk = true)
    {n : Nat} (hn : n ≤ (recs.flatMap Record.bytes).length) :
    ∃ replayed, replay environment args file (RecordingWriter.fileHeader ++ (recs.flatMap Record.bytes).take n) = .ok replayed ∧
      replayed.published = (messagesOf (complete recs n)).filterMap
      (publishedOf args (topicsOf (declared 0 topics)) (replaysTo args)) ∧
      (replayed.truncated = true ↔ ¬ OnBoundary recs n) ∧
      (replayed.exitCode = 0 ↔ ∀ name ∈ args.topics, name ∈ (topicsOf (complete recs n)).map (·.name)) := by
  obtain ⟨htopics, hmessages, hsame⟩ := topicsOf_declared 0 topics (taken.filterMap (recordedBy started topics))
  rw [← hrecs] at htopics hmessages
  have hcount : (topicsOf recs).length = topics.length := by
    rw [htopics, ← List.length_map (·.name), hsame, List.length_map]
  obtain ⟨whole, r, r', hopen, hfile, hreads, hknown, htruncated⟩ :=
    reads_cut file hvalid horderly (hcount ▸ hfew) hn
  have hfound : r'.topics <+: topicsOf (declared 0 topics) := by
    rw [hknown, ← htopics]
    exact (complete_front recs n).filterMap _
  have htaken : ∀ message ∈ messagesOf (complete recs n), ∀ topic,
      (topicsOf (declared 0 topics)).find? (·.id == message.topic) = some topic →
        args.wants topic.name = true → Taken environment args (replaysTo args) topic message := by
    intro message hmessage recorded hrecorded hwanted
    -- the message is that of a turn, and its topic the topic of the turn
    have hin : message ∈ taken.filterMap (recordedBy started topics) :=
      hmessages ▸ ((complete_front recs n).filterMap _).subset hmessage
    obtain ⟨turn, hturn, hturned⟩ := List.mem_filterMap.mp hin
    have hpublished : publishedOf args (topicsOf (declared 0 topics)) (replaysTo args) message =
        some (replaysTo args recorded, message.payload) := by
      rw [publishedOf, hrecorded, Option.bind_some, if_pos hwanted]
    have hreplayed : replayedFrom args topics turn = some (replaysTo args recorded, message.payload) := by
      rw [← published_recordedBy hfew hnames hreplayable turn, hturned]
      exact hpublished
    refine ⟨?_, hwrites _ _ (List.mem_filterMap.mpr ⟨turn, hturn, hreplayed⟩)⟩
    cases turn with
    | flush => cases hturned
    | message index message' =>
      obtain ⟨topic, htopic, rfl⟩ := Option.map_eq_some_iff.mp hturned
      have hmem := List.mem_of_getElem? htopic
      have hfind := find_declared htopic (by omega : 0 + topics.length < 2 ^ 32)
      rw [Nat.zero_add] at hfind
      obtain rfl := Option.some.inj (hfind.symm.trans hrecorded)
      obtain ⟨hopened, hto⟩ := (hreplayable topic hmem hwanted).replaysTo (hnames topic hmem) (UInt32.ofNat (index + 1))
      exact hopened.trans (congrArg Except.ok hto.symm)
  have hnone : Channels args (topicsOf (declared 0 topics)) (replaysTo args) ({} : Replayer).channels :=
    fun id channel h => nomatch h
  obtain ⟨channels, hloop⟩ := replayLoop_reads hfile hreads hfound hnone htaken
  refine ⟨{ exitCode := if args.topics.all fun name => r'.topics.any (·.name = name) then 0 else 1
            published := (messagesOf (complete recs n)).filterMap
              (publishedOf args (topicsOf (declared 0 topics)) (replaysTo args))
            truncated := r'.truncated }, ?_, rfl, htruncated, ?_⟩
  · rw [replay, bind_eq_ok]
    refine ⟨r, hopen, ?_⟩
    rw [bind_eq_ok]
    exact ⟨_, hloop, rfl⟩
  · have hall : (args.topics.all fun name => r'.topics.any (·.name = name)) = true ↔
        ∀ name ∈ args.topics, name ∈ (topicsOf (complete recs n)).map (·.name) := by
      rw [List.all_eq_true, hknown]
      simp only [List.any_eq_true, decide_eq_true_eq, List.mem_map]
    rw [← hall]
    split
    · next h => exact ⟨fun _ => h, fun _ => rfl⟩
    · next h => exact ⟨fun hzero => absurd hzero Nat.one_ne_zero, fun h' => absurd h' h⟩

end whole

/-- What `record` took of its turns is what `replay` publishes of the file, each message on the
topic it came from; of a file that is cut off anywhere behind its header, a prefix of it. -/
theorem recording_replays {environment : Environment} {args : ReplayArguments} {subscribe : TopicInfo → Result Unit}
    {path : Bytes} {topics : List TopicInfo} {started : Int} {count : UInt64} {turns : List RecordTurn} {recorder : Recorder}
    (hrecord : record subscribe path topics started count turns = .ok recorder) (hfew : topics.length < 2 ^ 32)
    (hreplayable : ∀ topic ∈ topics, args.wants topic.name = true → Replayable environment args topic)
    (hwrites : ∀ topic payload, (topic, payload) ∈ turns.filterMap (replayedFrom args topics) →
      (environment.writes topic payload).isOk = true) (file : Bytes) :
    ∃ taken, Takes count started topics taken turns ∧
      ∀ n, kFileHeaderSize ≤ n → n ≤ recorder.writer.out.length →
        ∃ replayed, replay environment args file (recorder.writer.out.take n) = .ok replayed ∧
          replayed.published <+: taken.filterMap (replayedFrom args topics) ∧
          (n = recorder.writer.out.length →
            replayed.published = taken.filterMap (replayedFrom args topics) ∧ replayed.truncated = false ∧
              (replayed.exitCode = 0 ↔ ∀ name ∈ args.topics, ∃ topic ∈ topics, topic.name = name)) := by
  obtain ⟨hnames, taken, htakes, -, calls, hwriter, haccepted⟩ := record_run hrecord
  refine ⟨taken, htakes, fun n hheader hn => ?_⟩
  have hlength : RecordingWriter.fileHeader.length = kFileHeaderSize := by decide
  have hvalid := RecordingWriter.accepted_valid (.create path) calls
  have horderly : Orderly 0 ((RecordingWriter.create path).accepted calls) :=
    RecordingWriter.accepted_orderly (.create path) calls
  have hout : recorder.writer.out =
      RecordingWriter.fileHeader ++ ((RecordingWriter.create path).accepted calls).flatMap Record.bytes := by
    rw [hwriter, run_records]
  generalize (RecordingWriter.create path).accepted calls = recs at haccepted hvalid horderly hout
  have hsize : recorder.writer.out.length = kFileHeaderSize + (recs.flatMap Record.bytes).length := by
    rw [hout, List.length_append, hlength]
  have htaken : ∀ topic payload, (topic, payload) ∈ taken.filterMap (replayedFrom args topics) →
      (environment.writes topic payload).isOk = true := fun topic payload h =>
    hwrites topic payload ((htakes.isPrefix.filterMap _).subset h)
  obtain ⟨replayed, hreplay, hpublished, htruncated, hexit⟩ :=
    replay_cut file haccepted hvalid horderly hfew hnames hreplayable htaken (n := n - kFileHeaderSize) (by omega)
  obtain ⟨htopics, hmessages, hsame⟩ := topicsOf_declared 0 topics (taken.filterMap (recordedBy started topics))
  rw [← haccepted] at htopics hmessages
  have hturns : (messagesOf recs).filterMap (publishedOf args (topicsOf (declared 0 topics)) (replaysTo args)) =
      taken.filterMap (replayedFrom args topics) := by
    rw [hmessages, List.filterMap_filterMap]
    exact List.filterMap_congr fun turn _ => published_recordedBy hfew hnames hreplayable turn
  refine ⟨replayed, ?_, ?_, ?_⟩
  · rw [hout, List.take_append, List.take_of_length_le (by omega), hlength]
    exact hreplay
  · rw [hpublished, ← hturns]
    exact ((complete_front recs _).filterMap _).filterMap _
  · intro hwhole
    have hcomplete : complete recs (n - kFileHeaderSize) = recs := by
      rw [hwhole, hsize, Nat.add_sub_cancel_left, complete_all]
    refine ⟨by rw [hpublished, hcomplete, hturns], ?_, ?_⟩
    · rw [← Bool.not_eq_true, htruncated, not_not]
      exact ⟨recs.length, by rw [List.take_length, hwhole, hsize, Nat.add_sub_cancel_left]⟩
    · rw [hexit, hcomplete, htopics, hsame]
      simp only [List.mem_map]

/-- A limit of two, which is reached before the flush. -/
theorem recording_replays_two :
    ∃ recorder, record (fun _ => .ok ()) [114] [plainInfo] 5 2 fewTurns = .ok recorder ∧
      ∃ taken, Takes 2 5 [plainInfo] taken fewTurns ∧
        ∀ n, kFileHeaderSize ≤ n → n ≤ recorder.writer.out.length →
          ∃ replayed, replay ⟨fun _ => .ok, fun _ _ => .ok⟩ {} [114] (recorder.writer.out.take n) = .ok replayed ∧
            replayed.published <+: taken.filterMap (replayedFrom {} [plainInfo]) ∧
            (n = recorder.writer.out.length →
              replayed.published = taken.filterMap (replayedFrom {} [plainInfo]) ∧ replayed.truncated = false ∧
                (replayed.exitCode = 0 ↔
                  ∀ name ∈ ({} : ReplayArguments).topics, ∃ topic ∈ [plainInfo], topic.name = name)) := by
  obtain ⟨recorder, hrecord⟩ := few_turns_recorded
  refine ⟨recorder, hrecord, recording_replays hrecord (by decide) ?_ (fun _ _ _ => rfl) [114]⟩
  intro topic hmem _
  obtain rfl := List.mem_singleton.mp hmem
  exact ⟨.inr ⟨rfl, by decide +kernel, by decide⟩, rfl⟩

end PuppetMaster.Tools
