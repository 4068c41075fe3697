/-
  PuppetMaster.Service.Deadlines — the 64-bit arithmetic of deadlines: what `Start`,
  `AwaitServerLocked` and `Dispatch` compute from a call's timeout, and `Serve` from a
  request's budget.

  A time point is its nanoseconds. None of the sums, differences and products is checked, so
  one that does not fit has no value here. (`Service.Client` and `Service.Server` compute the
  same in unbounded numbers: `callDeadline_agrees`, `giveUpTime_agrees`, `countsExpired_agrees`
  say that the two are equal wherever the code's arithmetic has a value.)

  `call_deadlines_fit_iff`: a call's deadline and the waits made of it, and a request's
  deadline, have their values exactly when timeout and budget lie far enough from the ends of
  the 64 bits for the clock readings. `nanoseconds::max()`, the natural way to wait without
  limit, does not, from the first nanosecond on.
-/

import PuppetMaster.Lib.Signed
import PuppetMaster.Service.Server

namespace PuppetMaster.Service

open PuppetMaster.Core PuppetMaster.Lib

/-! ## The client -/

def pollInterval : Int := 20000000

/-- How long the second loop of `AwaitServerLocked` waits at most. -/
def matchInterval : Int := 5000000

/-- The check at the top of `Call` and of `CallAsync`. -/
def checkTimeout (timeout : Int) : Status :=
  if timeout ≤ 0 then .error .invalidArgument (text "service call timeout must be positive") else .ok

/-- `Now() + timeout`, in `Start`. -/
def callDeadline (now timeout : Int) : Option Int := addInt64 now timeout

/-- `std::min(deadline, Now() + Liveness())`. -/
def giveUpTime (spec : ServiceSpec) (deadline now : Int) : Option Int := do
  let window ← mulInt64 3 spec.heartbeatInterval
  let alive ← addInt64 now window
  return min deadline alive

def searchWait (giveUp now : Int) : Option Int := (subInt64 giveUp now).map (min · pollInterval)

def matchWait (deadline now : Int) : Option Int := (subInt64 deadline now).map (min · matchInterval)

/-- `wake` and then `wait` in `Dispatch`, for one pending call: `later` is the second `Now()`. -/
def dispatchWait (spec : ServiceSpec) (deadline now later : Int) : Option Int := do
  let wake ← addInt64 now (min pollInterval spec.heartbeatInterval)
  let wait ← subInt64 (min wake deadline) later
  return max wait 0

/-- What the steady clock shows during a call: in `Start`, at the beginning of `AwaitServerLocked`, in a round of either
    of its loops, and twice in a round of `Dispatch`. -/
structure Readings where
  started : Int
  entered : Int
  searching : Int
  matching : Int
  dispatched : Int
  slept : Int
  fits : FitsInt64 started ∧ FitsInt64 entered ∧ FitsInt64 searching ∧ FitsInt64 matching ∧ FitsInt64 dispatched
    ∧ FitsInt64 slept
  steady : started ≤ entered ∧ entered ≤ searching ∧ entered ≤ matching ∧ dispatched ≤ slept

/-- The deadline of a call and the waits made of it have their values, and the deadline is in the future. A loop that is
    past its time returns and computes no wait. -/
def ClientFits (spec : ServiceSpec) (timeout : Int) (r : Readings) : Prop :=
  ∃ deadline giveUp, callDeadline r.started timeout = some deadline ∧ r.started < deadline
    ∧ giveUpTime spec deadline r.entered = some giveUp
    ∧ (r.searching < giveUp → (searchWait giveUp r.searching).isSome = true)
    ∧ (r.matching < deadline → (matchWait deadline r.matching).isSome = true)
    ∧ (dispatchWait spec deadline r.dispatched r.slept).isSome = true

/-- Room for the timeout, for three heartbeats and for one poll interval after the readings they are added to; and no
    reading comes 2^63 nanoseconds after the time it is subtracted from. -/
def ClientHasRoom (spec : ServiceSpec) (timeout : Int) (r : Readings) : Prop :=
  timeout ≤ maxInt64 - r.started
    ∧ 3 * spec.heartbeatInterval ≤ min maxInt64 (maxInt64 - r.entered)
    ∧ min pollInterval spec.heartbeatInterval ≤ maxInt64 - r.dispatched
    ∧ r.slept + minInt64 ≤ min (r.dispatched + min pollInterval spec.heartbeatInterval) (r.started + timeout)

instance (spec : ServiceSpec) (timeout : Int) (r : Readings) : Decidable (ClientHasRoom spec timeout r) :=
  inferInstanceAs (Decidable (_ ∧ _ ∧ _ ∧ _))

theorem client_fits_iff {spec : ServiceSpec} {timeout : Int} (hspec : 0 < spec.heartbeatInterval)
    (hcount : FitsInt64 timeout) (haccepted : (checkTimeout timeout).isOk = true) (r : Readings) :
    ClientFits spec timeout r ↔ ClientHasRoom spec timeout r := by
  have hpositive : 0 < timeout := by
    unfold checkTimeout at haccepted
    split at haccepted
    · cases haccepted
    · omega
  obtain ⟨hstarted, hentered, -, -, hdispatched, hslept⟩ := r.fits
  obtain ⟨hle, hsearching, hmatching, hlater⟩ := r.steady
  rw [fitsInt64_iff] at hcount hstarted hentered hdispatched hslept
  have hpoll : pollInterval = 20000000 := rfl
  have hmax : maxInt64 = 2 ^ 63 - 1 := rfl
  have hmin : minInt64 = -(2 ^ 63) := rfl
  unfold ClientHasRoom
  constructor
  · intro h
    obtain ⟨deadline, giveUp, hdeadline, -, hgiveUp, -, -, hwait⟩ := h
    obtain ⟨hadded, rfl⟩ := signed_eq_some_iff.mp hdeadline
    simp only [giveUpTime, Option.bind_eq_bind, Option.bind_eq_some_iff] at hgiveUp
    obtain ⟨window, hwindow, alive, halive, -⟩ := hgiveUp
    obtain ⟨htripled, rfl⟩ := signed_eq_some_iff.mp hwindow
    have hheard := (signed_eq_some_iff.mp halive).1
    obtain ⟨wait, hwait⟩ := Option.isSome_iff_exists.mp hwait
    simp only [dispatchWait, Option.bind_eq_bind, Option.bind_eq_some_iff] at hwait
    obtain ⟨wake, hwake, difference, hdifference, -⟩ := hwait
    obtain ⟨hstepped, rfl⟩ := signed_eq_some_iff.mp hwake
    have hsubtracted := (signed_eq_some_iff.mp hdifference).1
    rw [fitsInt64_iff] at hadded htripled hheard hstepped hsubtracted
    omega
  · intro h
    obtain ⟨htimeout, hheartbeat, hstep, hsubtract⟩ := h
    have hdeadline : callDeadline r.started timeout = some (r.started + timeout) :=
      signed_of_fits (fitsInt64_iff.mpr (by omega))
    have hwindow : mulInt64 3 spec.heartbeatInterval = some (3 * spec.heartbeatInterval) :=
      signed_of_fits (fitsInt64_iff.mpr (by omega))
    have halive : addInt64 r.entered (3 * spec.heartbeatInterval) = some (r.entered + 3 * spec.heartbeatInterval) :=
      signed_of_fits (fitsInt64_iff.mpr (by omega))
    have hwake : addInt64 r.dispatched (min pollInterval spec.heartbeatInterval)
        = some (r.dispatched + min pollInterval spec.heartbeatInterval) :=
      signed_of_fits (fitsInt64_iff.mpr (by omega))
    have hgiveUp : giveUpTime spec (r.started + timeout) r.entered
        = some (min (r.started + timeout) (r.entered + 3 * spec.heartbeatInterval)) := by
      rw [giveUpTime, hwindow, Option.bind_eq_bind, Option.bind_some, halive]
      rfl
    refine ⟨_, _, hdeadline, by omega, hgiveUp, ?_, ?_, ?_⟩
    · intro hbefore
      rw [searchWait, subInt64, signed_of_fits (fitsInt64_iff.mpr (by omega))]
      rfl
    · intro hbefore
      rw [matchWait, subInt64, signed_of_fits (fitsInt64_iff.mpr (by omega))]
      rfl
    · rw [dispatchWait, hwake, Option.bind_eq_bind, Option.bind_some, subInt64,
        signed_of_fits (fitsInt64_iff.mpr (by omega))]
      rfl

/-! ## The server -/

/-- The deadline of a request, in `Serve`; the epoch where it has none. -/
def requestDeadline (header : Header) (received : Int) : Option Int :=
  if header.budgetNs = 0 then some 0 else addInt64 received header.budgetNs.toInt

/-- Whether `Serve` counts the request as expired. -/
def countsExpired (header : Header) (received now : Int) : Option Bool :=
  (requestDeadline header received).map fun deadline => decide (header.budgetNs ≠ 0) && decide (deadline < now)

/-- A request's deadline has its value, and expired are only those whose budget has passed. -/
def ServerFits (header : Header) (received now : Int) : Prop :=
  (requestDeadline header received).isSome = true
    ∧ (countsExpired header received now = some true → header.budgetNs.toInt ≤ now - received)

/-- There is no budget, or room for it after (a negative one: before) the request's arrival. -/
def ServerHasRoom (header : Header) (received : Int) : Prop :=
  header.budgetNs = 0 ∨ minInt64 - received ≤ header.budgetNs.toInt ∧ header.budgetNs.toInt ≤ maxInt64 - received

instance (header : Header) (received : Int) : Decidable (ServerHasRoom header received) :=
  inferInstanceAs (Decidable (_ ∨ _ ∧ _))

theorem server_fits_iff (header : Header) (received now : Int) :
    ServerFits header received now ↔ ServerHasRoom header received := by
  unfold ServerFits ServerHasRoom countsExpired requestDeadline
  by_cases hzero : header.budgetNs = 0
  · simp [hzero]
  · rw [if_neg hzero, addInt64]
    by_cases hfits : FitsInt64 (received + header.budgetNs.toInt)
    · rw [signed_of_fits hfits]
      obtain ⟨hlow, hhigh⟩ := hfits
      refine ⟨fun _ => .inr ⟨by omega, by omega⟩, fun _ => ⟨rfl, ?_⟩⟩
      intro hexpired
      simp only [Option.map_some, Option.some.injEq, Bool.and_eq_true, decide_eq_true_eq] at hexpired
      omega
    · rw [signed_eq_none_iff.mpr hfits]
      refine ⟨fun h => absurd h.1 Bool.false_ne_true, fun h => ?_⟩
      obtain ⟨hlow, hhigh⟩ := h.resolve_left hzero
      exact absurd ⟨by omega, by omega⟩ hfits

/-! ## The same in unbounded numbers -/

/-- The deadline that a call of `Service.Client` carries. -/
theorem callDeadline_agrees {spec : ServiceSpec} {clientId : UInt64} {s t : Client} {request : Bytes}
    {timeout now deadline : Int} {mayWait : Bool}
    (hs : step spec clientId s (.call request timeout mayWait now) = some t)
    (hdeadline : callDeadline now timeout = some deadline) :
    ∃ call, t.calls = s.calls ++ [call] ∧ call.timeout = timeout ∧ call.deadline = deadline := by
  obtain ⟨-, rfl⟩ := signed_eq_some_iff.mp hdeadline
  simp only [step] at hs
  split at hs
  · cases hs
    exact ⟨_, rfl, rfl, rfl⟩
  · cases hs

/-- The time at which its first loop gives up. -/
theorem giveUpTime_agrees {spec : ServiceSpec} {deadline now giveUp : Int}
    (h : giveUpTime spec deadline now = some giveUp) : giveUp = min deadline (now + liveness spec) := by
  simp only [giveUpTime, Option.bind_eq_bind, Option.bind_eq_some_iff] at h
  obtain ⟨window, hwindow, alive, halive, heq⟩ := h
  obtain ⟨-, rfl⟩ := signed_eq_some_iff.mp hwindow
  obtain ⟨-, rfl⟩ := signed_eq_some_iff.mp halive
  exact (Option.some.inj heq).symm

/-- The check of `Service.Server`. -/
theorem countsExpired_agrees {header : Header} {received now : Int} {expired : Bool}
    (h : countsExpired header received now = some expired) : expired = isExpired header received now := by
  unfold countsExpired requestDeadline at h
  unfold isExpired
  by_cases hzero : header.budgetNs = 0
  · rw [if_pos hzero] at h
    rw [← Option.some.inj h, hzero]
    rfl
  · rw [if_neg hzero] at h
    obtain ⟨deadline, hdeadline, rfl⟩ := Option.map_eq_some_iff.mp h
    obtain ⟨-, rfl⟩ := signed_eq_some_iff.mp hdeadline
    rfl

/-! ## Deadlines -/

/-- For every call that `Call` or `CallAsync` accepts, of a client that `Create` accepts, and for every request. -/
theorem call_deadlines_fit_iff {spec : ServiceSpec} {timeout : Int} (hspec : 0 < spec.heartbeatInterval)
    (hcount : FitsInt64 timeout) (haccepted : (checkTimeout timeout).isOk = true) (r : Readings) (header : Header)
    (received now : Int) :
    ClientFits spec timeout r ∧ ServerFits header received now
      ↔ ClientHasRoom spec timeout r ∧ ServerHasRoom header received :=
  and_congr (client_fits_iff hspec hcount haccepted r) (server_fits_iff header received now)

/-- A clock that shows one second in `Start` and goes on from there. -/
def firstSeconds : Readings where
  started := 1000000000
  entered := 1000000010
  searching := 1000000020
  matching := 1000000030
  dispatched := 1000000040
  slept := 1020000040
  fits := by decide
  steady := by decide

theorem a_call_of_one_second_fits :
    ClientFits ⟨text "query", 500000000⟩ 1000000000 firstSeconds
      ∧ ServerFits { magic := requestMagic, clientId := 1, requestId := 1, budgetNs := 1000000000 } 2000000000 4000000000 :=
  (call_deadlines_fit_iff (by decide) (by decide) (by decide) firstSeconds _ _ _).mpr (by decide)

/-- Waiting without limit: neither the client's deadline nor the server's has a value. -/
theorem waiting_for_ever_overflows :
    (checkTimeout maxInt64).isOk = true ∧ callDeadline firstSeconds.started maxInt64 = none
      ∧ ¬ ClientFits ⟨text "query", 500000000⟩ maxInt64 firstSeconds
      ∧ ¬ ServerFits { magic := requestMagic, clientId := 1, requestId := 1, budgetNs := Int64.maxValue } 2000000000 4000000000
        := by
  have hnone : callDeadline firstSeconds.started maxInt64 = none := by decide
  refine ⟨by decide, hnone, ?_, ?_⟩
  · intro h
    obtain ⟨deadline, -, hdeadline, -⟩ := h
    rw [hnone] at hdeadline
    cases hdeadline
  · intro h
    exact absurd h.1 (by decide)

end PuppetMaster.Service
