/-
  PuppetMaster.Configuration.Supervisor — `Supervisor::Run`.

  `Run` is one thread. A move is its next step, with what the world answers there (a clock
  reading, the launcher's result, a child's exit status), or a stop request of another
  thread. Any answer is possible in any step; the clock may even go back.

  A child reaps its process once: `Poll` when it sees the exit, else the destructor. The
  processes are numbered in the order they were started (a process id may come again), and
  `reaped` is the history of what was reaped. `asked` are the nodes that were asked to stop,
  and `snapshot` the nodes as `StopAll` found them; a node's `history` has the times of its
  ended runs, failed starts included, and the wait that followed, the newest first.

  Durations and time points are integers. Those of a manifest that was read are at most a
  day, so neither the doubling of a delay nor its addition to a time point overflows; for a
  `SystemManifest` or `SupervisorOptions` built in code that bound is an assumption.
-/

import PuppetMaster.Core.Status

namespace PuppetMaster.Configuration.Supervisor

open PuppetMaster.Core

/-! ## The manifest -/

structure ProcessExit where
  code : Int
  signaled : Bool
  deriving DecidableEq, Repr

def ProcessExit.success (exit : ProcessExit) : Bool := !exit.signaled && exit.code == 0

def ProcessExit.toText (exit : ProcessExit) : Bytes :=
  text (if exit.signaled then "signal " else "exit code ") ++ text (toString exit.code)

inductive Restart where
  | never
  | onFailure
  | always
  deriving DecidableEq, Repr

structure NodeManifest where
  name : Bytes
  startDelay : Int := 0
  restart : Restart := .never
  maxRestarts : UInt32 := 5
  restartDelay : Int := 500
  required : Bool := true
  stopTimeout : Int := 5000
  deriving DecidableEq

structure SupervisorOptions where
  logDirectory : Bytes := []
  stableRun : Int := 10000
  maxRestartDelay : Int := 30000
  deriving DecidableEq

structure System where
  options : SupervisorOptions := {}
  nodes : List NodeManifest

/-! ## The nodes -/

inductive Phase where
  | pending
  | running
  | backoff
  | done
  deriving DecidableEq, Repr

/-- `ChildProcess`: `exit` once the process has been waited for. -/
structure Child where
  process : Nat
  id : Int
  exit : Option ProcessExit
  deriving DecidableEq, Repr

structure Ending where
  startedAt : Int
  endedAt : Int
  wait : Option Int
  deriving DecidableEq, Repr

structure Node where
  manifest : NodeManifest
  phase : Phase
  child : Option Child
  startedAt : Int
  restartAt : Int
  delay : Int
  restarts : UInt32
  failed : Bool
  history : List Ending
  deriving DecidableEq

def Node.fresh (manifest : NodeManifest) : Node where
  manifest := manifest
  phase := .pending
  child := none
  startedAt := 0
  restartAt := 0
  delay := manifest.restartDelay
  restarts := 0
  failed := false
  history := []

inductive EventKind where
  | started
  | startFailed
  | exited
  | restarting
  | gaveUp
  | stopping
  | killed
  | stopped
  deriving DecidableEq, Repr

structure SupervisorEvent where
  kind : EventKind
  node : Bytes
  detail : Bytes
  deriving DecidableEq, Repr

structure SupervisorResult where
  reason : Bytes
  exitCode : Int
  deriving DecidableEq, Repr

/-- What `waitpid` did: the child after it, and the processes it reaped. -/
def Child.poll (child : Child) (polled : Option ProcessExit) : Child × List Nat :=
  match child.exit, polled with
  | none, some exit => ({ child with exit := some exit }, [child.process])
  | _, _ => (child, [])

/-- `reset` of the handle. -/
def Child.destroy : Option Child → List Nat
  | some child => if child.exit.isNone then [child.process] else []
  | none => []

/-- `Ended` up to the restart policy. -/
def Node.rested (options : SupervisorOptions) (node : Node) (startedAt now : Int) : Node :=
  let node := { node with child := none }
  if options.stableRun ≤ now - startedAt then { node with restarts := 0, delay := node.manifest.restartDelay } else node

def NodeManifest.wanted (spec : NodeManifest) (success : Bool) : Bool :=
  spec.restart = .always || (spec.restart = .onFailure && !success)

def Node.allowed (node : Node) : Bool := node.manifest.maxRestarts = 0 || node.restarts < node.manifest.maxRestarts

def Node.backsOff (options : SupervisorOptions) (node : Node) (startedAt now : Int) : Node :=
  { node with
    restarts := node.restarts + 1
    phase := .backoff
    restartAt := now + node.delay
    delay := min (node.delay * 2) (max options.maxRestartDelay node.manifest.restartDelay)
    history := ⟨startedAt, now, some node.delay⟩ :: node.history }

def Node.finishes (node : Node) (success : Bool) (startedAt now : Int) : Node :=
  { node with phase := .done, failed := !success, history := ⟨startedAt, now, none⟩ :: node.history }

/-- The node restarts after a run that ended so. -/
def Node.restartsAfter (options : SupervisorOptions) (node : Node) (success : Bool) (startedAt now : Int) : Bool :=
  node.manifest.wanted success && (node.rested options startedAt now).allowed

def Node.ended (options : SupervisorOptions) (node : Node) (success : Bool) (startedAt now : Int) : Node :=
  if node.restartsAfter options success startedAt now then
    (node.rested options startedAt now).backsOff options startedAt now
  else (node.rested options startedAt now).finishes success startedAt now

/-! ## The state -/

/--
`starting i` is the head of the loop over the nodes, `supervising` that of `SuperviseUntil`,
from which `next` says where to go; `visiting` is in `Supervise` and `resting` after it.
`stopping` and `waiting` are in `StopAll`, with `left` nodes left.
-/
inductive Pc where
  | creatingLogs
  | starting (index : Nat)
  | launching (index : Nat)
  | supervising (next : Nat) (deadline : Option Int)
  | visiting (next : Nat) (deadline : Option Int) (index : Nat)
  | resting (next : Nat) (deadline : Option Int)
  | stopping (result : SupervisorResult) (left : Nat)
  | waiting (result : SupervisorResult) (left : Nat) (killed : Bool) (deadline : Int)
  | killing (result : SupervisorResult) (left : Nat)
  | returned (result : SupervisorResult)
  deriving DecidableEq

structure State where
  nodes : List Node
  stopRequested : Bool
  ending : Option SupervisorResult
  pc : Pc
  started : Nat
  reaped : List Nat
  asked : List Nat
  snapshot : Option (List Node)
  events : List SupervisorEvent
  deriving DecidableEq

def initial (system : System) : State where
  nodes := system.nodes.map .fresh
  stopRequested := false
  ending := none
  pc := .creatingLogs
  started := 0
  reaped := []
  asked := []
  snapshot := none
  events := []

/-- `now`: the clock. `created`: the log directory is there. `polled`: what `waitpid` finds. -/
structure Answer where
  now : Int := 0
  created : Result Unit := .ok ()
  launched : Result Int := .ok 0
  polled : Option ProcessExit := none

namespace State

def emit (s : State) (kind : EventKind) (node : Node) (detail : Bytes) : State :=
  { s with events := s.events ++ [⟨kind, node.manifest.name, detail⟩] }

def goto (s : State) (pc : Pc) : State := { s with pc := pc }

def milliseconds (value : Int) : Bytes := text (toString value) ++ text " ms"

/-! ## Ended and Start -/

def requiredReason (spec : NodeManifest) (success : Bool) : SupervisorResult :=
  ⟨text "required node " ++ spec.name ++ text (if success then " ended" else " failed"), if success then 0 else 1⟩

def restartDetail (node rested : Node) : Bytes :=
  text "in " ++ milliseconds rested.delay ++ text ", restart " ++ text (toString node.restarts)
    ++ if node.manifest.maxRestarts = 0 then [] else text " of " ++ text (toString node.manifest.maxRestarts)

def ended (options : SupervisorOptions) (s : State) (index : Nat) (node : Node) (success : Bool) (startedAt now : Int) :
    State :=
  let after := node.ended options success startedAt now
  let s := { s with nodes := s.nodes.set index after, reaped := s.reaped ++ Child.destroy node.child }
  if node.restartsAfter options success startedAt now then
    s.emit .restarting after (restartDetail after (node.rested options startedAt now))
  else
    let s := if node.manifest.wanted success then
        s.emit .gaveUp after (text "after " ++ text (toString after.restarts) ++ text " restarts")
      else s
    if node.manifest.required && s.ending.isNone then
      { s with ending := some (requiredReason node.manifest success) }
    else s

def start (options : SupervisorOptions) (s : State) (index : Nat) (node : Node) (now : Int) (launched : Result Int) :
    State :=
  match launched with
  | .error status => (s.emit .startFailed node status.message).ended options index node false now now
  | .ok id =>
    let node := { node with child := some ⟨s.started, id, none⟩, phase := .running, startedAt := now }
    { s with nodes := s.nodes.set index node, started := s.started + 1 }.emit .started node
      (text "pid " ++ text (toString id))

/-! ## Supervise -/

def visit (options : SupervisorOptions) (s : State) (index : Nat) (node : Node) (answer : Answer) : Option State :=
  match node.phase with
  | .running =>
    match node.child with
    | none => none
    | some child =>
      let polled := child.poll answer.polled
      let node := { node with child := some polled.1 }
      let s := { s with nodes := s.nodes.set index node, reaped := s.reaped ++ polled.2 }
      match polled.1.exit with
      | none => some s
      | some exit =>
        some ((s.emit .exited node exit.toText).ended options index node exit.success node.startedAt answer.now)
  | .backoff =>
    if node.restartAt ≤ answer.now then some (s.start options index node answer.now answer.launched) else some s
  | .pending | .done => some s

def allDone (nodes : List Node) : Bool := nodes.all fun node => decide (node.phase = .done)

def anyFailed (nodes : List Node) : Bool := nodes.any (·.failed)

/-- The end of a round. -/
def roundEnds (s : State) : State :=
  if s.ending.isNone && allDone s.nodes then
    { s with ending := some ⟨text "every node ended", if anyFailed s.nodes then 1 else 0⟩ }
  else s

def stopReason : SupervisorResult := ⟨text "stop requested", 0⟩

/-- `SuperviseUntil` returns: to the next node, or, from the last call, to `StopAll`. -/
def leave (s : State) (next : Nat) (deadline : Option Int) : State :=
  match deadline with
  | some _ => s.goto (.starting next)
  | none => { s with snapshot := some s.nodes, pc := .stopping (s.ending.getD stopReason) s.nodes.length }

/-! ## StopAll -/

/-- The handle goes, and with it the process. -/
def stopped (s : State) (index : Nat) (node : Node) (exit : Option ProcessExit) : State :=
  let s := s.emit .stopped node ((exit.map ProcessExit.toText).getD (text "did not end after a kill"))
  { s with
    nodes := s.nodes.set index { node with child := none, phase := .done }
    reaped := s.reaped ++ Child.destroy node.child }

def waitForExit (s : State) (result : SupervisorResult) (index : Nat) (node : Node) (killed : Bool) (deadline : Int)
    (answer : Answer) : Option State :=
  match node.child with
  | none => none
  | some child =>
    let polled := child.poll answer.polled
    let node := { node with child := some polled.1 }
    let s := { s with nodes := s.nodes.set index node, reaped := s.reaped ++ polled.2 }
    if polled.1.exit.isSome || deadline ≤ answer.now then
      if polled.1.exit.isNone && !killed then some (s.goto (.killing result (index + 1)))
      else some ((s.stopped index node polled.1.exit).goto (.stopping result index))
    else some s

def pidText (node : Node) : Bytes := text "pid " ++ text (toString ((node.child.map Child.id).getD 0))

/-! ## Run -/

def runStep (system : System) (s : State) (answer : Answer) : Option State :=
  match s.pc with
  | .creatingLogs =>
    if system.options.logDirectory = [] then some (s.goto (.starting 0))
    else
      match answer.created with
      | .ok () => some (s.goto (.starting 0))
      | .error status =>
        some (s.goto (.returned ⟨text "creating " ++ system.options.logDirectory ++ text ": " ++ status.message, 1⟩))
  | .starting index =>
    if s.nodes.length ≤ index || s.ending.isSome || s.stopRequested then some (s.goto (.supervising 0 none))
    else some (s.goto (.launching index))
  | .launching index =>
    match s.nodes[index]? with
    | none => none
    | some node =>
      some ((s.start system.options index node answer.now answer.launched).goto
        (.supervising (index + 1) (some (answer.now + node.manifest.startDelay))))
  | .supervising next deadline =>
    if s.ending.isSome || s.stopRequested then some (s.leave next deadline)
    else some (s.goto (.visiting next deadline 0))
  | .visiting next deadline index =>
    match s.nodes[index]? with
    | none => some (s.roundEnds.goto (.resting next deadline))
    | some node => (s.visit system.options index node answer).map (·.goto (.visiting next deadline (index + 1)))
  | .resting next deadline =>
    if s.ending.isSome || deadline.any (fun d => decide (d ≤ answer.now)) then some (s.leave next deadline)
    else some (s.goto (.supervising next deadline))
  | .stopping result left =>
    match left with
    | 0 => some (s.goto (.returned result))
    | index + 1 =>
      match s.nodes[index]? with
      | none => none
      | some node =>
        if node.phase = .running then
          some { (s.emit .stopping node (pidText node)).goto
            (.waiting result (index + 1) false (answer.now + node.manifest.stopTimeout)) with
            asked := s.asked ++ [index] }
        else some { s.goto (.stopping result index) with nodes := s.nodes.set index { node with phase := .done } }
  | .waiting result left killed deadline =>
    match left with
    | 0 => none
    | index + 1 =>
      match s.nodes[index]? with
      | none => none
      | some node => s.waitForExit result index node killed deadline answer
  | .killing result left =>
    match left with
    | 0 => none
    | index + 1 =>
      match s.nodes[index]? with
      | none => none
      | some node =>
        some ((s.emit .killed node (text "still running after " ++ milliseconds node.manifest.stopTimeout)).goto
          (.waiting result (index + 1) true (answer.now + 5000)))
  | .returned _ => none

end State

inductive Move where
  | run (answer : Answer)
  | requestStop

def step (system : System) (s : State) : Move → Option State
  | .run answer => s.runStep system answer
  | .requestStop => some { s with stopRequested := true }

end PuppetMaster.Configuration.Supervisor
