import LiveMigration.Controller.Basic
import LiveMigration.Rehearsal.Script
import LiveMigration.Telemetry.Publish

/-!
# Rehearsals

A controller among scripted hosts, on a clock that only scripted delays, pauses and time limits move. A
migration makes progress only while somebody waits, and waits to be started until then.
-/

namespace LiveMigration

namespace Rehearsal

inductive Event
  | answer (c : Call) (o : Outcome c.Reply)
  | wake

structure Due where
  micros : Nat
  job : JobId
  event : Event

end Rehearsal

structure Rehearsal where
  script : Rehearsal.Script
  telemetry : TelemetryPaths
  controller : Controller
  now : Nat
  due : List Rehearsal.Due
  tally : Rehearsal.Tally
  calls : List (Nat × Call)
  disk : Disk

namespace Rehearsal

def ofController (script : Script) (telemetry : TelemetryPaths) (c : Controller) : Rehearsal :=
  ⟨script, telemetry, c, 0, [], .empty, [], .empty⟩

def moment (r : Rehearsal) : Moment := ⟨r.now, .ofMillis (r.now / 1000)⟩

def call (r : Rehearsal) (job : JobId) (c : Call) : Rehearsal :=
  let b := r.script.behaviour c
  let number := r.tally.count c
  let duration := b.duration c number
  let done : Due := ⟨r.now + duration * 1000, job, .answer c (.ofExcept (b.result c number r.moment.wall))⟩
  let due :=
    match c.limit? r.controller.config.migration with
    | none => done
    | some limit =>
      if duration ≤ limit then done else ⟨r.now + limit * 1000, job, .answer c .expired⟩
  { r with due := r.due ++ [due], tally := r.tally.add c, calls := (r.now, c) :: r.calls }

def perform (job : JobId) (r : Rehearsal) : Effect → Rehearsal
  | .call c => r.call job c
  | .write .. => r
  | .pause micros => { r with due := r.due ++ [⟨r.now + micros, job, .wake⟩] }
  | .publish j => { r with disk := r.telemetry.publish j r.disk }

def turn (r : Rehearsal) (job : JobId) (step : Controller → Controller × List Effect) : Rehearsal :=
  let (controller, effects) := step r.controller
  effects.foldl (perform job) { r with controller }

def startAll (r : Rehearsal) : Rehearsal :=
  let waiting := r.controller.runs.filter fun run => run.stage matches .submitted
  waiting.foldl (fun r run => r.turn run.plan.id fun c => c.start r.moment run.plan.id) r

def takeEarliest : List Due → Option (Due × List Due)
  | [] => none
  | d :: l =>
    match takeEarliest l with
    | none => some (d, [])
    | some (e, rest) => if e.micros < d.micros then some (e, d :: rest) else some (d, l)

def happen (r : Rehearsal) (d : Due) : Rehearsal :=
  let r := { r with now := max r.now d.micros }
  r.turn d.job fun c =>
    match d.event with
    | .answer call o => c.answer r.moment d.job call o
    | .wake => c.wake d.job

def play (until? : Option Nat) (enough : Controller → Bool) : (fuel : Nat) → Rehearsal → Rehearsal
  | 0, r => r
  | fuel + 1, r =>
    if enough r.controller then r
    else
      match takeEarliest r.due with
      | none => r
      | some (d, rest) =>
        if until?.any (· < d.micros) then r
        else play until? enough fuel ({ r with due := rest }.happen d)

/-- More events than the migrations under way can still have: each probes its source once an interval up
to the ceiling, and does a bounded number of other things. -/
def bound (r : Rehearsal) : Nat :=
  let m := r.controller.config.migration
  r.controller.runs.length * (2 * (m.drainCeiling.toNat / max m.drainPoll.toNat 1) + 64)

def sleep (r : Rehearsal) (ms : Span) : Rehearsal :=
  if ms = 0 then r
  else
    let stop := r.now + ms * 1000
    let r := r.startAll
    { r.play (some stop) (fun _ => false) r.bound with now := stop }

def waitFor (r : Rehearsal) (id : JobId) : Rehearsal :=
  let finished := fun c : Controller => (c.job? id).all Job.isTerminal
  if finished r.controller then r
  else
    let r := r.startAll
    r.play none finished r.bound

def settleFor : (fuel : Nat) → (stop : Nat) → Rehearsal → Rehearsal
  | 0, _, r => r
  | fuel + 1, stop, r =>
    if r.controller.running = 0 ∨ stop ≤ r.now then r else settleFor fuel stop (r.sleep 50)

def settle (r : Rehearsal) (ms : Span) : Rehearsal := settleFor (ms / 50 + 1) (r.now + ms * 1000) r

def probe (b : Behaviour) (e : Endpoint) (number : Nat) : Drain.Probe HostError :=
  ⟨b.duration (.probe e) number * 1000, b.result (.probe e) number default⟩

/-- Drain an endpoint from time zero on; the result, and the calls with their times. There are more probes
to spend than intervals up to the ceiling and changes in the script. -/
def drainAlone (script : Script) (limits : DrainLimits) (e : Endpoint) :
    Option DrainResult × List (Nat × Call) :=
  let b := script.behaviour (.probe e)
  let fuel := limits.ceiling / max limits.poll 1 + b.changes + 4
  let (r, starts) := Drain.course limits (probe b e) fuel 0 0 (.begin 0)
  (r, starts.map fun now => (now, .probe e))

end Rehearsal

end LiveMigration
