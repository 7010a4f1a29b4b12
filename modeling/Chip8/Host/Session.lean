import Chip8.Host.Rate
import Chip8.Machine.Operation

/-!
# Sessions

A session runs a machine for a host.  It is fed one input at a time: an event, the end
of all events, or the beat of one of two clocks.  Each input makes one iteration, after
which a changed picture is shown and a started or stopped tone is reported.  A request
to quit, the end of events and a fatal fault end the session at once.
-/

namespace Chip8

inductive Event where
  | keyDown (pin : UInt8)
  | keyUp (pin : UInt8)
  | releaseKeys
  | speedUp
  | slowDown
  | reset
  | quit
deriving DecidableEq

/-- What is due in one iteration. -/
inductive Input where
  | event (event : Event)
  /-- No event will come any more. -/
  | closed
  | cycle
  | timerTick
deriving DecidableEq

structure Settings where
  rate : UInt32 := 700
  /-- By how much the rate changes with one step. -/
  step : UInt32 := 100
deriving DecidableEq

inductive Output where
  | present (frame : Frame)
  | sound (active : Bool)
deriving DecidableEq

/-- What a session does to its surroundings, in order. -/
inductive Effect where
  | log (entry : LogEntry)
  /-- The cycle clock starts anew with a period in nanoseconds. -/
  | setPeriod (nanoseconds : Nat)
  | output (output : Output)
deriving DecidableEq

inductive Ending where
  | stopped
  | halted (fault : Fault)
deriving DecidableEq

structure Session where
  machine : Machine
  rate : UInt32
  /-- Whether the tone was last reported as sounding. -/
  soundActive : Bool
deriving DecidableEq

/-- One iteration: the session after it, what it did and how it ended the session, if
it did. -/
structure Iteration where
  session : Session
  effects : List Effect := []
  ending : Option Ending := none

namespace Session

def timerFrequency : UInt32 := 60

def rateEffects (rate : UInt32) : List Effect :=
  [.setPeriod (Rate.period rate), .log (.running rate)]

def start (m : Machine) (settings : Settings) : Session :=
  { machine := m, rate := Rate.clamp settings.rate, soundActive := m.soundActive }

def withMachine (s : Session) (m : Machine) : Session := { s with machine := m }

def setRate (s : Session) (rate : UInt32) : Iteration :=
  { session := { s with rate }, effects := rateEffects rate }

def handle (s : Session) (settings : Settings) (event : Event) : Iteration :=
  match event with
  | .keyDown pin => { session := s.withMachine (s.machine.setKey pin true) }
  | .keyUp pin => { session := s.withMachine (s.machine.setKey pin false) }
  | .releaseKeys => { session := s.withMachine s.machine.releaseKeys }
  | .speedUp => s.setRate (Rate.raise s.rate settings.step)
  | .slowDown => s.setRate (Rate.lower s.rate settings.step)
  | .reset =>
      { session := s.withMachine s.machine.reset, effects := [.log .machineReset] }
  | .quit => { session := s, effects := [.log .shuttingDown], ending := some .stopped }

def cycle (s : Session) : Iteration :=
  let cycle := s.machine.cycle
  let session := s.withMachine cycle.machine
  let effects := cycle.log.map Effect.log
  match cycle.result with
  | .ok _ => { session, effects }
  | .error fault =>
      if fault.isFatal then
        { session
          effects := effects ++ [.log (.halting fault)]
          ending := some (.halted fault) }
      else { session, effects }

def react (s : Session) (settings : Settings) (input : Input) : Iteration :=
  match input with
  | .event event => s.handle settings event
  | .closed => { session := s, effects := [.log .shuttingDown], ending := some .stopped }
  | .cycle => s.cycle
  | .timerTick => { session := s.withMachine s.machine.tickTimers }

def showPicture (s : Session) : Session × List Effect :=
  if s.machine.redraw then
    (s.withMachine s.machine.takeRedraw, [.output (.present s.machine.frame)])
  else (s, [])

def reportSound (s : Session) : Session × List Effect :=
  if s.machine.soundActive = s.soundActive then (s, [])
  else
    ({ s with soundActive := !s.soundActive }, [.output (.sound (!s.soundActive))])

def iterate (s : Session) (settings : Settings) (input : Input) : Iteration :=
  let iteration := s.react settings input
  match iteration.ending with
  | some _ => iteration
  | none =>
      let (shown, pictureEffects) := iteration.session.showPicture
      let (reported, soundEffects) := shown.reportSound
      { session := reported
        effects := iteration.effects ++ pictureEffects ++ soundEffects }

end Session

/-- A session under way: what it did so far, how it ended and which inputs came after
its end. -/
structure Run where
  session : Session
  effects : Array Effect := #[]
  ending : Option Ending := none
  unread : Array Input := #[]

namespace Run

def start (m : Machine) (settings : Settings) : Run :=
  let session := Session.start m settings
  { session, effects := (Session.rateEffects session.rate).toArray }

/-- Takes one more input.  A session that has ended takes none. -/
def feed (settings : Settings) (run : Run) (input : Input) : Run :=
  match run.ending with
  | some _ => { run with unread := run.unread.push input }
  | none =>
      let iteration := run.session.iterate settings input
      { run with
        session := iteration.session
        effects := run.effects ++ iteration.effects
        ending := iteration.ending }

def ofInputs (m : Machine) (settings : Settings) (inputs : List Input) : Run :=
  inputs.foldl (feed settings) (start m settings)

def outputs (run : Run) : List Output :=
  run.effects.toList.filterMap (fun effect ↦
    match effect with
    | .output output => some output
    | _ => none)

def log (run : Run) : List LogEntry :=
  run.effects.toList.filterMap (fun effect ↦
    match effect with
    | .log entry => some entry
    | _ => none)

end Run
end Chip8
