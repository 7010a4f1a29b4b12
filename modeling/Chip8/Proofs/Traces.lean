import Chip8.Proofs.Faults
import Chip8.Proofs.Sessions
import Chip8.Proofs.StalePresses
import Chip8.Proofs.TraceLines

/-!
# Traces

A machine logs one line at the level of traces for each instruction that it dispatches, before
it executes it, and at most one more line at another level.  No other operation and nothing in
a session logs at the level of traces.  So these lines of a run show the registers before each
dispatched instruction, in order.
-/

namespace Chip8

/-! ## The log of one cycle -/

def LogEntry.leveled (entry : LogEntry) : LogLevel × LogEntry := (entry.level, entry)

namespace Machine

variable {m : Machine} {w : Word} {x : Register} {pattern : Pattern}
  {log : List (LogLevel × LogEntry)}

/-- The entries that the next cycle logs, and their levels. -/
inductive Logs (m : Machine) : List (LogLevel × LogEntry) → Prop
  | unpressed {x : Register} (waits : m.execution = .awaitingKey x)
      (unpressed : m.keypad.press? = none) : Logs m []
  | resumed {x : Register} {key : Key} (waits : m.execution = .awaitingKey x)
      (pressed : m.keypad.press? = some key) : Logs m [(.debug, .resuming key)]
  | unfetched {fault : Fault} (runs : m.execution = .running)
      (unfetched : m.fetch = .error fault) : Logs m []
  | illegal {w : Word} (fetches : m.Fetches w) (unmatched : Instruction.lookup w = none) :
      Logs m []
  | executed {w : Word} {pattern : Pattern} (fetches : m.Fetches w)
      (matched : Instruction.lookup w = some pattern)
      (executes : m.cycle.result = .ok .executed) :
      Logs m [(.trace, m.traceEntry w pattern.mnemonic)]
  | suspended {w : Word} {pattern : Pattern} {x : Register} (fetches : m.Fetches w)
      (matched : Instruction.lookup w = some pattern)
      (suspends : m.cycle.machine.execution = .awaitingKey x) :
      Logs m [(.trace, m.traceEntry w pattern.mnemonic),
        (.debug, .suspended m.programCounter)]
  /-- The word calls machine code, which is unsupported. -/
  | unsupported {w : Word} {pattern : Pattern} (fetches : m.Fetches w)
      (matched : Instruction.lookup w = some pattern)
      (calls : w < 0x1000 ∧ w ≠ 0x00E0 ∧ w ≠ 0x00EE) :
      Logs m [(.trace, m.traceEntry w pattern.mnemonic),
        (.warn, .skipping (.machineCodeCall w m.programCounter))]
  | failed {w : Word} {pattern : Pattern} {fault : Fault} (fetches : m.Fetches w)
      (matched : Instruction.lookup w = some pattern)
      (fails : m.cycle.result = .error fault) (fatal : fault.isFatal = true) :
      Logs m [(.trace, m.traceEntry w pattern.mnemonic)]

theorem traced_of_lookup (h : Instruction.lookup w = some pattern) :
    m.traced w = [m.traceEntry w pattern.mnemonic] := by
  rw [traced, h]
  rfl

/-- A cycle that comes to wait for a key has executed the instruction that begins the wait. -/
theorem encodes_awaitKey_of_suspends (hw : m.Fetches w)
    (h : m.cycle.machine.execution = .awaitingKey x) :
    ∃ y, w.Encodes (.awaitKey y) := by
  by_contra hnot
  have hbegins : ¬m.BeginsWait := by
    rintro ⟨v, y, hv, hi⟩
    rw [hw.unique hv] at hnot
    exact hnot ⟨y, hi⟩
  rw [execution_cycle hw.running hbegins] at h
  cases h

/-- Only the instruction that begins a wait goes on by waiting. -/
theorem exists_execution_of_wait {i : Instruction} {flow : Flow} {after : Machine}
    (h : i.Step m flow after) (hflow : flow = .wait) :
    ∃ y, after.execution = .awaitingKey y := by
  cases h with
  | awaitKey y => exact ⟨y, rfl⟩
  | skipIfKey | skipUnlessKey | skipIfEqual | skipUnlessEqual | skipIfByte | skipUnlessByte =>
      unfold Flow.skipIf at hflow
      split at hflow <;> cases hflow
  | _ => cases hflow

/-- What a cycle with a result logs after the line of its instruction at `site`. -/
def resultLog (site : Address) : Except Fault Status → List LogEntry
  | .ok .executed => []
  | .ok .awaitingKey => [.suspended site]
  | .error fault => if fault.isFatal then [] else [.skipping fault]

theorem log_cycle_of_lookup (hw : m.Fetches w) (h : Instruction.lookup w = some pattern) :
    m.cycle.log =
      m.traceEntry w pattern.mnemonic :: resultLog m.programCounter m.cycle.result := by
  rw [cycle_of_encodes hw (Instruction.encodes_of_lookup h), traced_of_lookup h]
  unfold executeInstruction
  cases (pattern.instruction w).execute.run m with
  | ok flow after => cases flow <;> rfl
  | error fault after =>
      cases hfatal : fault.isFatal with
      | false => simp [fail, resultLog, hfatal]
      | true => simp [fail, resultLog, hfatal]

theorem Logs.leveled_eq (h : m.Logs log) : m.cycle.log.map LogEntry.leveled = log := by
  cases h with
  | unpressed waits unpressed =>
      rw [cycle_of_awaiting waits, poll_of_press_eq_none unpressed]
      rfl
  | resumed waits pressed =>
      rw [cycle_of_awaiting waits, poll_of_press_eq_some pressed]
      rfl
  | unfetched runs unfetched =>
      rw [cycle_of_fetch_error runs unfetched]
      rfl
  | illegal fetches unmatched =>
      rw [cycle_of_reserved fetches (Instruction.lookup_eq_none_iff_reserved.mp unmatched)]
      rfl
  | executed fetches matched executes =>
      rw [log_cycle_of_lookup fetches matched, executes]
      rfl
  | suspended fetches matched suspends =>
      obtain ⟨y, hi⟩ := encodes_awaitKey_of_suspends fetches suspends
      rw [log_cycle_of_lookup fetches matched, (cycle_of_step fetches hi (.awaitKey y)).2]
      rfl
  | @unsupported w pattern fetches matched calls =>
      obtain ⟨hlow, hcls, hret⟩ := calls
      have hresult := (result_cycle_eq_error_iff fetches).mpr (.machineCode hlow hcls hret)
      rw [log_cycle_of_lookup fetches matched, hresult]
      rfl
  | failed fetches matched fails fatal =>
      rw [log_cycle_of_lookup fetches matched, fails, resultLog, if_pos fatal]
      rfl

theorem exists_execution_of_awaitingKey (hw : m.Fetches w)
    (h : m.cycle.result = .ok .awaitingKey) :
    ∃ x, m.cycle.machine.execution = .awaitingKey x := by
  cases m.turn with
  | poll awaiting eq =>
      rw [hw.running] at awaiting
      cases awaiting
  | @step v i flow after fetches encodes step machine_eq result_eq =>
      have hflow : flow = .wait := by
        by_contra hne
        rw [result_eq, if_neg hne] at h
        cases h
      obtain ⟨y, hwait⟩ := exists_execution_of_wait step hflow
      rw [machine_eq, hflow]
      exact ⟨y, hwait⟩
  | unfetched running unfetched eq =>
      rw [eq] at h
      cases h
  | reserved fetches reserved eq =>
      rw [eq] at h
      cases h
  | fault fetches encodes fails machine_eq result_eq =>
      rw [result_eq] at h
      cases h

theorem calls_of_not_isFatal {fault : Fault} (h : m.Faults w fault)
    (hfatal : fault.isFatal = false) : w < 0x1000 ∧ w ≠ 0x00E0 ∧ w ≠ 0x00EE := by
  cases h with
  | machineCode hlow hcls hret => exact ⟨hlow, hcls, hret⟩
  | _ => cases hfatal

/-- Every cycle is of one of the kinds. -/
theorem exists_logs (m : Machine) : ∃ log, m.Logs log := by
  cases hexec : m.execution with
  | awaitingKey x =>
      cases hpress : m.keypad.press? with
      | none => exact ⟨_, .unpressed hexec hpress⟩
      | some key => exact ⟨_, .resumed hexec hpress⟩
  | running =>
      cases hfetch : m.fetch with
      | error fault => exact ⟨_, .unfetched hexec hfetch⟩
      | ok w =>
          have hw : m.Fetches w := ⟨hexec, hfetch⟩
          cases hlookup : Instruction.lookup w with
          | none => exact ⟨_, .illegal hw hlookup⟩
          | some pattern =>
              cases hresult : m.cycle.result with
              | ok status =>
                  cases status with
                  | executed => exact ⟨_, .executed hw hlookup hresult⟩
                  | awaitingKey =>
                      obtain ⟨x, hwaits⟩ := exists_execution_of_awaitingKey hw hresult
                      exact ⟨_, .suspended hw hlookup hwaits⟩
              | error fault =>
                  cases hfatal : fault.isFatal with
                  | true => exact ⟨_, .failed hw hlookup hresult hfatal⟩
                  | false =>
                      have hfaults := (result_cycle_eq_error_iff hw).mp hresult
                      exact ⟨_, .unsupported hw hlookup (calls_of_not_isFatal hfaults hfatal)⟩

theorem leveled_cycle_iff : m.cycle.log.map LogEntry.leveled = log ↔ m.Logs log := by
  constructor
  · rintro rfl
    obtain ⟨log, hlogs⟩ := m.exists_logs
    rw [hlogs.leveled_eq]
    exact hlogs
  · exact Logs.leveled_eq

end Machine

/-! ## The lines of a run -/

namespace LogEntry

/-- The lines of a log at the level of traces, in order. -/
def traceLines (log : List LogEntry) : List String :=
  (log.filter (fun entry ↦ entry.level = .trace)).map message

theorem traceLines_append (first second : List LogEntry) :
    traceLines (first ++ second) = traceLines first ++ traceLines second := by
  rw [traceLines, List.filter_append, List.map_append]
  rfl

end LogEntry

open LogEntry (traceLines traceLines_append)

namespace Machine

variable {m n : Machine} {w : Word} {pattern : Pattern} {s : Snapshot}

def snapshot (m : Machine) (w : Word) : Snapshot where
  address := m.programCounter
  word := w
  values := m.registers.values
  index := m.registers.index

/-- The snapshot of the instruction that the next cycle dispatches, if it dispatches one. -/
def dispatched? (m : Machine) : Option Snapshot :=
  match m.execution, m.fetch with
  | .running, .ok w => (Instruction.lookup w).map (fun _ ↦ m.snapshot w)
  | _, _ => none

theorem dispatched?_of_fetches (hw : m.Fetches w) :
    m.dispatched? = (Instruction.lookup w).map (fun _ ↦ m.snapshot w) := by
  rw [dispatched?, hw.running, hw.fetch_eq]

theorem dispatched?_eq_some_iff :
    m.dispatched? = some s ↔
      ∃ w pattern, m.Fetches w ∧ Instruction.lookup w = some pattern ∧ s = m.snapshot w := by
  constructor
  · intro h
    cases hexec : m.execution with
    | awaitingKey x =>
        rw [dispatched?, hexec] at h
        cases h
    | running =>
        cases hfetch : m.fetch with
        | error fault =>
            rw [dispatched?, hexec, hfetch] at h
            cases h
        | ok w =>
            rw [dispatched?_of_fetches ⟨hexec, hfetch⟩] at h
            obtain ⟨pattern, hlookup, rfl⟩ := Option.map_eq_some_iff.mp h
            exact ⟨w, pattern, ⟨hexec, hfetch⟩, hlookup, rfl⟩
  · rintro ⟨w, pattern, hw, hlookup, rfl⟩
    rw [dispatched?_of_fetches hw, hlookup]
    rfl

theorem traceEntry_eq (h : Instruction.lookup w = some pattern) :
    m.traceEntry w pattern.mnemonic = (m.snapshot w).entry := by
  rw [Snapshot.entry, ← Word.mnemonic_of_lookup h]
  rfl

theorem traceLines_resultLog (site : Address) (result : Except Fault Status) :
    traceLines (resultLog site result) = [] := by
  cases result with
  | ok status => cases status <;> rfl
  | error fault => cases fault <;> rfl

theorem traceLines_cycle (m : Machine) :
    traceLines m.cycle.log = m.dispatched?.toList.map Snapshot.line := by
  cases hexec : m.execution with
  | awaitingKey x =>
      rw [cycle_of_awaiting hexec, dispatched?, hexec]
      cases hpress : m.keypad.press? with
      | none =>
          rw [poll_of_press_eq_none hpress]
          rfl
      | some key =>
          rw [poll_of_press_eq_some hpress]
          rfl
  | running =>
      cases hfetch : m.fetch with
      | error fault =>
          rw [cycle_of_fetch_error hexec hfetch, dispatched?, hexec, hfetch]
          rfl
      | ok w =>
          have hw : m.Fetches w := ⟨hexec, hfetch⟩
          rw [dispatched?_of_fetches hw]
          cases hlookup : Instruction.lookup w with
          | none =>
              rw [cycle_of_reserved hw (Instruction.lookup_eq_none_iff_reserved.mp hlookup)]
              rfl
          | some pattern =>
              rw [log_cycle_of_lookup hw hlookup, traceEntry_eq hlookup, ← List.singleton_append,
                traceLines_append, traceLines_resultLog]
              rfl

/-- The snapshots of the instructions that an operation dispatches. -/
def dispatchedBy (m : Machine) (operation : Operation) : List Snapshot :=
  if operation = .cycle then m.dispatched?.toList else []

/-- The snapshots of the instructions that a history dispatches, each taken before. -/
def dispatches (m : Machine) : List Operation → List Snapshot
  | [] => []
  | operation :: history =>
      m.dispatchedBy operation ++ (m.perform operation).machine.dispatches history

/-- The log of a history. -/
def log (m : Machine) (history : List Operation) : List LogEntry :=
  (m.responses history).flatMap Response.log

theorem traceLines_perform (m : Machine) (operation : Operation) :
    traceLines (m.perform operation).log = (m.dispatchedBy operation).map Snapshot.line := by
  cases operation with
  | cycle => exact m.traceLines_cycle
  | load bytes =>
      change traceLines (m.loadBytes bytes).log = []
      unfold loadBytes
      split
      · rfl
      · rfl
  | _ => rfl

theorem traceLines_log (m : Machine) (history : List Operation) :
    traceLines (m.log history) = (m.dispatches history).map Snapshot.line := by
  induction history generalizing m with
  | nil => rfl
  | cons operation history ih =>
      rw [dispatches, List.map_append, ← traceLines_perform, ← ih, ← traceLines_append]
      rfl

theorem dispatches_append (m : Machine) (earlier later : List Operation) :
    m.dispatches (earlier ++ later) = m.dispatches earlier ++ (m.run earlier).dispatches later := by
  induction earlier generalizing m with
  | nil => rfl
  | cons operation earlier ih =>
      rw [List.cons_append, dispatches, ih, dispatches, List.append_assoc, run_cons]

/-- The snapshots of the instructions that an input dispatches. -/
def dispatchedAt (m : Machine) (input : Input) : List Snapshot :=
  m.dispatches input.operation?.toList

theorem Alike.dispatchedAt_eq (h : Alike m n) (input : Input) :
    n.dispatchedAt input = m.dispatchedAt input := by
  obtain ⟨redraw, rfl⟩ := h
  unfold dispatchedAt
  cases input.operation? <;> rfl

end Machine

/-! ## The lines of a session -/

namespace Effect

/-- The entries of the log among the effects. -/
def entries (effects : List Effect) : List LogEntry :=
  effects.filterMap (fun effect ↦
    match effect with
    | .log entry => some entry
    | _ => none)

theorem entries_append (first second : List Effect) :
    entries (first ++ second) = entries first ++ entries second :=
  List.filterMap_append

theorem entries_log (log : List LogEntry) : entries (log.map Effect.log) = log := by
  induction log with
  | nil => rfl
  | cons entry log ih => exact congrArg (entry :: ·) ih

end Effect

namespace Session

theorem traceLines_react_cycle (s : Session) (settings : Settings) :
    traceLines (Effect.entries (s.react settings .cycle).effects) =
      s.machine.dispatched?.toList.map Snapshot.line := by
  rw [← Machine.traceLines_cycle]
  cases hresult : s.machine.cycle.result with
  | ok status =>
      simp only [react, cycle, hresult]
      rw [Effect.entries_log]
  | error fault =>
      simp only [react, cycle, hresult]
      split
      · rw [Effect.entries_append, Effect.entries_log, traceLines_append]
        exact List.append_nil _
      · rw [Effect.entries_log]

theorem traceLines_react (s : Session) (settings : Settings) (input : Input) :
    traceLines (Effect.entries (s.react settings input).effects) =
      (s.machine.dispatchedAt input).map Snapshot.line := by
  cases input with
  | event event => cases event <;> rfl
  | closed => rfl
  | timerTick => rfl
  | cycle =>
      refine (s.traceLines_react_cycle settings).trans ?_
      change _ = (s.machine.dispatched?.toList ++ []).map Snapshot.line
      rw [List.append_nil]

theorem entries_showPicture (s : Session) : Effect.entries s.showPicture.2 = [] := by
  unfold showPicture
  split
  · rfl
  · rfl

theorem entries_reportSound (s : Session) : Effect.entries s.reportSound.2 = [] := by
  unfold reportSound
  split
  · rfl
  · rfl

theorem traceLines_iterate (s : Session) (settings : Settings) (input : Input) :
    traceLines (Effect.entries (s.iterate settings input).effects) =
      (s.machine.dispatchedAt input).map Snapshot.line := by
  rw [← traceLines_react s settings]
  cases hending : (s.react settings input).ending with
  | some ending => rw [iterate_of_ending hending]
  | none =>
      rw [iterate_of_none hending]
      simp only [Effect.entries_append, entries_showPicture, entries_reportSound, List.append_nil]

end Session

namespace Run

variable {m : Machine} {inputs : List Input} {run : Run}

theorem log_eq (run : Run) : run.log = Effect.entries run.effects.toList := rfl

/-- The log of a run shows the instructions that the machine `m` dispatches at the inputs that
the run took. -/
structure Traced (m : Machine) (inputs : List Input) (run : Run) : Prop where
  traced : ∃ taken, inputs = taken ++ run.unread.toList ∧
    traceLines run.log = (m.dispatches (taken.filterMap Input.operation?)).map Snapshot.line
  goes_on : run.ending = none →
    run.unread = #[] ∧ Machine.Alike (m.after inputs) run.session.machine

theorem traced_start (m : Machine) (settings : Settings) : (start m settings).Traced m [] where
  traced := ⟨[], rfl, rfl⟩
  goes_on _ := ⟨rfl, .refl m⟩

theorem Traced.feed (h : run.Traced m inputs) (settings : Settings) (input : Input) :
    (Run.feed settings run input).Traced m (inputs ++ [input]) := by
  obtain ⟨taken, hinputs, hlines⟩ := h.traced
  cases hending : run.ending with
  | some ending =>
      rw [feed_of_some hending]
      constructor
      · refine ⟨taken, ?_, hlines⟩
        rw [hinputs, Array.toList_push, List.append_assoc]
      · intro hnone
        rw [hending] at hnone
        cases hnone
  | none =>
      obtain ⟨hunread, halike⟩ := h.goes_on hending
      obtain rfl : inputs = taken := by simpa [hunread] using hinputs
      rw [feed_of_none hending]
      constructor
      · refine ⟨inputs ++ [input], by simp [hunread], ?_⟩
        have hlast : (m.after inputs).dispatches ([input].filterMap Input.operation?) =
            run.session.machine.dispatchedAt input := by
          rw [halike.dispatchedAt_eq, Machine.dispatchedAt]
          cases hop : input.operation? with
          | none => simp [hop]
          | some operation => simp [hop]
        rw [List.filterMap_append, Machine.dispatches_append, List.map_append, ← hlines,
          ← Machine.after, hlast, ← Session.traceLines_iterate _ settings, log_eq, log_eq,
          Array.toList_appendList, Effect.entries_append, traceLines_append]
      · intro _
        refine ⟨hunread, ?_⟩
        rw [Machine.after_append]
        exact (halike.after input).trans (Session.alike_iterate ..)

theorem traced_ofInputs (m : Machine) (settings : Settings) (inputs : List Input) :
    (ofInputs m settings inputs).Traced m inputs := by
  induction inputs using List.reverseRecOn with
  | nil => exact traced_start m settings
  | append_singleton inputs input ih =>
      rw [ofInputs_append_singleton]
      exact ih.feed settings input

end Run

namespace Machine

/-- Equal lines come from equal registers at equal words. -/
theorem eq_of_message_traceEntry {m n : Machine} {w v : Word} {pattern other : Pattern}
    (hw : Instruction.lookup w = some pattern) (hv : Instruction.lookup v = some other)
    (h : (m.traceEntry w pattern.mnemonic).message = (n.traceEntry v other.mnemonic).message) :
    m.programCounter = n.programCounter ∧ w = v ∧ m.registers.values = n.registers.values ∧
      m.registers.index = n.registers.index := by
  rw [traceEntry_eq hw, traceEntry_eq hv] at h
  have hsnapshot : m.snapshot w = n.snapshot v := Snapshot.line_injective h
  obtain ⟨haddress, hword, hvalues, hindex⟩ := Snapshot.mk.inj hsnapshot
  exact ⟨haddress, hword, hvalues, hindex⟩

theorem traceLines_log_eq_iff {m n : Machine} {history other : List Operation} :
    traceLines (m.log history) = traceLines (n.log other) ↔
      m.dispatches history = n.dispatches other := by
  rw [traceLines_log, traceLines_log]
  exact (List.map_injective_iff.mpr Snapshot.line_injective).eq_iff

/-- A cycle logs the entries of its kind and no others.  The line of an instruction tells the
registers before it, and the lines of a history or of a session tell those before each
dispatched instruction, in order. -/
theorem log_records_execution (m n : Machine) :
    (∀ log, m.cycle.log.map LogEntry.leveled = log ↔ m.Logs log) ∧
      (∀ (w v : Word) (pattern other : Pattern),
        m.Fetches w → Instruction.lookup w = some pattern →
        n.Fetches v → Instruction.lookup v = some other →
        (m.traceEntry w pattern.mnemonic).message =
            (n.traceEntry v other.mnemonic).message →
          m.programCounter = n.programCounter ∧ w = v ∧
            m.registers.values = n.registers.values ∧
            m.registers.index = n.registers.index) ∧
      (∀ s, m.dispatched? = some s ↔
        ∃ w pattern, m.Fetches w ∧ Instruction.lookup w = some pattern ∧ s = m.snapshot w) ∧
      (∀ history, traceLines (m.log history) = (m.dispatches history).map Snapshot.line) ∧
      (∀ history other, traceLines (m.log history) = traceLines (n.log other) ↔
        m.dispatches history = n.dispatches other) ∧
      ∀ settings inputs,
        let run := Run.ofInputs m settings inputs
        ∃ taken, inputs = taken ++ run.unread.toList ∧
          traceLines run.log =
            (m.dispatches (taken.filterMap Input.operation?)).map Snapshot.line := by
  refine ⟨fun log ↦ leveled_cycle_iff, ?_, fun s ↦ dispatched?_eq_some_iff, m.traceLines_log,
    fun history other ↦ traceLines_log_eq_iff, ?_⟩
  · intro w v pattern other _ hw _ hv hline
    exact eq_of_message_traceEntry hw hv hline
  · intro settings inputs run
    exact (Run.traced_ofInputs m settings inputs).traced

/-- A wait for a key is traced once, and the polls after it are not. -/
theorem log_records_execution_wait :
    let m := (Machine.ofSeed 0).load { bytes := [0xF1, 0x0A] }
    let line := "200: F10A LD Vx, K       " ++
      "v[00, 00, 00, 00, 00, 00, 00, 00, 00, 00, 00, 00, 00, 00, 00, 00] i000"
    m.cycle.log.map LogEntry.leveled =
        [(.trace, m.traceEntry 0xF10A "LD Vx, K"), (.debug, .suspended 0x200)] ∧
      (∀ n : Machine, n.Fetches 0xF10A →
        (n.traceEntry 0xF10A "LD Vx, K").message = (m.traceEntry 0xF10A "LD Vx, K").message →
          n.programCounter = 0x200) ∧
      traceLines (m.log [.cycle, .cycle, .setKey 0x07 true, .cycle]) = [line] := by
  intro m line
  obtain ⟨pattern, hlookup, hmnemonic⟩ : ∃ pattern, Instruction.lookup 0xF10A = some pattern ∧
      pattern.mnemonic = "LD Vx, K" := ⟨_, rfl, rfl⟩
  obtain ⟨hfetch, hwait⟩ : m.fetch = .ok 0xF10A ∧ m.cycle.machine.execution = .awaitingKey 1 := by
    decide +kernel
  have hw : m.Fetches 0xF10A := ⟨rfl, hfetch⟩
  refine ⟨?_, ?_, ?_⟩
  · rw [← hmnemonic]
    exact ((log_records_execution m m).1 _).mpr (.suspended hw hlookup hwait)
  · intro n hn hmessage
    rw [← hmnemonic] at hmessage
    obtain ⟨-, hinjective, -⟩ := log_records_execution n m
    exact (hinjective _ _ _ _ hn hlookup hw hlookup hmessage).1
  · obtain ⟨-, -, -, hlines, -⟩ := log_records_execution m m
    rw [hlines]
    decide +kernel

end Machine
end Chip8
