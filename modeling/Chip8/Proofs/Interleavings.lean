import Chip8.Proofs.Peripherals
import Chip8.Proofs.Sessions

/-!
# Interleavings

Cycles, ticks of the timer clock and reports from the keypad may be due at the same time, and
nothing says which of them is taken first.  The order matters to the few instructions that work
on the timers or on the keypad, and to a wait for a key.  Besides, a session feels it when a
reset and a cycle are due together, and when one of the two inputs ends it.

All of this is about inputs that the session is given.  A change of the rate starts the cycle
clock anew, so a cycle that was due before it may never be given.
-/

namespace Chip8

/-- The operation reports keys as down or up. -/
def Operation.ReportsKeys : Operation → Prop
  | .setKey _ _ => True
  | .releaseKeys => True
  | _ => False

namespace Word

/-- The instruction of the word reads or sets a timer. -/
def UsesTimers (w : Word) : Prop := w.op = 0xF ∧ (w.nn = 0x07 ∨ w.nn = 0x15 ∨ w.nn = 0x18)

/-- The instruction of the word looks at a key or waits for one. -/
def UsesKeys (w : Word) : Prop :=
  w.op = 0xE ∧ (w.nn = 0x9E ∨ w.nn = 0xA1) ∨ w.op = 0xF ∧ w.nn = 0x0A

instance (w : Word) : Decidable w.UsesTimers := by
  unfold UsesTimers
  infer_instance

instance (w : Word) : Decidable w.UsesKeys := by
  unfold UsesKeys
  infer_instance

end Word

namespace Instruction

variable {w : Word} {i : Instruction}

theorem bears_of_not_usesTimers (hi : w.Encodes i) (h : ¬w.UsesTimers)
    (f : Timers → Timers) : i.Bears { timers := f } := by
  cases i with
  | readDelay x => exact absurd ⟨hi.1, Or.inl hi.2.1⟩ h
  | setDelay x => exact absurd ⟨hi.1, Or.inr (Or.inl hi.2.1)⟩ h
  | setSound x => exact absurd ⟨hi.1, Or.inr (Or.inr hi.2.1)⟩ h
  | skipIfKey x => exact fun _ _ ↦ rfl
  | skipUnlessKey x => exact fun _ _ ↦ rfl
  | awaitKey x => exact fun _ ↦ rfl
  | clearScreen => rfl
  | draw x y rows => rfl
  | _ => trivial

theorem bears_of_not_usesKeys (hi : w.Encodes i) (h : ¬w.UsesKeys)
    (g : Keypad → Keypad) : i.Bears { keypad := g } := by
  cases i with
  | skipIfKey x => exact absurd (Or.inl ⟨hi.1, Or.inl hi.2.1⟩) h
  | skipUnlessKey x => exact absurd (Or.inl ⟨hi.1, Or.inr hi.2.1⟩) h
  | awaitKey x => exact absurd (Or.inr ⟨hi.1, hi.2.1⟩) h
  | readDelay x => exact fun _ ↦ rfl
  | setDelay x => exact fun _ _ ↦ rfl
  | setSound x => exact fun _ _ ↦ rfl
  | clearScreen => rfl
  | draw x y rows => rfl
  | _ => trivial

end Instruction

namespace Machine

variable {m : Machine} {operation : Operation}

/-! ## Operations in either order -/

/-- The order of two operations does not matter: they lead to the same machine, and each of
them is answered alike. -/
structure Exchanges (m : Machine) (first second : Operation) : Prop where
  machine_eq : m.run [first, second] = m.run [second, first]
  first_eq :
    ((m.perform second).machine.perform first).answer = (m.perform first).answer
  second_eq :
    ((m.perform first).machine.perform second).answer = (m.perform second).answer

theorem cycle_tickTimers (h : ∀ w, m.Fetches w → ¬w.UsesTimers) :
    m.tickTimers.cycle = { m.cycle with machine := m.cycle.machine.tickTimers } := by
  let tick : Change := { timers := Timers.tick }
  cases hexec : m.execution with
  | awaitingKey x => exact cycle_adjust_of_awaiting tick hexec rfl
  | running =>
      refine cycle_adjust tick hexec ?_
      intro w i hw hi
      exact Instruction.bears_of_not_usesTimers hi (h w hw) Timers.tick

/-- Reporting keys is a change of the keypad and is not answered. -/
theorem exists_adjust_of_reportsKeys (h : operation.ReportsKeys) :
    ∃ g, ∀ m : Machine, m.perform operation = { machine := m.adjust { keypad := g } } := by
  cases operation with
  | setKey pin isDown => exact ⟨fun keypad ↦ keypad.set (Nibble.ofByte pin) isDown, fun _ ↦ rfl⟩
  | releaseKeys => exact ⟨Keypad.releaseAll, fun _ ↦ rfl⟩
  | _ => exact absurd h id

theorem cycle_of_reportsKeys (hkeys : operation.ReportsKeys) (hrun : m.execution = .running)
    (h : ∀ w, m.Fetches w → ¬w.UsesKeys) :
    (m.perform operation).machine.cycle =
      { m.cycle with machine := (m.cycle.machine.perform operation).machine } := by
  obtain ⟨g, hperform⟩ := exists_adjust_of_reportsKeys hkeys
  rw [hperform, hperform]
  refine cycle_adjust { keypad := g } hrun ?_
  intro w i hw hi
  exact Instruction.bears_of_not_usesKeys hi (h w hw) g

/-- An operation that is not answered exchanges with a cycle that does not feel it. -/
theorem exchanges_cycle (hquiet : ∀ n : Machine, (n.perform operation).answer = (.done, []))
    (h : (m.perform operation).machine.cycle =
      { m.cycle with machine := (m.cycle.machine.perform operation).machine }) :
    m.Exchanges .cycle operation where
  machine_eq := by
    change (m.cycle.machine.perform operation).machine =
      (m.perform operation).machine.cycle.machine
    rw [h]
  first_eq := by
    change (Reply.cycled (m.perform operation).machine.cycle.result,
      (m.perform operation).machine.cycle.log) = (.cycled m.cycle.result, m.cycle.log)
    rw [h]
  second_eq := by rw [hquiet, hquiet]

theorem exchanges_cycle_tickTimers (h : ∀ w, m.Fetches w → ¬w.UsesTimers) :
    m.Exchanges .cycle .tickTimers :=
  exchanges_cycle (fun _ ↦ rfl) (cycle_tickTimers h)

theorem exchanges_cycle_of_reportsKeys (hkeys : operation.ReportsKeys)
    (hrun : m.execution = .running) (h : ∀ w, m.Fetches w → ¬w.UsesKeys) :
    m.Exchanges .cycle operation := by
  refine exchanges_cycle (fun n ↦ ?_) (cycle_of_reportsKeys hkeys hrun h)
  obtain ⟨g, hperform⟩ := exists_adjust_of_reportsKeys hkeys
  rw [hperform]
  rfl

theorem exchanges_tickTimers (m : Machine) (hkeys : operation.ReportsKeys) :
    m.Exchanges .tickTimers operation := by
  obtain ⟨g, hperform⟩ := exists_adjust_of_reportsKeys hkeys
  constructor
  · change (m.tickTimers.perform operation).machine = (m.perform operation).machine.tickTimers
    rw [hperform, hperform]
    rfl
  · rfl
  · rw [hperform, hperform]
    rfl

end Machine

/-! ## Inputs in either order -/

/-- Where an input comes from. -/
inductive Channel where
  | events
  | cycleClock
  | timerClock
deriving DecidableEq

namespace Input

def channel : Input → Channel
  | .event _ => .events
  | .closed => .events
  | .cycle => .cycleClock
  | .timerTick => .timerClock

theorem pace_of_channel_ne {input : Input} (h : input.channel ≠ .events)
    (settings : Settings) (rate : UInt32) : input.pace settings rate = rate := by
  cases input with
  | event event => exact absurd rfl h
  | closed => exact absurd rfl h
  | _ => rfl

theorem pace_exchange {first second : Input} (h : first.channel ≠ second.channel)
    (settings : Settings) (rate : UInt32) :
    second.pace settings (first.pace settings rate) =
      first.pace settings (second.pace settings rate) := by
  by_cases hfirst : first.channel = .events
  · have hsecond : second.channel ≠ .events := fun heq ↦ h (hfirst.trans heq.symm)
    rw [pace_of_channel_ne hsecond, pace_of_channel_ne hsecond]
  · rw [pace_of_channel_ne hfirst, pace_of_channel_ne hfirst]

end Input

namespace Machine

variable {m : Machine} {first second : Input}

/-- Why it may matter that the first of two inputs is due together with the second. -/
inductive Clash (m : Machine) : Input → Input → Prop
  | timers {w : Word} : m.Fetches w → w.UsesTimers → Clash m .cycle .timerTick
  | keys {w : Word} {event : Event} {operation : Operation} : m.Fetches w → w.UsesKeys →
      (Input.event event).operation? = some operation → operation.ReportsKeys →
        Clash m .cycle (.event event)
  | wait {x : Register} {event : Event} {operation : Operation} :
      m.execution = .awaitingKey x →
      (Input.event event).operation? = some operation → operation.ReportsKeys →
        Clash m .cycle (.event event)
  | reset : Clash m .cycle (.event .reset)
  | ends {first second : Input} {ending : Ending} : Input.Ends m first ending →
      Clash m first second

/-- The order of two inputs that are due together may matter. -/
def Sensitive (m : Machine) (first second : Input) : Prop :=
  m.Clash first second ∨ m.Clash second first

theorem Sensitive.symm (h : m.Sensitive first second) : m.Sensitive second first :=
  Or.symm h

theorem cycle_after_event {event : Event} (h : ¬m.Clash .cycle (.event event)) :
    (m.after [.event event]).cycle =
      { m.cycle with machine := m.cycle.machine.after [.event event] } := by
  cases hop : (Input.event event).operation? with
  | none => rw [after_singleton_of_none hop, after_singleton_of_none hop]
  | some operation =>
      rw [after_singleton_of_some hop, after_singleton_of_some hop]
      by_cases hkeys : operation.ReportsKeys
      · apply cycle_of_reportsKeys hkeys
        · cases hexec : m.execution with
          | running => rfl
          | awaitingKey x => exact absurd (.wait hexec hop hkeys) h
        · exact fun w hw huses ↦ h (.keys hw huses hop hkeys)
      · cases event with
        | reset => exact absurd .reset h
        | keyDown | keyUp | releaseKeys =>
            cases hop
            exact absurd trivial hkeys
        | _ => cases hop

/-- A cycle does the same before and after an input that it does not clash with. -/
theorem cycle_after (h : ¬m.Clash .cycle second) (hchannel : second.channel ≠ .cycleClock) :
    (m.after [second]).cycle = { m.cycle with machine := m.cycle.machine.after [second] } := by
  cases second with
  | event event => exact cycle_after_event h
  | closed => rfl
  | cycle => exact absurd rfl hchannel
  | timerTick => exact cycle_tickTimers (fun w hw huses ↦ h (.timers hw huses))

theorem after_cycle_exchange (h : ¬m.Clash .cycle second)
    (hchannel : second.channel ≠ .cycleClock) :
    m.after [.cycle, second] = m.after [second, .cycle] := by
  have hfirst : m.after [second, .cycle] = (m.after [second]).cycle.machine :=
    m.after_append [second] [.cycle]
  have hsecond : m.after [.cycle, second] = m.cycle.machine.after [second] :=
    m.after_append [.cycle] [second]
  rw [hfirst, hsecond, cycle_after h hchannel]

theorem after_timerTick_exchange (m : Machine) (event : Event) :
    m.after [.timerTick, .event event] = m.after [.event event, .timerTick] := by
  cases event <;> rfl

theorem after_exchange (h : ¬m.Sensitive first second)
    (hchannel : first.channel ≠ second.channel) :
    m.after [first, second] = m.after [second, first] := by
  cases first with
  | cycle => exact after_cycle_exchange (fun hc ↦ h (Or.inl hc)) hchannel.symm
  | timerTick =>
      cases second with
      | cycle => exact (after_cycle_exchange (fun hc ↦ h (Or.inr hc)) hchannel).symm
      | timerTick => exact absurd rfl hchannel
      | event event => exact m.after_timerTick_exchange event
      | closed => rfl
  | event event =>
      cases second with
      | cycle => exact (after_cycle_exchange (fun hc ↦ h (Or.inr hc)) hchannel).symm
      | timerTick => exact (m.after_timerTick_exchange event).symm
      | event other => exact absurd rfl hchannel
      | closed => exact absurd rfl hchannel
  | closed =>
      cases second with
      | cycle => rfl
      | timerTick => rfl
      | event event => exact absurd rfl hchannel
      | closed => rfl

/-- An input does not end a session only because another one is taken before it. -/
theorem ends_of_ends_after {ending : Ending} (h : ¬m.Sensitive first second)
    (hchannel : first.channel ≠ second.channel)
    (hends : Input.Ends (m.after [first]) second ending) : Input.Ends m second ending := by
  cases hends with
  | quit => exact .quit
  | closed => exact .closed
  | halt hresult hfatal =>
      rw [cycle_after (fun hc ↦ h (Or.inr hc)) hchannel] at hresult
      exact .halt hresult hfatal

end Machine

namespace Run

variable {settings : Settings} {run other : Run} {input first second : Input}

/-- Two runs take their next inputs in the same way. -/
structure Meets (run other : Run) : Prop where
  session_eq : run.session = other.session
  ending_eq : run.ending = other.ending

theorem Meets.feed (h : run.Meets other) (input : Input) :
    (run.feed settings input).Meets (other.feed settings input) := by
  cases hending : run.ending with
  | some ending =>
      have hother : other.ending = some ending := h.ending_eq ▸ hending
      rw [feed_of_some hending, feed_of_some hother]
      exact ⟨h.session_eq, h.ending_eq⟩
  | none =>
      have hother : other.ending = none := h.ending_eq ▸ hending
      rw [feed_of_none hending, feed_of_none hother, h.session_eq]
      exact ⟨rfl, rfl⟩

theorem Meets.foldl (h : run.Meets other) (inputs : List Input) :
    (inputs.foldl (Run.feed settings) run).Meets (inputs.foldl (Run.feed settings) other) := by
  induction inputs generalizing run other with
  | nil => exact h
  | cons input inputs ih => exact ih (h.feed input)

theorem feed_of_not_ends (settings : Settings) (hrun : run.ending = none)
    (h : ∀ ending, ¬Input.Ends run.session.machine input ending) :
    (run.feed settings input).ending = none ∧
      (run.feed settings input).session =
        { machine := (run.session.machine.after [input]).takeRedraw
          rate := input.pace settings run.session.rate
          soundActive := (run.session.machine.after [input]).soundActive } := by
  rw [feed_of_none hrun]
  refine ⟨?_, Session.session_iterate_of_not_ends h⟩
  cases hending : (run.session.iterate settings input).ending with
  | none => rfl
  | some ending => exact absurd (Session.ending_iterate_eq_some_iff.mp hending) (h ending)

/-- Two inputs that do not end a session leave what they make of its machine and of its rate. -/
theorem feed_feed_of_not_ends (settings : Settings) (hrun : run.ending = none)
    (hfirst : ∀ ending, ¬Input.Ends run.session.machine first ending)
    (hsecond : ∀ ending, ¬Input.Ends (run.session.machine.after [first]) second ending) :
    ((run.feed settings first).feed settings second).ending = none ∧
      ((run.feed settings first).feed settings second).session =
        { machine := (run.session.machine.after [first, second]).takeRedraw
          rate := second.pace settings (first.pace settings run.session.rate)
          soundActive := (run.session.machine.after [first, second]).soundActive } := by
  obtain ⟨hending, hsession⟩ := feed_of_not_ends settings hrun hfirst
  have halike : Machine.Alike (run.session.machine.after [first])
      (run.feed settings first).session.machine := by
    rw [hsession]
    exact Machine.alike_takeRedraw _
  obtain ⟨hlast, hboth⟩ := feed_of_not_ends settings hending
    (fun ending hends ↦ hsecond ending (hends.of_alike halike.symm))
  obtain ⟨redraw, hmark⟩ := halike.after second
  refine ⟨hlast, ?_⟩
  rw [hboth, hmark, ← Machine.after_append, hsession]
  rfl

/-- Two inputs of different channels leave the same session in either order, if the machine is
not sensitive to it. -/
theorem meets_exchange (hchannel : first.channel ≠ second.channel)
    (h : ¬run.session.machine.Sensitive first second) :
    ((run.feed settings first).feed settings second).Meets
      ((run.feed settings second).feed settings first) := by
  cases hrun : run.ending with
  | some ending =>
      simp only [Run.feed, hrun]
      exact ⟨rfl, rfl⟩
  | none =>
      have hback : ¬run.session.machine.Sensitive second first := fun hs ↦ h hs.symm
      have hfirst (ending : Ending) : ¬Input.Ends run.session.machine first ending :=
        fun hends ↦ h (Or.inl (.ends hends))
      have hsecond (ending : Ending) : ¬Input.Ends run.session.machine second ending :=
        fun hends ↦ hback (Or.inl (.ends hends))
      obtain ⟨hending, hlast⟩ := feed_feed_of_not_ends settings hrun hfirst
        (fun ending hends ↦ hsecond ending (Machine.ends_of_ends_after h hchannel hends))
      obtain ⟨hending', hlast'⟩ := feed_feed_of_not_ends settings hrun hsecond
        (fun ending hends ↦ hfirst ending (Machine.ends_of_ends_after hback hchannel.symm hends))
      refine ⟨?_, hending.trans hending'.symm⟩
      rw [hlast, hlast', Machine.after_exchange h hchannel, Input.pace_exchange hchannel]

/-- Due work may be taken in any order, and so may the inputs that bring it: a session goes on
in the same way, unless its machine is sensitive to the order.  Both inputs are given to the
session in either order.  Which inputs a clock that is started anew still gives is left open. -/
theorem due_work_commutes (m : Machine) :
    ((∀ w, m.Fetches w → ¬w.UsesTimers) → m.Exchanges .cycle .tickTimers) ∧
      (∀ operation : Operation, operation.ReportsKeys → m.execution = .running →
        (∀ w, m.Fetches w → ¬w.UsesKeys) → m.Exchanges .cycle operation) ∧
      (∀ operation : Operation, operation.ReportsKeys →
        m.Exchanges .tickTimers operation) ∧
      ∀ (settings : Settings) (before later : List Input) (first second : Input),
        first.channel ≠ second.channel →
          ¬(ofInputs m settings before).session.machine.Sensitive first second →
            (ofInputs m settings (before ++ first :: second :: later)).Meets
              (ofInputs m settings (before ++ second :: first :: later)) := by
  refine ⟨Machine.exchanges_cycle_tickTimers, ?_, ?_, ?_⟩
  · intro operation hkeys hrun h
    exact Machine.exchanges_cycle_of_reportsKeys hkeys hrun h
  · intro operation hkeys
    exact m.exchanges_tickTimers hkeys
  · intro settings before later first second hchannel h
    have hsplit (a b : Input) : ofInputs m settings (before ++ a :: b :: later) =
        later.foldl (Run.feed settings)
          (((ofInputs m settings before).feed settings a).feed settings b) := by
      simp [ofInputs, List.foldl_append]
    rw [hsplit, hsplit]
    exact (meets_exchange hchannel h).foldl later

/-- A tick and the load of a register are taken in either order, and so are a key and the
load. -/
theorem due_work_commutes_load :
    let m := (Machine.ofSeed 0).load { bytes := [0x60, 0x01, 0xF0, 0x15] }
    m.Exchanges .cycle .tickTimers ∧ m.Exchanges .cycle (.setKey 0x5 true) ∧
      m.Exchanges .tickTimers .releaseKeys ∧
      (ofInputs m {} [.cycle, .timerTick, .cycle, .closed]).Meets
        (ofInputs m {} [.timerTick, .cycle, .cycle, .closed]) := by
  intro m
  have hrun : m.execution = .running ∧ m.fetch = .ok 0x6001 ∧
      m.cycle.result = .ok .executed := by
    decide +kernel
  obtain ⟨hexec, hfetch, hresult⟩ := hrun
  have hw : m.Fetches 0x6001 := ⟨hexec, hfetch⟩
  have htimers : ∀ w, m.Fetches w → ¬w.UsesTimers := by
    intro w hfetches
    rw [hfetches.unique hw]
    decide
  have hkeys : ∀ w, m.Fetches w → ¬w.UsesKeys := by
    intro w hfetches
    rw [hfetches.unique hw]
    decide
  have hcalm : ¬m.Sensitive .cycle .timerTick := by
    rintro (hclash | hclash)
    · cases hclash with
      | timers hfetches huses => exact htimers _ hfetches huses
      | ends hends =>
          cases hends with
          | halt hfails hfatal =>
              rw [hresult] at hfails
              cases hfails
    · cases hclash with
      | ends hends => cases hends
  obtain ⟨htick, hpress, hrelease, horder⟩ := due_work_commutes m
  exact ⟨htick htimers, hpress (.setKey 0x5 true) trivial hexec hkeys,
    hrelease .releaseKeys trivial, horder {} [] [.cycle, .closed] _ _ (by decide) hcalm⟩

/-- The order may matter although the word uses neither the timers nor the keypad: a reset
undoes a cycle that came before it, and the end of the session leaves undone what is due after. -/
theorem order_matters_at_reset_and_end :
    (let m := (Machine.ofSeed 0).load { bytes := [0x60, 0x01] }
     m.Fetches 0x6001 ∧ ¬Word.UsesTimers 0x6001 ∧ ¬Word.UsesKeys 0x6001 ∧
       (ofInputs m {} [.cycle, .event .reset]).session.machine ≠
         (ofInputs m {} [.event .reset, .cycle]).session.machine ∧
       (ofInputs m {} [.cycle, .event .quit]).session.machine ≠
         (ofInputs m {} [.event .quit, .cycle]).session.machine) ∧
      let m := ((Machine.ofSeed 0).load
        { bytes := [0x60, 0x05, 0xF0, 0x15, 0x00, 0xEE] }).run [.cycle, .cycle]
      m.Fetches 0x00EE ∧ ¬Word.UsesTimers 0x00EE ∧ ¬Word.UsesKeys 0x00EE ∧
        (ofInputs m {} [.cycle, .timerTick]).session.machine ≠
          (ofInputs m {} [.timerTick, .cycle]).session.machine := by
  constructor
  · intro m
    have hrun : m.execution = .running ∧ m.fetch = .ok 0x6001 ∧
        (ofInputs m {} [.cycle, .event .reset]).session.machine.registers.get 0 = 0x00 ∧
        (ofInputs m {} [.event .reset, .cycle]).session.machine.registers.get 0 = 0x01 ∧
        (ofInputs m {} [.cycle, .event .quit]).session.machine.registers.get 0 = 0x01 ∧
        (ofInputs m {} [.event .quit, .cycle]).session.machine.registers.get 0 = 0x00 := by
      decide +kernel
    obtain ⟨hexec, hfetch, hundone, hkept, hdone, hnever⟩ := hrun
    refine ⟨⟨hexec, hfetch⟩, by decide, by decide, fun heq ↦ ?_, fun heq ↦ ?_⟩
    · rw [heq, hkept] at hundone
      exact absurd hundone (by decide)
    · rw [heq, hnever] at hdone
      exact absurd hdone (by decide)
  · intro m
    have hrun : m.execution = .running ∧ m.fetch = .ok 0x00EE ∧
        (ofInputs m {} [.cycle, .timerTick]).session.machine.timers.delay = 5 ∧
        (ofInputs m {} [.timerTick, .cycle]).session.machine.timers.delay = 4 := by
      decide +kernel
    obtain ⟨hexec, hfetch, hundone, hticked⟩ := hrun
    refine ⟨⟨hexec, hfetch⟩, by decide, by decide, fun heq ↦ ?_⟩
    rw [heq, hticked] at hundone
    exact absurd hundone (by decide)

end Run
end Chip8
