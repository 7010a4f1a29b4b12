import Chip8.Host.Session
import Chip8.Proofs.Histories
import Chip8.Proofs.Redraw

/-!
# Sessions follow the machine

A session adds a rate, clocks and outputs to a machine, and none of them reaches the
machine.  Up to the input that ends it, a session leaves the machine that its inputs make
as operations, but for the flag of the picture.
-/

namespace Chip8
namespace Input

/-- The operation that an input performs on the machine, if any. -/
def operation? : Input → Option Operation
  | .event (.keyDown pin) => some (.setKey pin true)
  | .event (.keyUp pin) => some (.setKey pin false)
  | .event .releaseKeys => some .releaseKeys
  | .event .reset => some .reset
  | .cycle => some .cycle
  | .timerTick => some .tickTimers
  | _ => none

def setsPace : Input → Bool
  | .event .speedUp => true
  | .event .slowDown => true
  | _ => false

/-- The rate of a session after an input. -/
def pace (settings : Settings) (rate : UInt32) : Input → UInt32
  | .event .speedUp => Rate.raise rate settings.step
  | .event .slowDown => Rate.lower rate settings.step
  | _ => rate

/-- The inputs without those that set the pace. -/
def unpaced (inputs : List Input) : List Input := inputs.filter (fun input ↦ !input.setsPace)

/-- An input that finds the machine `m` ends the session. -/
inductive Ends (m : Machine) : Input → Ending → Prop
  | quit : Ends m (.event .quit) .stopped
  | closed : Ends m .closed .stopped
  | halt {fault : Fault} : m.cycle.result = .error fault → fault.isFatal = true →
      Ends m .cycle (.halted fault)

variable {m n : Machine} {input : Input} {ending : Ending}

theorem Ends.of_alike (h : Ends m input ending) (hmn : Machine.Alike m n) :
    Ends n input ending := by
  cases h with
  | quit => exact .quit
  | closed => exact .closed
  | halt hresult hfatal => exact .halt (hmn.result_cycle.trans hresult) hfatal

theorem Ends.not_setsPace (h : Ends m input ending) : input.setsPace = false := by
  cases h <;> rfl

theorem operation?_of_setsPace (h : input.setsPace = true) : input.operation? = none := by
  cases input with
  | event event =>
      cases event with
      | speedUp => rfl
      | slowDown => rfl
      | _ => cases h
  | _ => cases h

end Input

namespace Machine

variable {m n : Machine} {inputs : List Input} {input : Input} {ending : Ending}

/-! ## The plain machine -/

/-- The machine after the operations of a list of inputs. -/
def after (m : Machine) (inputs : List Input) : Machine :=
  m.run (inputs.filterMap Input.operation?)

/-- No input of the list ends a session that starts with the machine `m`. -/
def Endless (m : Machine) (inputs : List Input) : Prop :=
  ∀ before input later, inputs = before ++ input :: later →
    ∀ ending, ¬Input.Ends (m.after before) input ending

@[simp] theorem after_nil (m : Machine) : m.after [] = m := rfl

theorem after_append (m : Machine) (first second : List Input) :
    m.after (first ++ second) = (m.after first).after second := by
  rw [after, List.filterMap_append, run_append]
  rfl

theorem after_singleton_of_none (h : input.operation? = none) : m.after [input] = m := by
  simp [after, h]

theorem after_singleton_of_some {operation : Operation} (h : input.operation? = some operation) :
    m.after [input] = (m.perform operation).machine := by
  simp [after, h]

theorem Alike.after (h : Alike m n) (input : Input) :
    Alike (m.after [input]) (n.after [input]) := by
  cases hop : input.operation? with
  | none =>
      rw [after_singleton_of_none hop, after_singleton_of_none hop]
      exact h
  | some operation =>
      rw [after_singleton_of_some hop, after_singleton_of_some hop]
      exact h.perform operation

theorem endless_nil (m : Machine) : m.Endless [] := by
  intro before input later h
  simp at h

theorem endless_append_singleton :
    m.Endless (inputs ++ [input]) ↔
      m.Endless inputs ∧ ∀ ending, ¬Input.Ends (m.after inputs) input ending := by
  constructor
  · intro h
    refine ⟨?_, h inputs input [] rfl⟩
    rintro before next later rfl
    exact h before next (later ++ [input]) (by simp)
  · rintro ⟨hinputs, hlast⟩ before next later h
    rcases append_singleton_eq_iff.mp h with ⟨-, rfl, rfl⟩ | ⟨rest, -, hrest⟩
    · exact hlast
    · exact hinputs before next rest hrest

/-- A list of inputs has no input that ends the session, or a first one. -/
theorem endless_or_ends (m : Machine) (inputs : List Input) :
    m.Endless inputs ∨
      ∃ before input later ending, inputs = before ++ input :: later ∧ m.Endless before ∧
        Input.Ends (m.after before) input ending := by
  induction inputs using List.reverseRecOn with
  | nil => exact Or.inl m.endless_nil
  | append_singleton inputs input ih =>
      rcases ih with hinputs | ⟨before, next, later, ending, rfl, hbefore, hends⟩
      · by_cases hlast : ∃ ending, Input.Ends (m.after inputs) input ending
        · obtain ⟨ending, hends⟩ := hlast
          exact Or.inr ⟨inputs, input, [], ending, rfl, hinputs, hends⟩
        · refine Or.inl (endless_append_singleton.mpr ⟨hinputs, fun ending hends ↦ ?_⟩)
          exact hlast ⟨ending, hends⟩
      · exact Or.inr ⟨before, next, later ++ [input], ending, by simp, hbefore, hends⟩

/-! ## Inputs that set the pace -/

theorem after_unpaced (m : Machine) (inputs : List Input) :
    m.after (Input.unpaced inputs) = m.after inputs := by
  have hoperations : (Input.unpaced inputs).filterMap Input.operation? =
      inputs.filterMap Input.operation? := by
    induction inputs with
    | nil => rfl
    | cons input inputs ih =>
        have hrest : (inputs.filter (fun input ↦ !input.setsPace)).filterMap Input.operation? =
            inputs.filterMap Input.operation? := ih
        cases hpace : input.setsPace with
        | true => simp [Input.unpaced, hpace, hrest, Input.operation?_of_setsPace hpace]
        | false => simp [Input.unpaced, hpace, hrest, List.filterMap_cons]
  rw [after, hoperations, after]

theorem endless_unpaced (h : m.Endless inputs) : m.Endless (Input.unpaced inputs) := by
  induction inputs using List.reverseRecOn with
  | nil => exact h
  | append_singleton inputs input ih =>
      obtain ⟨hinputs, hlast⟩ := endless_append_singleton.mp h
      have hunpaced : Input.unpaced (inputs ++ [input]) =
          Input.unpaced inputs ++ Input.unpaced [input] := List.filter_append ..
      rw [hunpaced]
      cases hpace : input.setsPace with
      | true => simpa [Input.unpaced, hpace] using ih hinputs
      | false =>
          have hsingle : Input.unpaced [input] = [input] := by simp [Input.unpaced, hpace]
          rw [hsingle]
          refine endless_append_singleton.mpr ⟨ih hinputs, ?_⟩
          rw [after_unpaced]
          exact hlast

end Machine

namespace Session

variable {s : Session} {settings : Settings} {input : Input} {ending : Ending}

/-! ## One iteration -/

theorem react_cycle_of_error {fault : Fault} (h : s.machine.cycle.result = .error fault) :
    (s.react settings .cycle).ending =
      if fault.isFatal then some (.halted fault) else none := by
  simp only [react, cycle, h]
  split
  · rfl
  · rfl

theorem ending_react_eq_some_iff :
    (s.react settings input).ending = some ending ↔ Input.Ends s.machine input ending := by
  constructor
  · intro h
    cases input with
    | event event =>
        cases event with
        | quit =>
            cases h
            exact .quit
        | _ => cases h
    | closed =>
        cases h
        exact .closed
    | cycle =>
        cases hresult : s.machine.cycle.result with
        | ok status =>
            simp only [react, cycle, hresult] at h
            cases h
        | error fault =>
            rw [react_cycle_of_error hresult, Option.ite_none_right_eq_some] at h
            obtain ⟨hfatal, heq⟩ := h
            cases heq
            exact .halt hresult hfatal
    | timerTick => cases h
  · intro h
    cases h with
    | quit => rfl
    | closed => rfl
    | halt hresult hfatal => rw [react_cycle_of_error hresult, if_pos hfatal]

theorem session_react (s : Session) (settings : Settings) (input : Input) :
    (s.react settings input).session =
      { machine := s.machine.after [input]
        rate := input.pace settings s.rate
        soundActive := s.soundActive } := by
  cases input with
  | event event => cases event <;> rfl
  | closed => rfl
  | cycle =>
      cases hresult : s.machine.cycle.result with
      | ok status =>
          simp only [react, cycle, hresult]
          rfl
      | error fault =>
          simp only [react, cycle, hresult]
          split
          · rfl
          · rfl
  | timerTick => rfl

theorem machine_react (s : Session) (settings : Settings) (input : Input) :
    (s.react settings input).session.machine = s.machine.after [input] := by
  rw [session_react]

theorem session_showPicture (s : Session) :
    s.showPicture.1 = s.withMachine s.machine.takeRedraw := by
  unfold showPicture
  split
  · rfl
  · rename_i hlowered
    have hredraw : s.machine.redraw = false := by simpa using hlowered
    rw [Machine.takeRedraw, ← hredraw]
    rfl

theorem session_reportSound (s : Session) :
    s.reportSound.1 = { s with soundActive := s.machine.soundActive } := by
  unfold reportSound
  split
  · rename_i heq
    rw [heq]
  · rename_i hne
    rw [Bool.eq_not.mpr hne]

theorem iterate_of_ending (h : (s.react settings input).ending = some ending) :
    s.iterate settings input = s.react settings input := by
  simp only [iterate, h]

theorem iterate_of_none (h : (s.react settings input).ending = none) :
    s.iterate settings input =
      let shown := (s.react settings input).session.showPicture
      { session := shown.1.reportSound.1
        effects := (s.react settings input).effects ++ shown.2 ++ shown.1.reportSound.2 } := by
  simp only [iterate, h]

theorem ending_iterate_eq_some_iff :
    (s.iterate settings input).ending = some ending ↔ Input.Ends s.machine input ending := by
  have hreact : (s.react settings input).ending = some ending ↔ Input.Ends s.machine input ending :=
    ending_react_eq_some_iff
  rw [← hreact]
  cases h : (s.react settings input).ending with
  | none => rw [iterate_of_none h]
  | some other => rw [iterate_of_ending h, h]

theorem machine_iterate_of_ends (h : Input.Ends s.machine input ending) :
    (s.iterate settings input).session.machine = s.machine.after [input] := by
  rw [iterate_of_ending (ending_react_eq_some_iff.mpr h), machine_react]

theorem ending_react_of_not_ends (h : ∀ ending, ¬Input.Ends s.machine input ending) :
    (s.react settings input).ending = none := by
  cases hending : (s.react settings input).ending with
  | none => rfl
  | some ending => exact absurd (ending_react_eq_some_iff.mp hending) (h ending)

/-- After an iteration the picture is taken and the tone is the one that was last reported. -/
theorem session_iterate_of_not_ends (h : ∀ ending, ¬Input.Ends s.machine input ending) :
    (s.iterate settings input).session =
      { machine := (s.machine.after [input]).takeRedraw
        rate := input.pace settings s.rate
        soundActive := (s.machine.after [input]).soundActive } := by
  rw [iterate_of_none (ending_react_of_not_ends h)]
  simp only [session_reportSound, session_showPicture, session_react]
  rfl

theorem machine_iterate_of_not_ends (h : ∀ ending, ¬Input.Ends s.machine input ending) :
    (s.iterate settings input).session.machine = (s.machine.after [input]).takeRedraw := by
  rw [session_iterate_of_not_ends h]

theorem alike_iterate (s : Session) (settings : Settings) (input : Input) :
    Machine.Alike (s.machine.after [input]) (s.iterate settings input).session.machine := by
  by_cases h : ∃ ending, Input.Ends s.machine input ending
  · obtain ⟨ending, hends⟩ := h
    rw [machine_iterate_of_ends hends]
    exact .refl _
  · rw [machine_iterate_of_not_ends (fun ending hends ↦ h ⟨ending, hends⟩)]
    exact Machine.alike_takeRedraw _

end Session

namespace Run

variable {m : Machine} {settings : Settings} {inputs before later : List Input} {input : Input}
  {ending : Ending} {run : Run}

/-! ## Runs -/

theorem ofInputs_append_singleton (m : Machine) (settings : Settings) (inputs : List Input)
    (input : Input) :
    ofInputs m settings (inputs ++ [input]) = feed settings (ofInputs m settings inputs) input := by
  simp [ofInputs, List.foldl_append]

theorem feed_of_none (h : run.ending = none) (input : Input) :
    feed settings run input =
      { run with
        session := (run.session.iterate settings input).session
        effects := run.effects ++ (run.session.iterate settings input).effects
        ending := (run.session.iterate settings input).ending } := by
  simp only [feed, h]

theorem feed_of_some (h : run.ending = some ending) (input : Input) :
    feed settings run input = { run with unread := run.unread.push input } := by
  simp only [feed, h]

theorem ofInputs_of_endless (settings : Settings) (h : m.Endless inputs) :
    (ofInputs m settings inputs).ending = none ∧ (ofInputs m settings inputs).unread = #[] ∧
      Machine.Alike (m.after inputs) (ofInputs m settings inputs).session.machine := by
  induction inputs using List.reverseRecOn with
  | nil => exact ⟨rfl, rfl, .refl m⟩
  | append_singleton inputs input ih =>
      obtain ⟨hinputs, hlast⟩ := Machine.endless_append_singleton.mp h
      obtain ⟨hending, hunread, halike⟩ := ih hinputs
      rw [ofInputs_append_singleton, feed_of_none hending, Machine.after_append]
      refine ⟨?_, hunread, (halike.after input).trans (Session.alike_iterate ..)⟩
      cases hnext : ((ofInputs m settings inputs).session.iterate settings input).ending with
      | none => rfl
      | some ending =>
          have hends := Session.ending_iterate_eq_some_iff.mp hnext
          exact absurd (hends.of_alike halike.symm) (hlast ending)

/-- A run stops at the first input that ends it and leaves the later ones unread. -/
theorem ofInputs_of_ends (settings : Settings) (hbefore : m.Endless before)
    (hends : Input.Ends (m.after before) input ending) (later : List Input) :
    let run := ofInputs m settings (before ++ input :: later)
    run.ending = some ending ∧ run.unread.toList = later ∧
      Machine.Alike (m.after (before ++ [input])) run.session.machine := by
  induction later using List.reverseRecOn with
  | nil =>
      obtain ⟨hending, hunread, halike⟩ := ofInputs_of_endless settings hbefore
      have hstop :
          ((ofInputs m settings before).session.iterate settings input).ending = some ending :=
        Session.ending_iterate_eq_some_iff.mpr (hends.of_alike halike)
      rw [ofInputs_append_singleton, feed_of_none hending, Machine.after_append]
      refine ⟨hstop, ?_, (halike.after input).trans (Session.alike_iterate ..)⟩
      rw [hunread]
  | append_singleton later next ih =>
      obtain ⟨hending, hunread, halike⟩ := ih
      have hlist : before ++ input :: (later ++ [next]) = before ++ input :: later ++ [next] := by
        simp
      rw [hlist, ofInputs_append_singleton, feed_of_some hending]
      exact ⟨hending, by simp [hunread], halike⟩

/-- Neither the settings nor the inputs that set the pace matter to the machine. -/
theorem ofInputs_unpaced (m : Machine) (settings other : Settings) (inputs : List Input) :
    (ofInputs m other (Input.unpaced inputs)).ending = (ofInputs m settings inputs).ending ∧
      Machine.Alike (ofInputs m settings inputs).session.machine
        (ofInputs m other (Input.unpaced inputs)).session.machine := by
  rcases m.endless_or_ends inputs with h | ⟨before, input, later, ending, rfl, hbefore, hends⟩
  · obtain ⟨hending, -, halike⟩ := ofInputs_of_endless settings h
    obtain ⟨hother, -, hunpaced⟩ := ofInputs_of_endless other (Machine.endless_unpaced h)
    rw [Machine.after_unpaced] at hunpaced
    exact ⟨hother.trans hending.symm, halike.symm.trans hunpaced⟩
  · obtain ⟨hending, -, halike⟩ := ofInputs_of_ends settings hbefore hends later
    have hsplit : Input.unpaced (before ++ input :: later) =
        Input.unpaced before ++ input :: Input.unpaced later := by
      simp [Input.unpaced, hends.not_setsPace]
    have hends' : Input.Ends (m.after (Input.unpaced before)) input ending := by
      rw [Machine.after_unpaced]
      exact hends
    obtain ⟨hother, -, hunpaced⟩ :=
      ofInputs_of_ends other (Machine.endless_unpaced hbefore) hends' (Input.unpaced later)
    rw [Machine.after_append, Machine.after_unpaced, ← Machine.after_append] at hunpaced
    rw [hsplit]
    exact ⟨hother.trans hending.symm, halike.symm.trans hunpaced⟩

theorem ending_ne_machineCodeCall (m : Machine) (settings : Settings) (inputs : List Input)
    (word : Word) (address : Nat) :
    (ofInputs m settings inputs).ending ≠ some (.halted (.machineCodeCall word address)) := by
  intro hcode
  rcases m.endless_or_ends inputs with h | ⟨before, input, later, ending, rfl, hbefore, hends⟩
  · obtain ⟨hending, -⟩ := ofInputs_of_endless settings h
    rw [hending] at hcode
    cases hcode
  · obtain ⟨hending, -⟩ := ofInputs_of_ends settings hbefore hends later
    rw [hending] at hcode
    cases hcode
    cases hends with
    | halt hresult hfatal => cases hfatal

/-- A session is the plain machine up to the first input that ends it.  What it shows and
how fast it runs goes out of it and never comes back. -/
theorem session_follows_machine (m : Machine) (settings : Settings) (inputs : List Input) :
    let run := ofInputs m settings inputs
    (m.Endless inputs →
      run.ending = none ∧ run.unread.toList = [] ∧
        Machine.Alike (m.after inputs) run.session.machine) ∧
      (∀ before input later ending, inputs = before ++ input :: later → m.Endless before →
        Input.Ends (m.after before) input ending →
          run.ending = some ending ∧ run.unread.toList = later ∧
            Machine.Alike (m.after (before ++ [input])) run.session.machine) ∧
      (m.Endless inputs ∨
        ∃ before input later ending, inputs = before ++ input :: later ∧ m.Endless before ∧
          Input.Ends (m.after before) input ending) ∧
      (∀ word address, run.ending ≠ some (.halted (.machineCodeCall word address))) ∧
      ∀ (other : Settings) (paced : List Input), Input.unpaced paced = Input.unpaced inputs →
        (ofInputs m other paced).ending = run.ending ∧
          Machine.Alike run.session.machine (ofInputs m other paced).session.machine := by
  intro run
  refine ⟨?_, ?_, m.endless_or_ends inputs, ending_ne_machineCodeCall m settings inputs, ?_⟩
  · intro h
    obtain ⟨hending, hunread, halike⟩ := ofInputs_of_endless settings h
    exact ⟨hending, by rw [hunread], halike⟩
  · rintro before input later ending rfl hbefore hends
    exact ofInputs_of_ends settings hbefore hends later
  · intro other paced hpaced
    obtain ⟨hending, halike⟩ := ofInputs_unpaced m settings settings inputs
    obtain ⟨hother, hlike⟩ := ofInputs_unpaced m other settings paced
    rw [hpaced] at hother hlike
    exact ⟨hother.symm.trans hending, halike.trans hlike.symm⟩

/-- A return without a call ends the session at its second cycle, however often the pace
is set before. -/
theorem session_follows_machine_underflow :
    let m := (Machine.ofSeed 0).load { bytes := [0x01, 0x23, 0x00, 0xEE] }
    let run := ofInputs m {} [.cycle, .event .speedUp, .cycle, .timerTick]
    run.ending = some (.halted (.stackUnderflow 0x202)) ∧ run.unread.toList = [.timerTick] ∧
      (ofInputs m {} [.cycle, .event .speedUp]).ending = none ∧
      (ofInputs m { rate := 10 } [.cycle, .cycle, .timerTick]).ending = run.ending := by
  intro m run
  have hskip : m.cycle.result = .error (.machineCodeCall 0x0123 0x200) := by decide +kernel
  have hempty : (m.after [.cycle, .event .speedUp]).cycle.result =
      .error (.stackUnderflow 0x202) := by decide +kernel
  have hfirst : m.Endless ([] ++ [.cycle]) := by
    refine Machine.endless_append_singleton.mpr ⟨m.endless_nil, ?_⟩
    intro ending hends
    cases hends with
    | halt hresult hfatal =>
        rw [Machine.after_nil, hskip] at hresult
        cases hresult
        cases hfatal
  have hbefore : m.Endless ([.cycle] ++ [.event .speedUp]) :=
    Machine.endless_append_singleton.mpr ⟨hfirst, fun ending ↦ nofun⟩
  obtain ⟨-, hstop, -, -, hpace⟩ :=
    session_follows_machine m {} [.cycle, .event .speedUp, .cycle, .timerTick]
  obtain ⟨hending, hunread, -⟩ := hstop _ .cycle [.timerTick] _ rfl hbefore (.halt hempty rfl)
  obtain ⟨hgoing, -⟩ := session_follows_machine m {} [.cycle, .event .speedUp]
  obtain ⟨hnone, -⟩ := hgoing hbefore
  obtain ⟨hsame, -⟩ := hpace { rate := 10 } [.cycle, .cycle, .timerTick] rfl
  exact ⟨hending, hunread, hnone, hsame⟩

end Run
end Chip8
