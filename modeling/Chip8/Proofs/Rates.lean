import Chip8.Proofs.Sessions
import Mathlib.Data.Vector.Basic

/-!
# Rates of a session

The rate moves by one step for each input that sets the pace and is clamped after each of them.
The sums are made in words of fixed width and saturate, but a sum that would not fit lies far
beyond the limits, so the rate is the one that unbounded integers give.  Each time the rate is
set the cycle clock gets its period and the log one line, whether the rate changed or not.
-/

namespace Chip8

namespace Rate

/-- The rate lies within the limits. -/
def Allowed (rate : UInt32) : Prop := 10 ≤ rate.toNat ∧ rate.toNat ≤ 10000

theorem allowed_clamp (rate : UInt32) : Allowed (clamp rate) := by
  unfold Allowed
  rw [toNat_clamp]
  omega

/-- Inside the limits the greatest rate gives the shortest period. -/
theorem period_of_allowed {rate : UInt32} (h : Allowed rate) :
    (period rate : Int) = 1000000000 / (rate.toNat : Int) ∧
      100000 ≤ period rate ∧ period rate ≤ 100000000 := by
  obtain ⟨hleast, hgreatest⟩ := h
  have hpositive : 0 < rate.toNat := by omega
  have hperiod : period rate = 1000000000 / rate.toNat := by
    rw [period, Nat.max_eq_left hpositive]
  rw [hperiod]
  refine ⟨Int.natCast_ediv 1000000000 rate.toNat, ?_, ?_⟩
  · apply (Nat.le_div_iff_mul_le hpositive).mpr
    omega
  · calc
      1000000000 / rate.toNat ≤ 1000000000 / 10 := Nat.div_le_div_left hleast (by decide)
      _ = 100000000 := rfl

end Rate

namespace Input

variable {settings : Settings} {input : Input} {steps : List Input} {rate first : UInt32}

theorem pace_of_not_setsPace (h : input.setsPace = false) : input.pace settings rate = rate := by
  cases input with
  | event event =>
      cases event with
      | speedUp => cases h
      | slowDown => cases h
      | _ => rfl
  | _ => rfl

/-- The rate after an input, as an integer without bounds but for the limits. -/
def exactPace (step : UInt32) (rate : Int) : Input → Int
  | .event .speedUp => min 10000 (max 10 (rate + step.toNat))
  | .event .slowDown => min 10000 (max 10 (rate - step.toNat))
  | _ => rate

theorem toNat_pace (settings : Settings) (rate : UInt32) (input : Input) :
    ((input.pace settings rate).toNat : Int) = input.exactPace settings.step rate.toNat := by
  cases input with
  | event event =>
      cases event with
      | speedUp =>
          rw [pace, exactPace, Rate.toNat_raise]
          omega
      | slowDown =>
          rw [pace, exactPace, Rate.toNat_lower]
          omega
      | _ => rfl
  | _ => rfl

theorem allowed_pace (h : Rate.Allowed rate) (settings : Settings) (input : Input) :
    Rate.Allowed (input.pace settings rate) := by
  cases input with
  | event event =>
      cases event with
      | speedUp => exact Rate.allowed_clamp _
      | slowDown => exact Rate.allowed_clamp _
      | _ => exact h
  | _ => exact h

theorem toNat_foldl_pace (settings : Settings) (first : UInt32) (steps : List Input) :
    ((steps.foldl (pace settings) first).toNat : Int) =
      steps.foldl (exactPace settings.step) first.toNat :=
  (List.foldl_hom (fun rate : UInt32 ↦ (rate.toNat : Int))
    (fun rate input ↦ (toNat_pace settings rate input).symm)).symm

theorem map_toNat_scanl_pace (settings : Settings) (first : UInt32) (steps : List Input) :
    (steps.scanl (pace settings) first).map (fun rate ↦ (rate.toNat : Int)) =
      steps.scanl (exactPace settings.step) first.toNat := by
  induction steps generalizing first with
  | nil => rfl
  | cons input steps ih =>
      rw [List.scanl_cons, List.scanl_cons, List.map_cons, ih, toNat_pace]

theorem allowed_of_mem_scanl (hfirst : Rate.Allowed first)
    (h : rate ∈ steps.scanl (pace settings) first) : Rate.Allowed rate := by
  induction steps generalizing first with
  | nil =>
      obtain rfl : rate = first := by simpa using h
      exact hfirst
  | cons input steps ih =>
      rw [List.scanl_cons, List.mem_cons] at h
      rcases h with rfl | h
      · exact hfirst
      · exact ih (allowed_pace hfirst settings input) h

end Input

/-! ## What a session says about its rate -/

namespace LogEntry

/-- The rate that a line of the log tells. -/
def rate? : LogEntry → Option UInt32
  | .running rate => some rate
  | _ => none

end LogEntry

namespace Machine

variable {m : Machine} {w : Word} {entry : LogEntry}

theorem rate?_of_mem_traced (h : entry ∈ m.traced w) : entry.rate? = none := by
  obtain ⟨pattern, -, rfl⟩ := List.mem_map.mp h
  rfl

/-- No line of a cycle tells a rate. -/
theorem rate?_of_mem_log_cycle (h : entry ∈ m.cycle.log) : entry.rate? = none := by
  cases m.turn with
  | @poll x awaiting eq =>
      rw [eq] at h
      cases hpress : m.keypad.press? with
      | none =>
          rw [poll_of_press_eq_none hpress] at h
          cases h
      | some key =>
          rw [poll_of_press_eq_some hpress] at h
          obtain rfl := List.mem_singleton.mp h
          rfl
  | unfetched running unfetched eq =>
      rw [eq] at h
      cases h
  | reserved fetches reserved eq =>
      rw [eq] at h
      cases h
  | fault fetches encodes fails machine_eq result_eq =>
      rw [cycle_eq_of_fault fetches encodes fails] at h
      rcases List.mem_append.mp h with htraced | hskipping
      · exact rate?_of_mem_traced htraced
      · obtain ⟨-, hmem⟩ := List.mem_ite_nil_left.mp hskipping
        obtain rfl := List.mem_singleton.mp hmem
        rfl
  | step fetches encodes step machine_eq result_eq =>
      rw [cycle_eq_of_step fetches encodes step] at h
      rcases List.mem_append.mp h with htraced | hsuspended
      · exact rate?_of_mem_traced htraced
      · obtain ⟨-, hmem⟩ := List.mem_ite_nil_right.mp hsuspended
        obtain rfl := List.mem_singleton.mp hmem
        rfl

end Machine

namespace Effect

/-- The period that an effect gives to the cycle clock. -/
def period? : Effect → Option Nat
  | .setPeriod nanoseconds => some nanoseconds
  | _ => none

/-- The rate that an effect tells the log. -/
def rate? : Effect → Option UInt32
  | .log entry => entry.rate?
  | _ => none

/-- Whether an effect belongs to a rate that is set. -/
def setsRate (effect : Effect) : Bool := effect.period?.isSome || effect.rate?.isSome

theorem setsRate_eq_false_iff {effect : Effect} :
    effect.setsRate = false ↔ effect.period? = none ∧ effect.rate? = none := by
  simp [setsRate]

theorem filter_setsRate_log {log : List LogEntry} (h : ∀ entry ∈ log, entry.rate? = none) :
    (log.map Effect.log).filter setsRate = [] := by
  rw [List.filter_eq_nil_iff]
  intro effect hmem
  obtain ⟨entry, hentry, rfl⟩ := List.mem_map.mp hmem
  rw [Bool.not_eq_true, setsRate_eq_false_iff]
  exact ⟨rfl, h entry hentry⟩

theorem filterMap_filter_setsRate {α : Type} {read : Effect → Option α}
    (h : ∀ effect, setsRate effect = false → read effect = none) (effects : List Effect) :
    (effects.filter setsRate).filterMap read = effects.filterMap read := by
  induction effects with
  | nil => rfl
  | cons effect effects ih =>
      cases hsets : effect.setsRate with
      | true => rw [List.filter_cons_of_pos hsets, List.filterMap_cons, List.filterMap_cons, ih]
      | false =>
          rw [List.filter_cons_of_neg (by simp [hsets]), List.filterMap_cons_none (h _ hsets), ih]

theorem filterMap_rateEffects {α : Type} {read : Effect → Option α} {value : UInt32 → α}
    (h : ∀ rate, (Session.rateEffects rate).filterMap read = [value rate])
    (rates : List UInt32) :
    (rates.flatMap Session.rateEffects).filterMap read = rates.map value := by
  induction rates with
  | nil => rfl
  | cons rate rates ih =>
      rw [List.flatMap_cons, List.filterMap_append, h, ih]
      rfl

end Effect

namespace Session

theorem rate_iterate (s : Session) (settings : Settings) (input : Input) :
    (s.iterate settings input).session.rate = input.pace settings s.rate := by
  by_cases hend : ∃ ending, input.Ends s.machine ending
  · obtain ⟨ending, hends⟩ := hend
    rw [iterate_of_ending (ending_react_eq_some_iff.mpr hends), session_react]
  · rw [session_iterate_of_not_ends (fun ending hends ↦ hend ⟨ending, hends⟩)]

theorem filter_setsRate_cycle (s : Session) : s.cycle.effects.filter Effect.setsRate = [] := by
  have hlog : (s.machine.cycle.log.map Effect.log).filter Effect.setsRate = [] :=
    Effect.filter_setsRate_log (fun _ ↦ Machine.rate?_of_mem_log_cycle)
  cases hresult : s.machine.cycle.result with
  | ok status =>
      simp only [cycle, hresult]
      exact hlog
  | error fault =>
      simp only [cycle, hresult]
      split
      · rw [List.filter_append, hlog]
        rfl
      · exact hlog

/-- An iteration sets the rate exactly when its input sets the pace. -/
theorem filter_setsRate_iterate (s : Session) (settings : Settings) (input : Input) :
    (s.iterate settings input).effects.filter Effect.setsRate =
      if input.setsPace then rateEffects (input.pace settings s.rate) else [] := by
  have hreact : (s.react settings input).effects.filter Effect.setsRate =
      if input.setsPace then rateEffects (input.pace settings s.rate) else [] := by
    cases input with
    | event event => cases event <;> rfl
    | closed => rfl
    | cycle => exact s.filter_setsRate_cycle
    | timerTick => rfl
  have hpicture (s : Session) : s.showPicture.2.filter Effect.setsRate = [] := by
    unfold showPicture
    split <;> rfl
  have hsound (s : Session) : s.reportSound.2.filter Effect.setsRate = [] := by
    unfold reportSound
    split <;> rfl
  cases hending : (s.react settings input).ending with
  | some ending => rw [iterate_of_ending hending, hreact]
  | none =>
      rw [iterate_of_none hending]
      simp only [List.filter_append, hpicture, hsound, List.append_nil]
      exact hreact

end Session

namespace Run

variable {settings : Settings} {steps : List Input} {run : Run}

/-- The periods that a run gave to the cycle clock, in order. -/
def periods (run : Run) : List Nat := run.effects.toList.filterMap Effect.period?

/-- The rates that the lines of the log tell, in order. -/
def rateLines (run : Run) : List UInt32 := run.log.filterMap LogEntry.rate?

theorem rateLines_eq (run : Run) :
    run.rateLines = run.effects.toList.filterMap Effect.rate? := by
  rw [rateLines, log, List.filterMap_filterMap]
  congr 1
  funext effect
  cases effect <;> rfl

/-- The rate of the run, and all that it said about its rates, after the inputs `steps` set the
pace. -/
structure Paced (settings : Settings) (steps : List Input) (run : Run) : Prop where
  rate_eq : run.session.rate = steps.foldl (Input.pace settings) (Rate.clamp settings.rate)
  effects_eq : run.effects.toList.filter Effect.setsRate =
    (steps.scanl (Input.pace settings) (Rate.clamp settings.rate)).flatMap Session.rateEffects

theorem paced_start (m : Machine) (settings : Settings) : (start m settings).Paced settings [] where
  rate_eq := rfl
  effects_eq := rfl

theorem Paced.feed (h : run.Paced settings steps) (hnone : run.ending = none) (input : Input) :
    (feed settings run input).Paced settings (steps ++ [input].filter Input.setsPace) := by
  rw [feed_of_none hnone]
  cases hpace : input.setsPace with
  | true =>
      rw [List.filter_cons_of_pos hpace, List.filter_nil]
      constructor
      · simp only [Session.rate_iterate, h.rate_eq, List.foldl_append, List.foldl_cons,
          List.foldl_nil]
      · rw [Array.toList_appendList, List.filter_append, h.effects_eq,
          Session.filter_setsRate_iterate, if_pos hpace, h.rate_eq, List.scanl_append,
          List.flatMap_append]
        simp
  | false =>
      rw [List.filter_cons_of_neg (by simp [hpace]), List.filter_nil, List.append_nil]
      constructor
      · simp only [Session.rate_iterate, h.rate_eq, Input.pace_of_not_setsPace hpace]
      · rw [Array.toList_appendList, List.filter_append, h.effects_eq,
          Session.filter_setsRate_iterate, hpace]
        simp

theorem exists_paced (m : Machine) (settings : Settings) (inputs : List Input) :
    ∃ handled, inputs = handled ++ (ofInputs m settings inputs).unread.toList ∧
      ((ofInputs m settings inputs).ending = none → handled = inputs) ∧
      (ofInputs m settings inputs).Paced settings (handled.filter Input.setsPace) := by
  induction inputs using List.reverseRecOn with
  | nil => exact ⟨[], rfl, fun _ ↦ rfl, paced_start m settings⟩
  | append_singleton inputs input ih =>
      obtain ⟨handled, hsplit, hall, hpaced⟩ := ih
      rw [ofInputs_append_singleton]
      cases hending : (ofInputs m settings inputs).ending with
      | none =>
          refine ⟨inputs ++ [input], ?_, fun _ ↦ rfl, ?_⟩
          · have hunread : (ofInputs m settings inputs).unread.toList = [] := by
              rw [hall hending] at hsplit
              exact List.self_eq_append_right.mp hsplit
            rw [feed_of_none hending, hunread, List.append_nil]
          · rw [hall hending] at hpaced
            rw [List.filter_append]
            exact hpaced.feed hending input
      | some ending =>
          rw [feed_of_some hending]
          refine ⟨handled, ?_, ?_, ⟨hpaced.rate_eq, hpaced.effects_eq⟩⟩
          · simp only [Array.toList_push, ← List.append_assoc, ← hsplit]
          · intro hnone
            rw [hending] at hnone
            cases hnone

theorem Paced.periods_eq (h : run.Paced settings steps) :
    run.periods =
      (steps.scanl (Input.pace settings) (Rate.clamp settings.rate)).map Rate.period := by
  have hread (effect : Effect) (hnot : effect.setsRate = false) : effect.period? = none :=
    (Effect.setsRate_eq_false_iff.mp hnot).1
  rw [periods, ← Effect.filterMap_filter_setsRate hread, h.effects_eq,
    Effect.filterMap_rateEffects (fun _ ↦ rfl)]

theorem Paced.rateLines_eq (h : run.Paced settings steps) :
    run.rateLines = steps.scanl (Input.pace settings) (Rate.clamp settings.rate) := by
  have hread (effect : Effect) (hnot : effect.setsRate = false) : effect.rate? = none :=
    (Effect.setsRate_eq_false_iff.mp hnot).2
  have hvalue (rate : UInt32) : (Session.rateEffects rate).filterMap Effect.rate? = [id rate] := rfl
  rw [Run.rateLines_eq, ← Effect.filterMap_filter_setsRate hread, h.effects_eq,
    Effect.filterMap_rateEffects hvalue, List.map_id]

/-- The rate is the exact sum of all steps, clamped after each of them.  It stays within the
limits, and so do the periods of the cycle clock. -/
theorem rate_is_clamped_sum (m : Machine) (settings : Settings) (inputs : List Input) :
    let run := ofInputs m settings inputs
    let first : Int := min 10000 (max 10 settings.rate.toNat)
    ∃ handled, inputs = handled ++ run.unread.toList ∧ (run.ending = none → handled = inputs) ∧
      let steps := handled.filter Input.setsPace
      let rates := steps.scanl (Input.exactPace settings.step) first
      run.session.rate.toNat = steps.foldl (Input.exactPace settings.step) first ∧
        (∀ rate ∈ rates, 10 ≤ rate ∧ rate ≤ 10000) ∧
        run.periods.map Int.ofNat = rates.map (fun rate ↦ 1000000000 / rate) ∧
        (∀ period ∈ run.periods, 100000 ≤ period ∧ period ≤ 100000000) ∧
        run.rateLines.map (fun rate ↦ (rate.toNat : Int)) = rates ∧
        run.rateLines.length = 1 + steps.length := by
  intro run first
  obtain ⟨handled, hsplit, hall, hpaced⟩ := exists_paced m settings inputs
  refine ⟨handled, hsplit, hall, ?_⟩
  intro steps rates
  have hfirst : ((Rate.clamp settings.rate).toNat : Int) = first := by
    rw [Rate.toNat_clamp]
    omega
  have hrates : (steps.scanl (Input.pace settings) (Rate.clamp settings.rate)).map
      (fun rate ↦ (rate.toNat : Int)) = rates := by
    rw [Input.map_toNat_scanl_pace, hfirst]
  have hallowed : ∀ rate ∈ steps.scanl (Input.pace settings) (Rate.clamp settings.rate),
      Rate.Allowed rate :=
    fun rate ↦ Input.allowed_of_mem_scanl (Rate.allowed_clamp settings.rate)
  refine ⟨?_, ?_, ?_, ?_, ?_, ?_⟩
  · rw [hpaced.rate_eq, Input.toNat_foldl_pace, hfirst]
  · intro rate hmem
    rw [← hrates] at hmem
    obtain ⟨word, hword, rfl⟩ := List.mem_map.mp hmem
    obtain ⟨hleast, hgreatest⟩ := hallowed word hword
    omega
  · rw [hpaced.periods_eq, ← hrates, List.map_map, List.map_map]
    apply List.map_congr_left
    intro rate hmem
    exact (Rate.period_of_allowed (hallowed rate hmem)).1
  · intro period hmem
    rw [hpaced.periods_eq] at hmem
    obtain ⟨rate, hrate, rfl⟩ := List.mem_map.mp hmem
    exact (Rate.period_of_allowed (hallowed rate hrate)).2
  · rw [hpaced.rateLines_eq, hrates]
  · rw [hpaced.rateLines_eq, List.length_scanl, Nat.add_comm]

/-- The greatest step takes the rate from one limit to the other, and a step that changes nothing
is told as well. -/
theorem rate_is_clamped_sum_greatest_step :
    let before : List Input :=
      [.event .speedUp, .cycle, .event .slowDown, .event .slowDown, .event .quit]
    let run := ofInputs (Machine.ofSeed 0) { rate := 0xFFFFFFFF, step := 0xFFFFFFFF }
      (before ++ [.event .speedUp])
    run.unread.toList = [.event .speedUp] ∧ run.session.rate.toNat = 10 ∧
      run.periods.map Int.ofNat = [100000, 100000, 100000000, 100000000] ∧
      run.rateLines.length = 4 := by
  intro before run
  have hunread : run.unread.toList = [.event .speedUp] := by decide +kernel
  obtain ⟨handled, hsplit, -, hrate, -, hperiods, -, -, hlines⟩ :=
    rate_is_clamped_sum (Machine.ofSeed 0) { rate := 0xFFFFFFFF, step := 0xFFFFFFFF }
      (before ++ [.event .speedUp])
  dsimp only [run] at hunread ⊢
  have hlast : before ++ [.event .speedUp] = handled ++ [.event .speedUp] := by
    rw [hsplit, hunread]
  obtain rfl : before = handled := List.append_cancel_right hlast
  refine ⟨hunread, Int.ofNat.inj (hrate.trans ?_), hperiods.trans ?_, hlines⟩
  · decide +kernel
  · decide +kernel

end Run
end Chip8
