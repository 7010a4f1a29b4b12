import Chip8.Proofs.Sessions

/-!
# Shown pictures

Whoever shows the pictures of a session keeps the one that was presented last.  After every
iteration it is the picture of the machine, and it stays so when the session ends, because
an input that ends the session never changes the picture.
-/

namespace Chip8

namespace Effect

/-- The outputs among the effects. -/
def outputs (effects : List Effect) : List Output :=
  effects.filterMap (fun effect ↦
    match effect with
    | .output handed => some handed
    | _ => none)

theorem outputs_append (first second : List Effect) :
    outputs (first ++ second) = outputs first ++ outputs second :=
  List.filterMap_append ..

theorem outputs_log (log : List LogEntry) : outputs (log.map Effect.log) = [] := by
  induction log with
  | nil => rfl
  | cons entry log ih => exact ih

theorem mem_outputs_iff {effects : List Effect} {handed : Output} :
    handed ∈ outputs effects ↔ Effect.output handed ∈ effects := by
  unfold outputs
  rw [List.mem_filterMap]
  constructor
  · rintro ⟨effect, hmem, heq⟩
    cases effect with
    | output other =>
        cases heq
        exact hmem
    | _ => cases heq
  · intro h
    exact ⟨.output handed, h, rfl⟩

end Effect

/-- The frame that is shown after an output. -/
def Output.shownAfter (frame : Frame) (output : Output) : Frame :=
  match output with
  | .present next => next
  | .sound _ => frame

/-- The frame that is shown after a run, if `first` was shown before it. -/
def Run.shown (first : Frame) (run : Run) : Frame := run.outputs.foldl Output.shownAfter first

/-- An input that finds the machine `m` works on the picture. -/
inductive Input.Redraws (m : Machine) : Input → Prop
  | reset : Redraws m (.event .reset)
  | draw : m.DrawsNext → Redraws m .cycle

namespace Machine

variable {m : Machine} {input : Input} {ending : Ending}

theorem redraw_after (h : input.Redraws m) : (m.after [input]).redraw = true := by
  cases h with
  | reset => rfl
  | draw hdraws => exact m.frame_cycle.1 hdraws

theorem frame_after (h : ¬input.Redraws m) :
    (m.after [input]).frame = m.frame ∧ (m.after [input]).redraw = m.redraw := by
  cases input with
  | event event =>
      cases event with
      | reset => exact absurd .reset h
      | _ => exact ⟨rfl, rfl⟩
  | cycle => exact m.frame_cycle.2 (fun hdraws ↦ h (.draw hdraws))
  | _ => exact ⟨rfl, rfl⟩

theorem not_redraws_of_ends (h : input.Ends m ending) : ¬input.Redraws m := by
  intro hredraws
  cases h with
  | halt hresult hfatal =>
      cases hredraws with
      | draw hdraws => exact not_drawsNext_of_error hresult hdraws
  | _ => cases hredraws

end Machine

namespace Session

variable {s : Session} {settings : Settings} {input : Input} {ending : Ending}

theorem outputs_react (s : Session) (settings : Settings) (input : Input) :
    Effect.outputs (s.react settings input).effects = [] := by
  cases input with
  | event event => cases event <;> rfl
  | closed => rfl
  | cycle =>
      cases hresult : s.machine.cycle.result with
      | ok status =>
          simp only [react, cycle, hresult]
          exact Effect.outputs_log _
      | error fault =>
          simp only [react, cycle, hresult]
          split
          · rw [Effect.outputs_append, Effect.outputs_log]
            rfl
          · exact Effect.outputs_log _
  | timerTick => rfl

theorem outputs_showPicture (s : Session) :
    Effect.outputs s.showPicture.2 =
      if s.machine.redraw then [.present s.machine.frame] else [] := by
  unfold showPicture
  split
  · rfl
  · rfl

/-- What the tone changes to, if it changes at all. -/
def toneChange (before after : Bool) : List Bool := if after = before then [] else [after]

theorem outputs_reportSound (s : Session) :
    Effect.outputs s.reportSound.2 =
      (toneChange s.soundActive s.machine.soundActive).map Output.sound := by
  unfold reportSound toneChange
  split
  · rfl
  · rename_i hne
    rw [Bool.eq_not.mpr hne]
    rfl

/-- An iteration that goes on presents the picture if the flag is raised, and reports a
change of the tone after it. -/
theorem outputs_iterate_of_not_ends (settings : Settings)
    (h : ∀ ending, ¬input.Ends s.machine ending) :
    Effect.outputs (s.iterate settings input).effects =
      (if (s.machine.after [input]).redraw then [.present (s.machine.after [input]).frame]
        else []) ++
        (toneChange s.soundActive (s.machine.after [input]).soundActive).map Output.sound := by
  rw [iterate_of_none (ending_react_of_not_ends h), Effect.outputs_append,
    Effect.outputs_append, outputs_react, outputs_showPicture, outputs_reportSound,
    session_showPicture, session_react]
  rfl

theorem outputs_iterate_of_ends (h : input.Ends s.machine ending) :
    Effect.outputs (s.iterate settings input).effects = [] := by
  rw [iterate_of_ending (ending_react_eq_some_iff.mpr h), outputs_react]

/-- With the flag lowered, an iteration presents a picture exactly when its input works on
the picture. -/
theorem presents_iff (hlowered : s.machine.redraw = false) :
    (∃ frame, Effect.output (.present frame) ∈ (s.iterate settings input).effects) ↔
      input.Redraws s.machine := by
  simp only [← Effect.mem_outputs_iff]
  by_cases hend : ∃ ending, input.Ends s.machine ending
  · obtain ⟨ending, hends⟩ := hend
    have hnot := Machine.not_redraws_of_ends hends
    rw [outputs_iterate_of_ends hends]
    simp [hnot]
  · rw [outputs_iterate_of_not_ends settings (fun ending hends ↦ hend ⟨ending, hends⟩)]
    by_cases hredraws : input.Redraws s.machine
    · simp [Machine.redraw_after hredraws, hredraws]
    · simp [(Machine.frame_after hredraws).2, hlowered, hredraws]

end Session

namespace Run

variable {m : Machine} {settings : Settings} {inputs before later : List Input} {input : Input}
  {ending : Ending} {run : Run} {first : Frame}

theorem outputs_eq (run : Run) : run.outputs = Effect.outputs run.effects.toList := rfl

theorem shown_feed_of_some (h : run.ending = some ending) (input : Input) :
    (feed settings run input).shown first = run.shown first := by
  rw [feed_of_some h]
  rfl

theorem outputs_feed_of_none (h : run.ending = none) (input : Input) :
    (feed settings run input).outputs =
      run.outputs ++ Effect.outputs (run.session.iterate settings input).effects := by
  rw [feed_of_none h, outputs_eq, outputs_eq, Array.toList_appendList, Effect.outputs_append]

theorem shown_feed_of_none (h : run.ending = none) (input : Input) :
    (feed settings run input).shown first =
      (Effect.outputs (run.session.iterate settings input).effects).foldl Output.shownAfter
        (run.shown first) := by
  rw [shown, shown, outputs_feed_of_none h, List.foldl_append]

theorem foldl_shownAfter_sound (frame : Frame) (tones : List Bool) :
    (tones.map Output.sound).foldl Output.shownAfter frame = frame := by
  induction tones with
  | nil => rfl
  | cons tone tones ih => exact ih

/-- One more iteration that goes on leaves the flag lowered and the machine's picture
shown. -/
theorem shown_feed_of_not_ends (hnone : run.ending = none)
    (hgoes : ∀ ending, ¬input.Ends run.session.machine ending)
    (hshown : run.session.machine.redraw = true ∨
      run.shown first = run.session.machine.frame) :
    (feed settings run input).session.machine.redraw = false ∧
      (feed settings run input).shown first =
        (feed settings run input).session.machine.frame := by
  rw [shown_feed_of_none hnone, Session.outputs_iterate_of_not_ends settings hgoes,
    List.foldl_append, foldl_shownAfter_sound, feed_of_none hnone]
  simp only [Session.machine_iterate_of_not_ends hgoes]
  refine ⟨rfl, ?_⟩
  change _ = (run.session.machine.after [input]).frame
  by_cases hredraw : (run.session.machine.after [input]).redraw = true
  · rw [if_pos hredraw]
    rfl
  · -- The flag was not raised, so neither the picture nor what is shown has changed.
    have hnot : ¬input.Redraws run.session.machine :=
      fun hredraws ↦ hredraw (Machine.redraw_after hredraws)
    obtain ⟨hframe, hflag⟩ := Machine.frame_after hnot
    rw [if_neg hredraw, hframe]
    rcases hshown with hraised | hshown
    · exact absurd (hflag.trans hraised) hredraw
    · exact hshown

theorem shown_feed_of_ends (hnone : run.ending = none)
    (hends : input.Ends run.session.machine ending) :
    (feed settings run input).shown first = run.shown first ∧
      (feed settings run input).session.machine.frame = run.session.machine.frame := by
  rw [shown_feed_of_none hnone, Session.outputs_iterate_of_ends hends, feed_of_none hnone]
  refine ⟨rfl, ?_⟩
  simp only [Session.machine_iterate_of_ends hends]
  exact (Machine.frame_after (Machine.not_redraws_of_ends hends)).1

theorem shown_of_endless (settings : Settings) (hfirst : m.redraw = true ∨ first = m.frame)
    (h : m.Endless inputs) (hinputs : inputs ≠ []) :
    (ofInputs m settings inputs).session.machine.redraw = false ∧
      (ofInputs m settings inputs).shown first =
        (ofInputs m settings inputs).session.machine.frame := by
  induction inputs using List.reverseRecOn with
  | nil => exact absurd rfl hinputs
  | append_singleton inputs input ih =>
      obtain ⟨hbefore, hlast⟩ := Machine.endless_append_singleton.mp h
      obtain ⟨hnone, -, halike⟩ := ofInputs_of_endless settings hbefore
      rw [ofInputs_append_singleton]
      apply shown_feed_of_not_ends hnone
      · intro ending hends
        exact hlast ending (hends.of_alike halike.symm)
      · by_cases hempty : inputs = []
        · subst hempty
          exact hfirst
        · exact Or.inr (ih hbefore hempty).2

theorem shown_of_ends (settings : Settings) (first : Frame) (hbefore : m.Endless before)
    (hends : input.Ends (m.after before) ending) (later : List Input) :
    (ofInputs m settings (before ++ input :: later)).shown first =
        (ofInputs m settings before).shown first ∧
      (ofInputs m settings (before ++ input :: later)).session.machine.frame =
        (ofInputs m settings before).session.machine.frame := by
  induction later using List.reverseRecOn with
  | nil =>
      obtain ⟨hnone, -, halike⟩ := ofInputs_of_endless settings hbefore
      rw [ofInputs_append_singleton]
      exact shown_feed_of_ends hnone (hends.of_alike halike)
  | append_singleton later next ih =>
      obtain ⟨hshown, hframe⟩ := ih
      obtain ⟨hending, -⟩ := ofInputs_of_ends settings hbefore hends later
      have hlist : before ++ input :: (later ++ [next]) = before ++ input :: later ++ [next] := by
        simp
      rw [hlist, ofInputs_append_singleton, shown_feed_of_some hending, feed_of_some hending]
      exact ⟨hshown, hframe⟩

/-- What is shown is the picture of the machine once an iteration is complete, and from then
on a picture is presented exactly when the machine works on it. -/
theorem picture_never_stale (m : Machine) (settings : Settings) (first : Frame)
    (hfirst : m.redraw = true ∨ first = m.frame) (inputs : List Input) :
    let run := ofInputs m settings inputs
    ((∃ input ∈ inputs.head?, (ofInputs m settings [input]).ending = none) ∨ first = m.frame →
        run.shown first = run.session.machine.frame) ∧
      (inputs ≠ [] → run.ending = none → ∀ input,
        (∃ frame, Effect.output (.present frame) ∈
            (run.session.iterate settings input).effects) ↔
          input.Redraws run.session.machine) := by
  intro run
  rcases m.endless_or_ends inputs with h | ⟨before, input, later, ending, rfl, hbefore, hends⟩
  · by_cases hempty : inputs = []
    · subst hempty
      refine ⟨?_, fun hne ↦ absurd rfl hne⟩
      rintro (⟨input, hmem, -⟩ | hshown)
      · cases hmem
      · exact hshown
    · obtain ⟨hlowered, hshown⟩ := shown_of_endless settings hfirst h hempty
      exact ⟨fun _ ↦ hshown, fun _ _ input ↦ Session.presents_iff hlowered⟩
  · obtain ⟨hending, -⟩ := ofInputs_of_ends settings hbefore hends later
    obtain ⟨hshown, hframe⟩ :=
      shown_of_ends settings first hbefore hends later
    constructor
    · intro hstarted
      change (ofInputs m settings (before ++ input :: later)).shown first = _
      rw [hshown, hframe]
      by_cases hempty : before = []
      · subst hempty
        rcases hstarted with ⟨only, hmem, hgoes⟩ | hstart
        · -- The first input ends the session, so no iteration was complete.
          obtain rfl : input = only := by simpa using hmem
          obtain ⟨hstop, -⟩ := ofInputs_of_ends settings hbefore hends []
          rw [List.nil_append, hgoes] at hstop
          cases hstop
        · exact hstart
      · exact (shown_of_endless settings hfirst hbefore hempty).2
    · intro _ hnone
      rw [hending] at hnone
      cases hnone

/-- A full frame gives way to the picture of a loaded machine, which is shown again when it
is cleared. -/
theorem picture_never_stale_clear :
    let run := ofInputs ((Machine.ofSeed 0).load { bytes := [0x00, 0xE0] }) {} [.timerTick]
    run.shown ⟨Vector.replicate 2048 true⟩ = run.session.machine.frame ∧
      ∃ frame, Effect.output (.present frame) ∈ (run.session.iterate {} .cycle).effects := by
  intro run
  obtain ⟨hshown, hpresents⟩ := picture_never_stale
    ((Machine.ofSeed 0).load { bytes := [0x00, 0xE0] }) {} ⟨Vector.replicate 2048 true⟩
    (Or.inl rfl) [.timerTick]
  have hfetch : run.session.machine.fetch = .ok 0x00E0 := by decide +kernel
  have hresult : run.session.machine.cycle.result = .ok .executed := by decide +kernel
  have hdraws : run.session.machine.DrawsNext :=
    ⟨0x00E0, ⟨rfl, hfetch⟩, Or.inl rfl, hresult⟩
  exact ⟨hshown (Or.inl ⟨.timerTick, rfl, rfl⟩),
    (hpresents (by simp) rfl .cycle).mpr (.draw hdraws)⟩

end Run
end Chip8
