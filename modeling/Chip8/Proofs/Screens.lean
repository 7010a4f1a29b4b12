import Chip8.Emulation
import Chip8.Proofs.Tones

/-!
# What the interface shows

A feed turns each output of a session into a display of the last picture and the last tone,
and each display takes the place of the one before.  So the interface shows what was handed
over last, which is the picture and the tone of the machine, however the session came to its
end.  The dialog of a fault comes on top of the last display, and the end of the emulation is
told after everything else.
-/

namespace Chip8

namespace Output

def frame? : Output → Option Frame
  | .present frame => some frame
  | .sound _ => none

theorem foldl_shownAfter (first : Frame) (outputs : List Output) :
    outputs.foldl shownAfter first = (outputs.filterMap frame?).getLastD first := by
  induction outputs using List.reverseRecOn with
  | nil => rfl
  | append_singleton outputs output ih =>
      rw [List.foldl_append, ih, List.filterMap_append]
      cases output with
      | present frame => exact List.getLastD_concat.symm
      | sound active =>
          change _ = (outputs.filterMap frame? ++ []).getLastD first
          rw [List.append_nil]
          rfl

end Output

namespace Display

/-- The display of the last picture and the last tone among some outputs. -/
def latest (outputs : List Output) : Display where
  frame := (outputs.filterMap Output.frame?).getLastD Frame.blank
  sound := (outputs.filterMap Output.tone?).getLastD false

/-- The displays of the first output, of the first two outputs, and so on. -/
def successive (outputs : List Output) : List Display :=
  (List.range outputs.length).map (fun k ↦ latest (outputs.take (k + 1)))

theorem latest_append_present (outputs : List Output) (frame : Frame) :
    latest (outputs ++ [.present frame]) = { latest outputs with frame } := by
  simp [latest, Output.frame?, Output.tone?]

theorem latest_append_sound (outputs : List Output) (active : Bool) :
    latest (outputs ++ [.sound active]) = { latest outputs with sound := active } := by
  simp [latest, Output.frame?, Output.tone?]

theorem successive_append_singleton (outputs : List Output) (output : Output) :
    successive (outputs ++ [output]) = successive outputs ++ [latest (outputs ++ [output])] := by
  rw [successive, List.length_append, List.length_singleton, List.range_succ, List.map_append,
    List.map_singleton, List.take_of_length_le (by simp)]
  congr 1
  apply List.map_congr_left
  intro k hk
  rw [List.take_append_of_le_length (List.mem_range.mp hk)]

theorem length_successive (outputs : List Output) :
    (successive outputs).length = outputs.length := by
  rw [successive, List.length_map, List.length_range]

theorem take_successive (outputs : List Output) (k : Nat) :
    (successive outputs).take k = successive (outputs.take k) := by
  rw [successive, successive, ← List.map_take, List.take_range, List.length_take]
  apply List.map_congr_left
  intro j hj
  have hle : j + 1 ≤ k := by
    have hlt := List.mem_range.mp hj
    omega
  rw [List.take_take, Nat.min_eq_left hle]

end Display

namespace Update

theorem applyAll_append (first second : List Update) (layers : List Layer) :
    applyAll (first ++ second) layers = applyAll second (applyAll first layers) :=
  List.foldl_append

/-- Each display takes the place of the one before. -/
theorem applyAll_successive (outputs : List Output) :
    applyAll ((Display.successive outputs).map .replaceDisplay) [.display {}] =
      [.display (Display.latest outputs)] := by
  induction outputs using List.reverseRecOn with
  | nil => rfl
  | append_singleton outputs output ih =>
      rw [Display.successive_append_singleton, List.map_append, applyAll_append, ih]
      rfl

end Update

def Message.update? : Message → Option Update
  | .update sent => some sent
  | .shutdown => none

namespace Action

/-- The updates among the messages of some actions. -/
def updates (actions : List Action) : List Update :=
  (messages actions).filterMap Message.update?

theorem messages_append (first second : List Action) :
    messages (first ++ second) = messages first ++ messages second :=
  List.filterMap_append

theorem mem_messages_iff {actions : List Action} {message : Message} :
    message ∈ messages actions ↔ Action.send message ∈ actions := by
  unfold messages
  rw [List.mem_filterMap]
  constructor
  · rintro ⟨action, hmem, heq⟩
    cases action with
    | log entry => cases heq
    | send other =>
        cases heq
        exact hmem
  · intro h
    exact ⟨.send message, h, rfl⟩

end Action

namespace Interface

/-- An interface that is there keeps the updates in the order in which they were sent. -/
theorem foldl_observe (layers : List Layer) (waiting : Array Update) (actions : List Action) :
    actions.foldl observe { layers, waiting := some waiting } =
      { layers, waiting := some (waiting ++ (Action.updates actions).toArray) } := by
  induction actions generalizing waiting with
  | nil => simp [Action.updates, Action.messages]
  | cons action actions ih =>
      rw [List.foldl_cons]
      cases action with
      | log entry => exact ih waiting
      | send message =>
          cases message with
          | shutdown => exact ih waiting
          | update update =>
              refine (ih (waiting.push update)).trans ?_
              rw [Array.push_eq_append, Array.append_assoc, ← List.toArray_cons]
              rfl

theorem layers_refresh_foldl_observe (layers : List Layer) (actions : List Action) :
    (actions.foldl observe { layers }).refresh.layers =
      Update.applyAll (Action.updates actions) layers := by
  rw [foldl_observe, refresh, Array.empty_append]

end Interface

namespace Feed

variable {feed : Feed} {outputs : List Output}

/-- A feed whose interface is there has sent the display of each output so far. -/
structure Follows (feed : Feed) (outputs : List Output) : Prop where
  display_eq : feed.display = Display.latest outputs
  messages_eq : Action.messages feed.actions.toList =
    (Display.successive outputs).map (fun display ↦ .update (.replaceDisplay display))

theorem follows_start : Feed.Follows {} [] where
  display_eq := rfl
  messages_eq := rfl

theorem Follows.log (h : feed.Follows outputs) (entry : LogEntry) :
    (feed.act (.log entry)).Follows outputs where
  display_eq := h.display_eq
  messages_eq := by
    rw [act, Array.toList_push, Action.messages_append, h.messages_eq]
    exact List.append_nil _

theorem Follows.receive (h : feed.Follows outputs) (output : Output) :
    (feed.receive true output).Follows (outputs ++ [output]) := by
  have hdisplay : (feed.receive true output).display = Display.latest (outputs ++ [output]) := by
    cases output with
    | present frame =>
        rw [Display.latest_append_present, ← h.display_eq]
        rfl
    | sound active =>
        rw [Display.latest_append_sound, ← h.display_eq]
        rfl
  refine ⟨hdisplay, ?_⟩
  have hactions : (feed.receive true output).actions = feed.actions.push
      (.send (.update (.replaceDisplay (feed.receive true output).display))) := by
    cases output <;> rfl
  rw [hactions, Array.toList_push, Action.messages_append, h.messages_eq, hdisplay,
    Display.successive_append_singleton, List.map_append]
  rfl

theorem Follows.follow (h : feed.Follows outputs) (effect : Effect) :
    (feed.follow true effect).Follows (outputs ++ Effect.outputs [effect]) := by
  cases effect with
  | log entry =>
      change (feed.act (.log entry)).Follows (outputs ++ [])
      rw [List.append_nil]
      exact h.log entry
  | setPeriod nanoseconds =>
      change feed.Follows (outputs ++ [])
      rw [List.append_nil]
      exact h
  | output output => exact h.receive output

theorem Follows.foldl_follow (h : feed.Follows outputs) (effects : List Effect) :
    (effects.foldl (Feed.follow true) feed).Follows (outputs ++ Effect.outputs effects) := by
  induction effects generalizing feed outputs with
  | nil =>
      change feed.Follows (outputs ++ [])
      rw [List.append_nil]
      exact h
  | cons effect effects ih =>
      have hrest := ih (h.follow effect)
      rw [List.append_assoc, ← Effect.outputs_append] at hrest
      exact hrest

end Feed

namespace Run

variable {m : Machine} {first : Frame}

theorem shown_eq_frame (settings : Settings) (hfirst : first = m.frame) (inputs : List Input) :
    (ofInputs m settings inputs).shown first =
      (ofInputs m settings inputs).session.machine.frame := by
  have hendless : ∀ before, m.Endless before →
      (ofInputs m settings before).shown first =
        (ofInputs m settings before).session.machine.frame := by
    intro before hbefore
    by_cases hempty : before = []
    · subst hempty
      exact hfirst
    · exact (shown_of_endless settings (Or.inr hfirst) hbefore hempty).2
  rcases m.endless_or_ends inputs with h | ⟨before, input, later, ending, rfl, hbefore, hends⟩
  · exact hendless inputs h
  · obtain ⟨hshown, hframe⟩ := shown_of_ends settings first hbefore hends later
    rw [hshown, hframe]
    exact hendless before hbefore

/-- What was handed over last is the picture and the tone of the machine. -/
theorem latest_outputs (settings : Settings) (hframe : m.frame = Frame.blank)
    (hsound : m.soundActive = false) (inputs : List Input) :
    Display.latest (ofInputs m settings inputs).outputs =
      { frame := (ofInputs m settings inputs).session.machine.frame
        sound := (ofInputs m settings inputs).session.machine.soundActive } := by
  have hshown := shown_eq_frame settings hframe.symm inputs
  have hlast := (audible_ofInputs m settings inputs).last_eq
  rw [shown, Output.foldl_shownAfter] at hshown
  rw [hsound] at hlast
  rw [Display.latest, hshown]
  exact congrArg _ hlast

/-- The fault that a session halted with, if it did. -/
def fault? (run : Run) : Option Fault :=
  match run.ending with
  | some (.halted fault) => some fault
  | _ => none

end Run

namespace Emulation

variable {run : Run} {ending : Ending}

def openDialog? (run : Run) : Option Update :=
  run.fault?.map (fun fault ↦ .openDialog dialogTitle (dialogText fault))

/-- The updates that an emulation sends, in order. -/
def updates (run : Run) : List Update :=
  (Display.successive run.outputs).map .replaceDisplay ++ (openDialog? run).toList

theorem follows_actions (run : Run) :
    (run.effects.foldl (Feed.follow true) {}).Follows run.outputs := by
  have hfollows := Feed.follows_start.foldl_follow run.effects.toList
  rw [List.nil_append, Array.foldl_toList] at hfollows
  exact hfollows

theorem messages_actions (run : Run) :
    Action.messages (actions true run) =
      (updates run).map .update ++ if run.ending.isSome then [.shutdown] else [] := by
  have hmessages := (follows_actions run).messages_eq
  rw [actions, updates, openDialog?, Run.fault?, List.map_append, List.map_map]
  cases run.ending with
  | none =>
      dsimp only
      rw [hmessages]
      simp [Function.comp_def]
  | some ending =>
      dsimp only
      rw [Action.messages_append, hmessages, List.append_assoc]
      cases ending <;> rfl

theorem updates_actions (run : Run) : Action.updates (actions true run) = updates run := by
  rw [Action.updates, messages_actions, List.filterMap_append, List.filterMap_map]
  have hshutdown : (if run.ending.isSome then [Message.shutdown] else []).filterMap
      Message.update? = [] := by
    cases run.ending <;> rfl
  rw [hshutdown, List.append_nil]
  exact List.filterMap_some

theorem layers_interfaceAfter (run : Run) :
    (interfaceAfter { layers := [.display {}] } run).layers =
      (run.fault?.map (fun fault ↦ .dialog dialogTitle (dialogText fault))).toList ++
        [.display (Display.latest run.outputs)] := by
  rw [interfaceAfter, Interface.layers_refresh_foldl_observe]
  change Update.applyAll (Action.updates (actions true run)) _ = _
  rw [updates_actions, updates, Update.applyAll_append, Update.applyAll_successive, openDialog?]
  cases run.fault? <;> rfl

theorem layers_take_updates (run : Run) {k : Nat} (hk : k ≤ run.outputs.length) :
    Update.applyAll ((updates run).take k) [.display {}] =
      [.display (Display.latest (run.outputs.take k))] := by
  have hlength : k ≤ ((Display.successive run.outputs).map Update.replaceDisplay).length := by
    rwa [List.length_map, Display.length_successive]
  rw [updates, List.take_append_of_le_length hlength, ← List.map_take, Display.take_successive,
    Update.applyAll_successive]

theorem shutdown_not_mem_feed (run : Run) :
    Action.send .shutdown ∉ (run.effects.foldl (Feed.follow true) {}).actions.toList := by
  rw [← Action.mem_messages_iff, (follows_actions run).messages_eq]
  intro hmem
  obtain ⟨display, -, heq⟩ := List.mem_map.mp hmem
  cases heq

/-- An ending is concluded by the one message that tells it. -/
theorem conclude_eq (ending : Ending) :
    ∃ lead, conclude true ending = lead ++ [.send .shutdown] ∧ Action.send .shutdown ∉ lead := by
  cases ending with
  | stopped => exact ⟨[.log .emulationStopped], rfl, by simp⟩
  | halted fault =>
      exact ⟨.log (.emulationHalted fault) :: openDialog true fault, rfl, by simp [openDialog]⟩

theorem actions_of_ending (h : run.ending = some ending) :
    ∃ earlier, actions true run = earlier ++ [.send .shutdown] ∧
      Action.send .shutdown ∉ earlier := by
  obtain ⟨lead, hlead, hnot⟩ := conclude_eq ending
  refine ⟨(run.effects.foldl (Feed.follow true) {}).actions.toList ++ lead, ?_, ?_⟩
  · rw [actions, h, List.append_assoc, ← hlead]
  · rw [List.mem_append]
    rintro (hfeed | hmem)
    · exact shutdown_not_mem_feed run hfeed
    · exact hnot hmem

/-- An interface that showed the first display ends up with the one display of the machine,
below a dialog exactly if the session halted with a fault.  Until then it showed the last
picture and the last tone of each output.  An emulation that came to its end tells so once,
after everything else. -/
theorem interface_shows_machine (m : Machine) (program : Program) (settings : Settings)
    (inputs : List Input) :
    let run := Run.ofInputs (m.load program) settings inputs
    (interfaceAfter { layers := [.display {}] } run).layers =
        (run.fault?.map (fun fault ↦ .dialog dialogTitle (dialogText fault))).toList ++
          [.display { frame := run.session.machine.frame
                      sound := run.session.machine.soundActive }] ∧
      (∀ fault, ∃ before after, dialogText fault = before ++ fault.message ++ after) ∧
      Action.messages (actions true run) =
        (updates run).map .update ++ (if run.ending.isSome then [.shutdown] else []) ∧
      (∀ k ≤ run.outputs.length, Update.applyAll ((updates run).take k) [.display {}] =
        [.display (Display.latest (run.outputs.take k))]) ∧
      (run.ending ≠ none → ∃ earlier, actions true run = earlier ++ [.send .shutdown] ∧
        Action.send .shutdown ∉ earlier) := by
  intro run
  have hlatest : Display.latest run.outputs =
      { frame := run.session.machine.frame, sound := run.session.machine.soundActive } :=
    Run.latest_outputs settings rfl rfl inputs
  refine ⟨?_, ?_, messages_actions run, fun k hk ↦ layers_take_updates run hk, ?_⟩
  · rw [layers_interfaceAfter, hlatest]
  · intro fault
    exact ⟨"The machine halted:\n", "\n\nPress Esc to quit.", rfl⟩
  · intro hended
    obtain ⟨ending, hending⟩ := Option.ne_none_iff_exists'.mp hended
    exact actions_of_ending hending

/-- A return without a call halts the machine while its tone sounds. -/
theorem interface_shows_machine_halted :
    let program : Program := { bytes := [0x60, 0x02, 0xF0, 0x18, 0x00, 0xEE] }
    let run := Run.ofInputs ((Machine.ofSeed 0).load program) {} [.cycle, .cycle, .cycle]
    (interfaceAfter { layers := [.display {}] } run).layers =
        [.dialog "CHIP-8" ("The machine halted:\nstack underflow: return at 0x204 with an " ++
          "empty call stack\n\nPress Esc to quit."),
          .display { frame := run.session.machine.frame, sound := true }] ∧
      (∃ frame, Update.applyAll ((updates run).take 1) [.display {}] =
        [.display { frame, sound := false }]) ∧
      ∃ earlier, actions true run = earlier ++ [.send .shutdown] ∧
        Action.send .shutdown ∉ earlier := by
  intro program run
  obtain ⟨hlayers, -, -, htaken, hshutdown⟩ := interface_shows_machine (Machine.ofSeed 0) program
    {} [.cycle, .cycle, .cycle]
  obtain ⟨hfault, hsound, hquiet, hone⟩ : run.fault? = some (.stackUnderflow 0x204) ∧
      run.session.machine.soundActive = true ∧
      (Display.latest (run.outputs.take 1)).sound = false ∧ 1 ≤ run.outputs.length := by
    decide +kernel
  have hended : run.ending ≠ none := by
    intro hnone
    rw [Run.fault?, hnone] at hfault
    cases hfault
  have htext : dialogText (.stackUnderflow 0x204) =
      "The machine halted:\nstack underflow: return at 0x204 with an " ++
        "empty call stack\n\nPress Esc to quit." := by
    decide +kernel
  have hfirst : Display.latest (run.outputs.take 1) =
      { frame := (Display.latest (run.outputs.take 1)).frame, sound := false } := by
    rw [← hquiet]
  refine ⟨?_, ⟨_, (htaken 1 hone).trans (congrArg (fun display ↦ [Layer.display display]) hfirst)⟩,
    hshutdown hended⟩
  rw [hlayers, hfault, hsound, ← htext]
  rfl

end Emulation
end Chip8
