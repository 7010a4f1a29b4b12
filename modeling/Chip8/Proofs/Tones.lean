import Chip8.Proofs.Pictures
import Mathlib.Data.List.Chain

/-!
# Reported tones

A session remembers the tone that it reported last and reports one that differs.  What it
remembers is the tone of the machine after every iteration, although a timer, an instruction
or a reset may have changed that one.  An input that ends the session changes no tone, so the
last report stays right when the session is over.
-/

namespace Chip8

namespace Output

def tone? : Output → Option Bool
  | .present _ => none
  | .sound active => some active

theorem filterMap_tone?_sound (tones : List Bool) :
    (tones.map Output.sound).filterMap tone? = tones := by
  induction tones with
  | nil => rfl
  | cons tone tones ih => exact congrArg (tone :: ·) ih

end Output

/-- The tones that a run reported, in order. -/
def Run.tones (run : Run) : List Bool := run.outputs.filterMap Output.tone?

/-- An input that ends a session leaves the tone of the machine alone. -/
theorem Machine.soundActive_after_of_ends {m : Machine} {input : Input} {ending : Ending}
    (h : input.Ends m ending) : (m.after [input]).soundActive = m.soundActive := by
  cases h with
  | quit => rfl
  | closed => rfl
  | halt hresult hfatal =>
      have hmachine : m.cycle.machine = m := by
        rw [machine_cycle_of_error hresult, if_pos hfatal]
      exact congrArg Machine.soundActive hmachine

namespace Session

variable {s : Session}

theorem toneChange_self (tone : Bool) : toneChange tone tone = [] := if_pos rfl

/-- A list of tones that alternates up to a tone goes on with what that tone changes to. -/
theorem isChain_append_toneChange {first before : Bool} {tones : List Bool} (after : Bool)
    (halternate : (first :: tones).IsChain (· ≠ ·)) (hlast : tones.getLastD first = before) :
    (first :: (tones ++ toneChange before after)).IsChain (· ≠ ·) ∧
      (tones ++ toneChange before after).getLastD first = after := by
  unfold toneChange
  split
  · rename_i heq
    rw [List.append_nil, heq]
    exact ⟨halternate, hlast⟩
  · rename_i hne
    refine ⟨?_, by simp⟩
    rw [← List.cons_append, List.isChain_append]
    refine ⟨halternate, List.isChain_singleton after, ?_⟩
    intro tone htone next hnext
    have htone : before = tone := by
      rw [← hlast, List.getLastD_eq_getLast?]
      simpa [List.getLast?_cons] using htone
    obtain rfl : after = next := by simpa using hnext
    rw [← htone]
    exact fun heq ↦ hne heq.symm

/-- The reports of an iteration, if the session remembers the tone of its machine. -/
theorem tones_iterate (settings : Settings) (input : Input)
    (hknown : s.soundActive = s.machine.soundActive) :
    (Effect.outputs (s.iterate settings input).effects).filterMap Output.tone? =
      toneChange s.machine.soundActive (s.iterate settings input).session.machine.soundActive := by
  by_cases hend : ∃ ending, input.Ends s.machine ending
  · obtain ⟨ending, hends⟩ := hend
    rw [outputs_iterate_of_ends hends, machine_iterate_of_ends hends,
      Machine.soundActive_after_of_ends hends, toneChange_self]
    rfl
  · have hgoes : ∀ ending, ¬input.Ends s.machine ending := fun ending hends ↦ hend ⟨ending, hends⟩
    have hpictures : ∀ (frame : Frame) (raised : Bool),
        (if raised then [Output.present frame] else []).filterMap Output.tone? = [] := by
      intro frame raised
      cases raised <;> rfl
    rw [outputs_iterate_of_not_ends settings hgoes, machine_iterate_of_not_ends hgoes,
      List.filterMap_append, hpictures, Output.filterMap_tone?_sound, hknown]
    rfl

end Session

namespace Run

variable {m : Machine} {settings : Settings} {run : Run} {first : Bool}

/-- The reports of a run alternate from the tone `first` on and end with the tone of the
machine, which a session that goes on remembers. -/
structure Audible (first : Bool) (run : Run) : Prop where
  alternate : (first :: run.tones).IsChain (· ≠ ·)
  last_eq : run.tones.getLastD first = run.session.machine.soundActive
  known : run.ending = none → run.session.soundActive = run.session.machine.soundActive

theorem audible_start (m : Machine) (settings : Settings) :
    (start m settings).Audible m.soundActive where
  alternate := List.isChain_singleton _
  last_eq := rfl
  known _ := rfl

theorem Audible.tones_feed (h : run.Audible first) (settings : Settings) (input : Input) :
    (feed settings run input).tones =
      run.tones ++ Session.toneChange run.session.machine.soundActive
        (feed settings run input).session.machine.soundActive := by
  cases hending : run.ending with
  | some ending =>
      rw [feed_of_some hending, Session.toneChange_self, List.append_nil]
      rfl
  | none =>
      rw [tones, outputs_feed_of_none hending, List.filterMap_append,
        Session.tones_iterate settings input (h.known hending), feed_of_none hending]
      rfl

theorem known_feed (settings : Settings) (input : Input)
    (h : (feed settings run input).ending = none) :
    (feed settings run input).session.soundActive =
      (feed settings run input).session.machine.soundActive := by
  cases hending : run.ending with
  | some ending =>
      rw [feed_of_some hending] at h
      rw [hending] at h
      cases h
  | none =>
      rw [feed_of_none hending] at h ⊢
      have hgoes : ∀ ending, ¬input.Ends run.session.machine ending := by
        intro ending hends
        rw [Session.ending_iterate_eq_some_iff.mpr hends] at h
        cases h
      dsimp only
      rw [Session.session_iterate_of_not_ends hgoes]
      rfl

theorem Audible.feed (h : run.Audible first) (settings : Settings) (input : Input) :
    (feed settings run input).Audible first := by
  obtain ⟨halternate, hlast⟩ := Session.isChain_append_toneChange
    (Run.feed settings run input).session.machine.soundActive h.alternate h.last_eq
  rw [← h.tones_feed settings input] at halternate hlast
  exact ⟨halternate, hlast, known_feed settings input⟩

theorem audible_ofInputs (m : Machine) (settings : Settings) (inputs : List Input) :
    (ofInputs m settings inputs).Audible m.soundActive := by
  induction inputs using List.reverseRecOn with
  | nil => exact audible_start m settings
  | append_singleton inputs input ih =>
      rw [ofInputs_append_singleton]
      exact ih.feed settings input

/-- The reported tones alternate, the last one is the tone of the machine at any time, and
one further input reports a tone exactly if it changes the tone of the machine. -/
theorem tones_follow_machine (m : Machine) (settings : Settings) (inputs : List Input) :
    let run := ofInputs m settings inputs
    (m.soundActive :: run.tones).IsChain (· ≠ ·) ∧
      run.tones.getLastD m.soundActive = run.session.machine.soundActive ∧
      ∀ input,
        let next := ofInputs m settings (inputs ++ [input])
        next.tones = run.tones ++
          if next.session.machine.soundActive = run.session.machine.soundActive then []
          else [next.session.machine.soundActive] := by
  intro run
  have haudible : run.Audible m.soundActive := audible_ofInputs m settings inputs
  refine ⟨haudible.alternate, haudible.last_eq, ?_⟩
  intro input next
  have hnext : next = feed settings run input := ofInputs_append_singleton m settings inputs input
  rw [hnext]
  exact haudible.tones_feed settings input

/-- A tone of two ticks starts once and stops once, and a reset after it is not reported. -/
example :
    (ofInputs ((Machine.ofSeed 0).load { bytes := [0x60, 0x02, 0xF0, 0x18] }) {}
      [.cycle, .cycle, .timerTick, .timerTick, .event .reset, .closed]).tones =
      [true, false] := by
  decide +kernel

end Run
end Chip8
