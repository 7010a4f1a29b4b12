import Chip8.Proofs.Screens

/-!
# Displays among other layers

An update takes away the uppermost layer and puts a new display in its place.  While the display
of the machine is uppermost, any updates leave one display and all other layers as they were.
With another layer on top of it the first update closes that layer instead, and the old display
stays below the new one.
-/

namespace Chip8
namespace Layer

def isDisplay : Layer → Bool
  | .display _ => true
  | _ => false

/-- One of the layers is a display, which is the given one, and the others are in order. -/
structure Shows (layers : List Layer) (display : Display) (others : List Layer) : Prop where
  displays_eq : layers.filter isDisplay = [.display display]
  others_eq : layers.filter (fun layer ↦ !layer.isDisplay) = others

variable {layers others : List Layer} {shown display : Display}

/-- The uppermost of the layers is their display or the first of the others. -/
theorem Shows.cases (h : Shows layers shown others) :
    (∃ below, layers = .display shown :: below ∧ below.filter isDisplay = [] ∧
      below.filter (fun layer ↦ !layer.isDisplay) = others) ∨
        ∃ top rest below, layers = top :: below ∧ top.isDisplay = false ∧ others = top :: rest ∧
          Shows below shown rest := by
  obtain ⟨hdisplays, hothers⟩ := h
  cases layers with
  | nil => cases hdisplays
  | cons top below =>
      cases htop : top.isDisplay with
      | true =>
          rw [List.filter_cons_of_pos htop, List.cons.injEq] at hdisplays
          rw [List.filter_cons_of_neg (by simp [htop])] at hothers
          exact Or.inl ⟨below, by rw [hdisplays.1], hdisplays.2, hothers⟩
      | false =>
          rw [List.filter_cons_of_neg (by simp [htop])] at hdisplays
          rw [List.filter_cons_of_pos (by simp [htop])] at hothers
          exact Or.inr ⟨top, _, below, rfl, htop, hothers.symm, hdisplays, rfl⟩

end Layer

namespace Feed

/-- The feed after some outputs, all of which the interface takes. -/
def receiveAll (feed : Feed) (outputs : List Output) : Feed :=
  outputs.foldl (fun feed output ↦ feed.receive true output) feed

theorem receiveAll_append_singleton (feed : Feed) (outputs : List Output) (output : Output) :
    feed.receiveAll (outputs ++ [output]) = (feed.receiveAll outputs).receive true output :=
  List.foldl_append

/-- What a feed remembers is the picture and the tone that it received last. -/
theorem display_receiveAll (feed : Feed) (outputs : List Output) :
    (feed.receiveAll outputs).display =
      { frame := (outputs.filterMap Output.frame?).getLastD feed.display.frame
        sound := (outputs.filterMap Output.tone?).getLastD feed.display.sound } := by
  induction outputs using List.reverseRecOn with
  | nil => rfl
  | append_singleton outputs output ih =>
      rw [receiveAll_append_singleton, List.filterMap_append, List.filterMap_append]
      cases output with
      | present frame =>
          change { (feed.receiveAll outputs).display with frame } = _
          rw [ih]
          simp [Output.frame?, Output.tone?]
      | sound active =>
          change { (feed.receiveAll outputs).display with sound := active } = _
          rw [ih]
          simp [Output.frame?, Output.tone?]

theorem updates_receive (feed : Feed) (output : Output) :
    Action.updates (feed.receive true output).actions.toList =
      Action.updates feed.actions.toList ++
        [.replaceDisplay (feed.receive true output).display] := by
  have hactions : (feed.receive true output).actions = feed.actions.push
      (.send (.update (.replaceDisplay (feed.receive true output).display))) := by
    cases output <;> rfl
  rw [hactions, Array.toList_push, Action.updates, Action.messages_append, List.filterMap_append]
  rfl

/-- The updates that a feed sends for some outputs, when its display is the given one. -/
def updates (display : Display) (outputs : List Output) : List Update :=
  Action.updates (receiveAll { display } outputs).actions.toList

/-- Of the layers that were there before the updates only the uppermost one is taken away. -/
theorem applyAll_updates (display : Display) (layers : List Layer) {outputs : List Output}
    (h : outputs ≠ []) :
    Update.applyAll (updates display outputs) layers =
      .display (receiveAll { display } outputs).display :: layers.tail := by
  induction outputs using List.reverseRecOn with
  | nil => exact absurd rfl h
  | append_singleton outputs output ih =>
      rw [updates, receiveAll_append_singleton, updates_receive, Update.applyAll_append]
      change _ :: List.tail (Update.applyAll (updates display outputs) layers) = _
      by_cases hempty : outputs = []
      · subst hempty
        rfl
      · rw [ih hempty, List.tail_cons]

end Feed

namespace Layer

variable {layers others : List Layer} {shown : Display}

/-- Updates leave one display and keep the other layers exactly if the display was uppermost.
Otherwise the uppermost layer is lost and the display from before stays below the new one. -/
theorem updates_keep_layers_iff (h : Shows layers shown others) (display : Display)
    {outputs : List Output} (hne : outputs ≠ []) :
    let after := Update.applyAll (Feed.updates display outputs) layers
    let next : Display :=
      { frame := (outputs.filterMap Output.frame?).getLastD display.frame
        sound := (outputs.filterMap Output.tone?).getLastD display.sound }
    (Shows after next others ↔ layers.head? = some (.display shown)) ∧
      (layers.head? ≠ some (.display shown) → ∃ top rest, layers.head? = some top ∧
        others = top :: rest ∧ after.filter isDisplay = [.display next, .display shown] ∧
        after.filter (fun layer ↦ !layer.isDisplay) = rest) := by
  intro after next
  have hnext : (Feed.receiveAll { display } outputs).display = next :=
    Feed.display_receiveAll { display } outputs
  have hafter : after = .display next :: layers.tail := by
    rw [← hnext]
    exact Feed.applyAll_updates display layers hne
  rcases h.cases with ⟨below, rfl, hdisplays, hothers⟩ |
    ⟨top, rest, below, rfl, htop, rfl, hbelow⟩
  · have hshows : Shows after next others := by
      rw [hafter]
      exact ⟨congrArg (Layer.display next :: ·) hdisplays, hothers⟩
    exact ⟨iff_of_true hshows rfl, fun hhead ↦ absurd rfl hhead⟩
  · have hdisplays : after.filter isDisplay = [.display next, .display shown] := by
      rw [hafter]
      exact congrArg (Layer.display next :: ·) hbelow.displays_eq
    have hothers : after.filter (fun layer ↦ !layer.isDisplay) = rest := by
      rw [hafter]
      exact hbelow.others_eq
    have hhead : (top :: below).head? ≠ some (.display shown) := by
      intro heq
      cases heq
      cases htop
    refine ⟨iff_of_false ?_ hhead, fun _ ↦ ⟨top, rest, rfl, rfl, hdisplays, hothers⟩⟩
    intro hshows
    have hone := hshows.displays_eq
    rw [hdisplays] at hone
    cases hone

/-- A tone starts after a picture was shown, first with a menu below the display and then with
a console above it. -/
theorem updates_keep_layers_iff_console :
    let updates := Feed.updates {} [.present Frame.blank, .sound true]
    Shows (Update.applyAll updates [.display {}, .other "menu"]) { sound := true }
        [.other "menu"] ∧
      ¬Shows (Update.applyAll updates [.other "console", .display {}]) { sound := true }
        [.other "console"] ∧
      (Update.applyAll updates [.other "console", .display {}]).filter isDisplay =
        [.display { sound := true }, .display {}] := by
  intro updates
  have hne : [Output.present Frame.blank, .sound true] ≠ [] := List.cons_ne_nil _ _
  have hmenu : Shows [.display {}, .other "menu"] {} [.other "menu"] := ⟨rfl, rfl⟩
  have hconsole : Shows [.other "console", .display {}] {} [.other "console"] := ⟨rfl, rfl⟩
  have hhead : [Layer.other "console", .display {}].head? ≠ some (.display {}) := by
    intro heq
    cases heq
  obtain ⟨hkept, -⟩ := updates_keep_layers_iff hmenu {} hne
  obtain ⟨hlost, hclosed⟩ := updates_keep_layers_iff hconsole {} hne
  obtain ⟨top, rest, -, -, hdisplays, -⟩ := hclosed hhead
  exact ⟨hkept.mpr rfl, fun hshows ↦ hhead (hlost.mp hshows), hdisplays⟩

/-- An update does not keep a console that is above the display. -/
theorem update_closes_console :
    ¬∀ (layers others : List Layer) (shown display : Display) (output : Output),
      Shows layers shown others →
        Shows (Update.applyAll (Feed.updates display [output]) layers)
          (Feed.receive { display } true output).display others := by
  intro hkept
  have hconsole : Shows [.other "console", .display {}] {} [.other "console"] := ⟨rfl, rfl⟩
  have hshows := hkept _ _ _ {} (.sound true) hconsole
  cases hshows.others_eq

end Layer
end Chip8
