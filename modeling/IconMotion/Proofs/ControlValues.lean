import IconMotion.Proofs.IconRun

namespace IconMotion.Icon

open Control Live

/-- The requests that are still in force after an event. -/
def Event.noted (rs : List Request) : Event → List Request
  | .write r => rs ++ [r]
  | .reset => []
  | .move _ | .sample => rs

def sinceReset (events : List Event) : List Request := events.foldl Event.noted []

/-- What a control holds after some requests: each that selects it takes it on from the value it
holds, unless the control refuses. -/
def heldAfter (d : Descriptor) (rs : List Request) : Json :=
  rs.foldl (fun u r => if r.selects d then d.kind.after u r.value else u) d.value

variable {icon icon' : Icon} {d : Descriptor} {e : Event} {u : Json}

section Events

variable {r : Request} {move : Player.Move}

theorem held?_answer (hw : icon.Wired) (hd : d ∈ icon.controls)
    (hu : icon.player.held? d.layer d.field = some u) (r : Request) :
    (icon.answer r).player.held? d.layer d.field =
      some (if r.selects d then d.kind.after u r.value else u) := by
  rw [answer_eq_assign hw]
  by_cases hr : r.selects d = true
  · rw [if_pos hr]
    exact Player.held?_assign_self (hw.nodup_filter r.selects) (List.mem_filter.mpr ⟨hd, hr⟩) hu
  · rw [if_neg hr, Player.held?_assign_of_ne _ fun d' hd' hkey => ?_]
    · exact hu
    · obtain ⟨hmem, hr'⟩ := List.mem_filter.mp hd'
      rw [hw.eq_of_key hmem hd hkey] at hr'
      exact hr hr'

theorem held?_resetControls (hw : icon.Wired) (hd : d ∈ icon.controls) :
    icon.resetControls.1.player.held? d.layer d.field = some d.value := by
  obtain ⟨u, hu⟩ := hw.exists_held hd
  rw [resetControls_eq_assign hw]
  exact Player.held?_assign_self hw.nodup hd hu

theorem held?_move (h : icon.react (.move move) = some icon')
    (hstays : icon.player.samplesOn move = false ∨ icon.player.tree.Unkeyed d.layer d.field 0) :
    icon'.player.held? d.layer d.field = icon.player.held? d.layer d.field := by
  obtain ⟨player, hp, rfl⟩ := react_move_eq_some h
  exact Player.slot?_perform hp hstays

theorem slot?_react {i j k : Nat} (hw : icon.Wired) (h : icon.react e = some icon')
    (hother : ∀ d ∈ icon.controls, (d.layer, d.field, 0) ≠ (i, j, k))
    (hkeyed : icon.player.tree.Unkeyed i j k) :
    icon'.player.tree.slot? i j k = icon.player.tree.slot? i j k := by
  cases e with
  | write r =>
    cases h
    rw [answer_eq_assign hw]
    exact Player.slot?_assign_of_ne _ fun d hd => hother d (List.mem_filter.mp hd).1
  | reset =>
    cases h
    rw [resetControls_eq_assign hw]
    exact Player.slot?_assign_of_ne _ hother
  | move move =>
    obtain ⟨player, hp, rfl⟩ := react_move_eq_some h
    exact Player.slot?_perform hp (.inr hkeyed)
  | sample =>
    cases h
    rfl

end Events

theorem heldAfter_append (d : Descriptor) (rs : List Request) (r : Request) :
    heldAfter d (rs ++ [r]) =
      if r.selects d then d.kind.after (heldAfter d rs) r.value else heldAfter d rs := by
  simp only [heldAfter, List.foldl_append, List.foldl_cons, List.foldl_nil]

theorem held?_react {rs : List Request} (hw : icon.Wired) (h : icon.react e = some icon')
    (hd : d ∈ icon.controls) (hkeyed : icon.player.tree.Unkeyed d.layer d.field 0)
    (hu : icon.player.held? d.layer d.field = some (heldAfter d rs)) :
    icon'.player.held? d.layer d.field = some (heldAfter d (e.noted rs)) := by
  cases e with
  | write r =>
    cases h
    rw [held?_answer hw hd hu, Event.noted, heldAfter_append]
  | reset =>
    cases h
    exact held?_resetControls hw hd
  | move move => rw [held?_move h (.inr hkeyed), hu, Event.noted]
  | sample =>
    cases h
    exact hu

theorem held?_foldlM {events : List Event} {rs : List Request} (hw : icon.Wired)
    (hd : d ∈ icon.controls) (hkeyed : icon.player.tree.Unkeyed d.layer d.field 0)
    (hu : icon.player.held? d.layer d.field = some (heldAfter d rs))
    (h : events.foldlM react icon = some icon') :
    icon'.player.held? d.layer d.field = some (heldAfter d (events.foldl Event.noted rs)) := by
  -- The requests in force go along with the icon; a reset empties them.
  induction events generalizing icon rs with
  | nil =>
    cases h
    exact hu
  | cons e events ih =>
    obtain ⟨icon₁, he, h⟩ := Option.bind_eq_some_iff.mp h
    have hframe := sameFrame_react hw he
    exact ih (hw.of_sameFrame hframe) (hframe.controls ▸ hd) (hframe.unkeyed_iff.mpr hkeyed)
      (held?_react hw he hd hkeyed hu) h

theorem slot?_run {calls : List Call} {i j k : Nat} (hw : icon.Wired)
    (hother : ∀ d ∈ icon.controls, (d.layer, d.field, 0) ≠ (i, j, k))
    (hkeyed : icon.player.tree.Unkeyed i j k) (h : icon.run calls = some icon') :
    icon'.player.tree.slot? i j k = icon.player.tree.slot? i j k := by
  refine (run_induction (P := fun icon₁ => SameFrame icon icon₁ ∧
    icon₁.player.tree.slot? i j k = icon.player.tree.slot? i j k) ?_ ⟨.refl icon, rfl⟩ h).2
  rintro icon₁ icon₂ e ⟨hframe, hslot⟩ he
  have hw₁ := hw.of_sameFrame hframe
  refine ⟨hframe.trans (sameFrame_react hw₁ he), ?_⟩
  rw [slot?_react hw₁ he (hframe.controls ▸ hother) (hframe.unkeyed_iff.mpr hkeyed), hslot]

theorem ofDocument_eq_ok {document : Json} :
    Icon.ofDocument document = .ok icon ↔ ∃ player, Player.load document = .ok player ∧
      icon = ⟨document, player, discover document .liveTree, []⟩ := by
  cases hp : Player.load document with
  | error e => simp [ofDocument, hp]
  | ok player =>
    simp only [ofDocument, hp, Except.ok.injEq, exists_eq_left']
    exact eq_comm

theorem document_of_ofDocument {document : Json} (h : Icon.ofDocument document = .ok icon) :
    icon.document = document := by
  obtain ⟨player, -, rfl⟩ := ofDocument_eq_ok.mp h
  rfl

theorem wired_of_ofDocument {document : Json} (h : Icon.ofDocument document = .ok icon) :
    icon.Wired := by
  obtain ⟨player, hp, rfl⟩ := ofDocument_eq_ok.mp h
  refine ⟨rfl, fun d hd => ?_⟩
  obtain ⟨_, c, -, hc, -, -⟩ := load_replace hp (get?_of_mem_discover hd)
  simp [Player.held?, Tree.slot?, hc]

theorem held?_run {document : Json} {calls : List Call} (h : Icon.ofDocument document = .ok icon)
    (hrun : icon.run calls = some icon') (hd : d ∈ icon.controls) (hstill : Still document d) :
    icon'.player.held? d.layer d.field =
      some (heldAfter d (sinceReset (calls.flatMap Call.events))) := by
  have hw := wired_of_ofDocument h
  obtain ⟨player, hp, rfl⟩ := ofDocument_eq_ok.mp h
  obtain ⟨hheld, hkeyed⟩ := loaded_of_still hp hd hstill
  rw [run_eq_events] at hrun
  exact held?_foldlM hw hd hkeyed hheld hrun

/-- A loaded icon whose ends are in order never panics, and each of its controls holds the value it
was found with as the accepted writes since the last reset have changed it. No other slot changes,
unless it has keyframes. -/
theorem run_follows_requests {document : Json} (h : Icon.ofDocument document = .ok icon)
    (hends : icon.player.playhead.inPoint ≤ icon.player.playhead.outPoint)
    (hstill : ∀ d ∈ icon.controls, Still document d) (calls : List Call) :
    ∃ icon', icon.run calls = some icon' ∧
      (∀ d ∈ icon.controls, Target.get? icon'.player d.path =
        some (heldAfter d (sinceReset (calls.flatMap Call.events)))) ∧
      ∀ i j k, (∀ d ∈ icon.controls, (d.layer, d.field, 0) ≠ (i, j, k)) →
        icon.player.tree.Unkeyed i j k →
        icon'.player.tree.slot? i j k = icon.player.tree.slot? i j k := by
  have hw := wired_of_ofDocument h
  obtain ⟨icon', hrun⟩ := exists_run hw hends calls
  refine ⟨icon', hrun, fun d hd => ?_, fun i j k hother hkeyed => ?_⟩
  · rw [hw.get?_path hd]
    exact held?_run h hrun hd (hstill d hd)
  · exact slot?_run hw hother hkeyed hrun

def onlyAxis : Json :=
  .rig [.rigField "Axis" "ADBE Point Control" (.arr [.num (.int 1), .num (.int 2)])]

theorem run_follows_requests_at_axis : ∃ icon, Icon.ofDocument onlyAxis = .ok icon ∧
    icon.player.playhead.inPoint ≤ icon.player.playhead.outPoint ∧
    (∀ d ∈ icon.controls, Still onlyAxis d) ∧
    ∃ icon', icon.run [.setProperty "AXIS" (.arr [.num (.int 7), .num (.int 8)]), .sampleAt 5.0,
        .setProperty "axis" (.num (.int 9))] = some icon' ∧
      ∃ d ∈ icon.controls,
        Target.get? icon'.player d.path = some (.arr [.num (.int 7), .num (.int 8)]) := by
  obtain ⟨icon, d, h, hends, hcontrols, hstill, hheld⟩ : ∃ icon d,
      Icon.ofDocument onlyAxis = .ok icon ∧
      icon.player.playhead.inPoint ≤ icon.player.playhead.outPoint ∧ icon.controls = [d] ∧
      Still onlyAxis d ∧ heldAfter d [⟨"axis", false, .arr [.num (.int 7), .num (.int 8)]⟩,
        ⟨"axis", false, .num (.int 9)⟩] = .arr [.num (.int 7), .num (.int 8)] :=
    ⟨_, _, rfl, by decide +kernel, rfl, ⟨⟨_, _, rfl, rfl⟩, rfl⟩, rfl⟩
  have hall : ∀ d ∈ icon.controls, Still onlyAxis d := by
    rw [hcontrols]
    exact fun d' hd' => List.mem_singleton.mp hd' ▸ hstill
  have hd : d ∈ icon.controls := by simp [hcontrols]
  obtain ⟨icon', hrun, hvalues, -⟩ := run_follows_requests h hends hall
    [.setProperty "AXIS" (.arr [.num (.int 7), .num (.int 8)]), .sampleAt 5.0,
      .setProperty "axis" (.num (.int 9))]
  exact ⟨icon, h, hends, hall, icon', hrun, d, hd, (hvalues d hd).trans (congrArg some hheld)⟩
end IconMotion.Icon
