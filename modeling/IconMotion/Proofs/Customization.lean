import IconMotion.Proofs.Export

namespace IconMotion

open Control Live

namespace Control

/-- A control takes a value: its kind has a form for it, and every place of that is reached. -/
def Descriptor.accepts (d : Descriptor) (p : Player) (v : Json) : Bool :=
  !(d.slots v).isEmpty && (putAll p (d.slots v)).2.isNone

theorem Descriptor.slots_ne_nil {d : Descriptor} {u v w : Json} (h : d.kind.written? u v = some w) :
    d.slots v ≠ [] := by
  unfold slots
  cases hk : d.kind with
  | color =>
    simp only [hk, Kind.written?] at h
    simp [h]
  | point =>
    simp only [hk, Kind.written?] at h
    obtain ⟨xy, hxy, -⟩ := Option.bind_eq_some_iff.mp h
    simp [hxy]
  | slider | checkbox | feature => simp

theorem Descriptor.accepts_eq {d : Descriptor} {p : Player} {u : Json} (hd : d.IsLive)
    (hu : p.held? d.layer d.field = some u) (v : Json) :
    d.accepts p v = (d.kind.written? u v).isSome := by
  cases hw : d.kind.written? u v with
  | some w =>
    have hput := putAll_of_written (by rw [hd]; exact Player.holds hu)
      (fun w => by rw [hd]; exact Player.holds_hold hu w) hw
    simp [accepts, hput, slots_ne_nil hw]
  | none =>
    obtain ⟨-, hempty | ⟨e, he⟩⟩ := putAll_of_refused (by rw [hd]; exact Player.holds hu) hw
    · simp [accepts, hempty]
    · simp [accepts, he]

end Control

namespace Icon

structure Mark where
  targeted : Bool := false
  /-- What its slot held right after the last write that it accepted. -/
  left : Option Json := none
  sampled : Bool := false

def Mark.next (d : Descriptor) (icon : Icon) (m : Mark) : Event → Mark
  | .write r =>
    if r.selects d then
      if d.accepts icon.player r.value then ⟨true, Target.get? (icon.answer r).player d.path, false⟩
      else { m with targeted := true }
    else m
  | .reset => {}
  | .move move => { m with sampled := m.sampled || icon.player.samplesOn move }
  | .sample => m

def Mark.through (d : Descriptor) : Icon → Mark → List Event → Mark
  | _, m, [] => m
  | icon, m, e :: events => match icon.react e with
    | some icon' => through d icon' (m.next d icon e) events
    | none => m

def markOf (d : Descriptor) (icon : Icon) (calls : List Call) : Mark :=
  Mark.through d icon {} (calls.flatMap Call.events)

structure Tells (document : Json) (d : Descriptor) (icon : Icon) (m : Mark) : Prop where
  customized : icon.isCustomized d = m.targeted
  targeted : m.left.isSome → m.targeted = true
  left : ∀ v, m.left = some v → m.sampled = false ∨ icon.player.tree.Unkeyed d.layer d.field 0 →
    icon.player.held? d.layer d.field = some v
  still : Still document d → icon.player.held? d.layer d.field = some (m.left.getD d.value)

variable {document : Json} {icon icon' : Icon} {d : Descriptor} {e : Event} {m : Mark}

theorem Tells.of_held (h : Tells document d icon m) (hframe : SameFrame icon icon')
    (hheld : icon'.player.held? d.layer d.field = icon.player.held? d.layer d.field)
    {targeted : Bool} (hcustomized : icon'.isCustomized d = targeted)
    (htargeted : m.left.isSome → targeted = true) :
    Tells document d icon' { m with targeted := targeted } := by
  refine ⟨hcustomized, htargeted, fun v hv hstays => ?_, fun hstill => ?_⟩
  · rw [hheld]
    exact h.left v hv (hstays.imp id hframe.unkeyed_iff.mp)
  · rw [hheld]
    exact h.still hstill

theorem Tells.write {r : Request} (h : Tells document d icon m) (hw : icon.Wired)
    (hd : d ∈ icon.controls) : Tells document d (icon.answer r) (m.next d icon (.write r)) := by
  obtain ⟨u, hu⟩ := hw.exists_held hd
  have hframe : SameFrame icon (icon.answer r) := sameFrame_react hw (e := .write r) rfl
  have hcustomized := isCustomized_answer hw hd r
  have hheld := held?_answer hw hd hu r
  have haccepts := Descriptor.accepts_eq (hw.live hd) hu r.value
  by_cases hr : r.selects d = true
  · rw [hr, Bool.or_true] at hcustomized
    rw [if_pos hr] at hheld
    -- An accepted write starts the mark anew, a refused one only shows that the control was meant.
    cases hwritten : d.kind.written? u r.value with
    | some w =>
      rw [hwritten, Option.isSome_some] at haccepts
      rw [Kind.after, hwritten, Option.getD_some] at hheld
      have hleft := (hw.get?_path hd (icon.answer r).player).trans hheld
      simp only [Mark.next, if_pos hr, haccepts, if_true, hleft]
      exact ⟨hcustomized, fun _ => rfl, fun v hv _ => hheld.trans hv, fun _ => hheld⟩
    | none =>
      rw [hwritten, Option.isSome_none] at haccepts
      rw [Kind.after, hwritten, Option.getD_none, ← hu] at hheld
      simp only [Mark.next, if_pos hr, haccepts, Bool.false_eq_true, if_false]
      exact h.of_held hframe hheld hcustomized fun _ => rfl
  · rw [Bool.not_eq_true] at hr
    rw [hr, Bool.or_false] at hcustomized
    simp only [hr, Bool.false_eq_true, if_false, ← hu] at hheld
    simp only [Mark.next, hr, Bool.false_eq_true, if_false]
    exact h.of_held hframe hheld (hcustomized.trans h.customized) h.targeted

theorem Tells.reset (hw : icon.Wired) (hd : d ∈ icon.controls) :
    Tells document d icon.resetControls.1 {} :=
  ⟨rfl, nofun, nofun, fun _ => held?_resetControls hw hd⟩

theorem Tells.move {move : Player.Move} (h : Tells document d icon m) (hw : icon.Wired)
    (hkeyed : Still document d → icon.player.tree.Unkeyed d.layer d.field 0)
    (he : icon.react (.move move) = some icon') :
    Tells document d icon' (m.next d icon (.move move)) := by
  have hframe := sameFrame_react hw he
  refine ⟨(isCustomized_move he d).trans h.customized, h.targeted, fun v hv hstays => ?_,
    fun hstill => ?_⟩
  · have hstays : (m.sampled = false ∧ icon.player.samplesOn move = false) ∨
        icon.player.tree.Unkeyed d.layer d.field 0 :=
      hstays.imp Bool.or_eq_false_iff.mp hframe.unkeyed_iff.mp
    rw [held?_move he (hstays.imp And.right id)]
    exact h.left v hv (hstays.imp And.left id)
  · rw [held?_move he (.inr (hkeyed hstill))]
    exact h.still hstill

theorem Tells.react (h : Tells document d icon m) (hw : icon.Wired) (hd : d ∈ icon.controls)
    (hkeyed : Still document d → icon.player.tree.Unkeyed d.layer d.field 0)
    (he : icon.react e = some icon') : Tells document d icon' (m.next d icon e) := by
  cases e with
  | write r =>
    cases he
    exact h.write hw hd
  | reset =>
    cases he
    exact .reset hw hd
  | move move => exact h.move hw hkeyed he
  | sample =>
    cases he
    exact ⟨h.customized, h.targeted, h.left, h.still⟩

theorem Tells.through {events : List Event} (h : Tells document d icon m) (hw : icon.Wired)
    (hd : d ∈ icon.controls)
    (hkeyed : Still document d → icon.player.tree.Unkeyed d.layer d.field 0)
    (hrun : events.foldlM Icon.react icon = some icon') :
    Tells document d icon' (m.through d icon events) := by
  induction events generalizing icon m with
  | nil =>
    cases hrun
    exact h
  | cons e events ih =>
    obtain ⟨icon₁, he, hrun⟩ := Option.bind_eq_some_iff.mp hrun
    have hframe := sameFrame_react hw he
    simp only [Mark.through, he]
    exact ih (h.react hw hd hkeyed he) (hw.of_sameFrame hframe) (hframe.controls ▸ hd)
      (fun hstill => hframe.unkeyed_iff.mpr (hkeyed hstill)) hrun

theorem tells_markOf {calls : List Call} (h : Icon.ofDocument document = .ok icon)
    (hrun : icon.run calls = some icon') (hd : d ∈ icon.controls) :
    Tells document d icon' (markOf d icon calls) := by
  have hw := wired_of_ofDocument h
  obtain ⟨player, hp, rfl⟩ := ofDocument_eq_ok.mp h
  rw [run_eq_events] at hrun
  refine Tells.through ⟨rfl, nofun, nofun, fun hstill => ?_⟩ hw hd (fun hstill => ?_) hrun
  · exact (loaded_of_still hp hd hstill).1
  · exact (loaded_of_still hp hd hstill).2

def Event.isPlayback : Event → Bool
  | .move _ | .sample => true
  | .write _ | .reset => false

def Call.isPlayback : Call → Bool
  | .advance _ | .sampleAt _ | .exportDocument | .playback _ => true
  | _ => false

theorem isPlayback_of_mem_events {c : Call} (hc : c.isPlayback = true) (he : e ∈ c.events) :
    e.isPlayback = true := by
  cases c with
  | advance | sampleAt =>
    rcases List.mem_pair.mp he with rfl | rfl <;> rfl
  | playback => cases List.mem_singleton.mp he; rfl
  | exportDocument => cases he
  | _ => cases hc

theorem get?_exportDocument_react (hw : icon.Wired) (hd : d ∈ icon.controls)
    (hkeyed : icon.player.tree.Unkeyed d.layer d.field 0) (hplay : e.isPlayback = true)
    (he : icon.react e = some icon') :
    icon'.exportDocument.1.get? d.documentPath = icon.exportDocument.1.get? d.documentPath := by
  have hframe := sameFrame_react hw he
  have hd' : d ∈ icon'.controls := hframe.controls ▸ hd
  have hw' := hw.of_sameFrame hframe
  rw [get?_exportDocument hw' hd', get?_exportDocument hw hd, hw'.get?_path hd', hw.get?_path hd]
  cases e with
  | move move => rw [isCustomized_move he, held?_move he (.inr hkeyed)]
  | sample => cases he; rfl
  | write | reset => cases hplay

theorem get?_exportDocument_run {calls : List Call} (hw : icon.Wired) (hd : d ∈ icon.controls)
    (hkeyed : icon.player.tree.Unkeyed d.layer d.field 0)
    (hplay : ∀ c ∈ calls, c.isPlayback = true) (hrun : icon.run calls = some icon') :
    icon'.exportDocument.1.get? d.documentPath = icon.exportDocument.1.get? d.documentPath := by
  have hevents : ∀ e ∈ calls.flatMap Call.events, e.isPlayback = true := by
    intro e he
    obtain ⟨c, hc, he⟩ := List.mem_flatMap.mp he
    exact isPlayback_of_mem_events (hplay c hc) he
  rw [run_eq_events] at hrun
  generalize calls.flatMap Call.events = events at hevents hrun
  induction events generalizing icon with
  | nil =>
    cases hrun
    rfl
  | cons e events ih =>
    obtain ⟨icon₁, he, hrun⟩ := Option.bind_eq_some_iff.mp hrun
    have hframe := sameFrame_react hw he
    rw [ih (hw.of_sameFrame hframe) (hframe.controls ▸ hd) (hframe.unkeyed_iff.mpr hkeyed)
      (fun e he => hevents e (by simp [he])) hrun]
    exact get?_exportDocument_react hw hd hkeyed (hevents e (by simp)) he

/-- An export is the document with the values that some controls hold at present put in their places.
A control that no write selected keeps its own value there. One that accepted a write has what it
holds at present: what the last of these writes left, unless it has keyframes and they have been
sampled since. A control without keyframes has what the last accepted write left or else its own
value, and playback does not change that. -/
theorem export_has_customizations {calls : List Call} (h : Icon.ofDocument document = .ok icon)
    (hrun : icon.run calls = some icon') :
    (∃ ds : List Descriptor, ds.Sublist icon.controls ∧
      icon'.exportDocument.1 = document.fill icon'.current ds) ∧
    (∀ q, (∀ d ∈ icon.controls, d.documentPath.Apart q) →
      icon'.exportDocument.1.get? q = document.get? q) ∧
    ∀ d ∈ icon.controls,
      ((markOf d icon calls).targeted = false →
        icon'.exportDocument.1.get? d.documentPath = document.get? d.documentPath) ∧
      (∀ v, (markOf d icon calls).left = some v →
        icon'.exportDocument.1.get? d.documentPath = Target.get? icon'.player d.path ∧
        ((markOf d icon calls).sampled = false ∨ icon.player.tree.Unkeyed d.layer d.field 0 →
          icon'.exportDocument.1.get? d.documentPath = some v)) ∧
      (Still document d → icon'.exportDocument.1.get? d.documentPath =
        (markOf d icon calls).left.or (document.get? d.documentPath)) ∧
      (icon.player.tree.Unkeyed d.layer d.field 0 →
        ∀ moves icon'', (∀ c ∈ moves, c.isPlayback = true) → icon'.run moves = some icon'' →
        icon''.exportDocument.1.get? d.documentPath = icon'.exportDocument.1.get? d.documentPath) := by
  have hw := wired_of_ofDocument h
  have hframe := sameFrame_run hw hrun
  have hw' := hw.of_sameFrame hframe
  have hdocument : icon'.document = document := by
    rw [hframe.document, document_of_ofDocument h]
  refine ⟨⟨icon'.controls.filter icon'.isCustomized, ?_, ?_⟩, fun q hq => ?_, fun d hd => ?_⟩
  · rw [hframe.controls]
    exact List.filter_sublist
  · rw [exportDocument_eq hw', hdocument]
  · rw [get?_exportDocument_of_apart hw' (hframe.controls ▸ hq), hdocument]
  · have hd' : d ∈ icon'.controls := hframe.controls ▸ hd
    have htells := tells_markOf h hrun hd
    have hsource : document.get? d.documentPath = some d.value := hdocument ▸ hw'.source hd'
    have hexport := get?_exportDocument hw' hd'
    rw [htells.customized] at hexport
    refine ⟨fun hm => ?_, fun v hv => ?_, fun hstill => ?_,
      fun hkeyed moves icon'' hmoves hrun' => ?_⟩
    · rw [hexport, hm, hsource]
      rfl
    · have hm := htells.targeted (by rw [hv]; rfl)
      rw [hexport, hm, if_pos rfl]
      refine ⟨rfl, fun hstays => ?_⟩
      rw [hw'.get?_path hd']
      exact htells.left v hv (hstays.imp id hframe.unkeyed_iff.mpr)
    · have hheld := htells.still hstill
      rw [hexport, hw'.get?_path hd', hheld, hsource]
      cases hleft : (markOf d icon calls).left with
      | none => simp
      | some v => rw [htells.targeted (by rw [hleft]; rfl)]; rfl
    · exact get?_exportDocument_run hw' hd' (hframe.unkeyed_iff.mpr hkeyed) hmoves hrun'

def writesAndSample : List Call :=
  [.setProperty "Size" (.num (.int 7)), .setProperty "Axis" (.arr [.num (.int 7), .num (.int 8)]),
    .sampleAt 5.0]

theorem export_has_customizations_axis : ∃ icon icon' size axis,
    Icon.ofDocument Json.sizeAndAxis = .ok icon ∧ icon.run writesAndSample = some icon' ∧
    icon.controls = [size, axis] ∧
    icon'.exportDocument.1.get? axis.documentPath = some (.arr [.num (.int 7), .num (.int 8)]) ∧
    icon'.exportDocument.1.get? size.documentPath = Target.get? icon'.player size.path ∧
    (icon'.exportDocument.1.get? size.documentPath).any (Json.same (.arr [.num (.int 3)])) = true := by
  obtain ⟨icon, icon', size, axis, h, hrun, hcontrols, hstill, haxis, hsize, hlive⟩ :
      ∃ icon icon' size axis, Icon.ofDocument Json.sizeAndAxis = .ok icon ∧
        icon.run writesAndSample = some icon' ∧ icon.controls = [size, axis] ∧
        Still Json.sizeAndAxis axis ∧
        (markOf axis icon writesAndSample).left = some (.arr [.num (.int 7), .num (.int 8)]) ∧
        markOf size icon writesAndSample = ⟨true, some (.num (.int 7)), true⟩ ∧
        (Target.get? icon'.player size.path).any (Json.same (.arr [.num (.int 3)])) = true :=
    ⟨_, _, _, _, rfl, rfl, rfl, ⟨⟨_, _, rfl, rfl⟩, rfl⟩, rfl, rfl, by decide +kernel⟩
  obtain ⟨-, -, hvalues⟩ := export_has_customizations h hrun
  obtain ⟨-, -, hvalue, -⟩ := hvalues axis (by simp [hcontrols])
  obtain ⟨-, hpresent, -, -⟩ := hvalues size (by simp [hcontrols])
  obtain ⟨hpresent, -⟩ := hpresent (.num (.int 7)) (by rw [hsize])
  refine ⟨icon, icon', size, axis, h, hrun, hcontrols, ?_, hpresent, hpresent ▸ hlive⟩
  rw [hvalue hstill, haxis]
  rfl

/-- A write into keyframes is gone with the next sample. The export then has neither the keyframes nor
the written value. -/
theorem export_lacks_written_value : ∃ icon written icon' d,
    Icon.ofDocument Json.sizeAndAxis = .ok icon ∧ d ∈ icon.controls ∧ icon.named "Size" = [d] ∧
    d.accepts icon.player (.num (.int 7)) = true ∧
    icon.run [.setProperty "Size" (.num (.int 7))] = some written ∧
    icon.run [.setProperty "Size" (.num (.int 7)), .sampleAt 5.0] = some icon' ∧
    ¬(icon'.exportDocument.1.get? d.documentPath = Json.sizeAndAxis.get? d.documentPath ∨
      icon'.exportDocument.1.get? d.documentPath = Target.get? written.player d.path) := by
  obtain ⟨icon, written, icon', d, h, hd, hnamed, haccepts, hrun, hrun', hexport, hsource, hheld⟩ :
      ∃ icon written icon' d, Icon.ofDocument Json.sizeAndAxis = .ok icon ∧ d ∈ icon.controls ∧
        icon.named "Size" = [d] ∧ d.accepts icon.player (.num (.int 7)) = true ∧
        icon.run [.setProperty "Size" (.num (.int 7))] = some written ∧
        icon.run [.setProperty "Size" (.num (.int 7)), .sampleAt 5.0] = some icon' ∧
        (icon'.exportDocument.1.get? d.documentPath).any (Json.same (.arr [.num (.int 3)])) = true ∧
        Json.sizeAndAxis.get? d.documentPath =
          some (.arr [.obj [("s", .arr [.num (.int 3)]), ("t", .num (.int 0))]]) ∧
        Target.get? written.player d.path = some (.num (.int 7)) :=
    ⟨_, _, _, _, rfl, List.mem_of_getElem? (i := 0) rfl, rfl, rfl, rfl, rfl,
      by decide +kernel, rfl, rfl⟩
  refine ⟨icon, written, icon', d, h, hd, hnamed, haccepts, hrun, hrun', ?_⟩
  rw [hsource, hheld]
  rintro (h | h) <;> rw [h] at hexport <;> cases hexport

def keyedTint : Json :=
  .rig [.rigField "Tint" "ADBE Color Control" (.arr [.obj
    [("s", .arr [.num (.int 0), .num (.int 1), .num (.int 0)]), ("t", .num (.int 0))]])]

/-- A write that is refused customizes too. It changes nothing in the live tree, but the export then has
the present sample where the keyframes were. -/
theorem export_lacks_keyframes_after_refusal : ∃ icon icon' d,
    Icon.ofDocument keyedTint = .ok icon ∧ icon.controls = [d] ∧
    d.accepts icon.player (.bool true) = false ∧
    icon.run [.setProperty "Tint" (.bool true)] = some icon' ∧ icon'.player = icon.player ∧
    icon'.exportDocument.1.get? d.documentPath = Target.get? icon.player d.path ∧
    icon'.exportDocument.1.get? d.documentPath ≠ keyedTint.get? d.documentPath := by
  obtain ⟨icon, icon', d, h, hcontrols, hrefuses, hrun, hplayer, hexport, hlive, hsource⟩ :
      ∃ icon icon' d, Icon.ofDocument keyedTint = .ok icon ∧ icon.controls = [d] ∧
        d.accepts icon.player (.bool true) = false ∧
        icon.run [.setProperty "Tint" (.bool true)] = some icon' ∧ icon'.player = icon.player ∧
        icon'.exportDocument.1.get? d.documentPath = Target.get? icon.player d.path ∧
        (Target.get? icon.player d.path).any (Json.same
          (.arr [.num (.int 0), .num (.int 1), .num (.int 0)])) = true ∧
        keyedTint.get? d.documentPath = some (.arr [.obj
          [("s", .arr [.num (.int 0), .num (.int 1), .num (.int 0)]), ("t", .num (.int 0))]]) :=
    ⟨_, _, _, rfl, rfl, rfl, rfl, rfl, rfl, by decide +kernel, rfl⟩
  refine ⟨icon, icon', d, h, hcontrols, hrefuses, hrun, hplayer, hexport, fun hsame => ?_⟩
  rw [← hexport, hsame, hsource] at hlive
  cases hlive

end Icon

end IconMotion
