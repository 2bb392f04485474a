import Mathlib.Data.List.Nodup
import IconMotion.Icon.Basic
import IconMotion.Proofs.Parallel
import IconMotion.Proofs.Playing

namespace IconMotion

open Control Live

namespace Icon

inductive Call where
  | setProperty (name : String) (value : Json)
  | setColor (name hex : String)
  | setStroke (width : Float)
  | apply (options : Options)
  | reset
  | advance (dt : Float32)
  | sampleAt (frame : Float32)
  | exportDocument
  | playback (move : Player.Move)

def call (icon : Icon) : Call → Option Icon
  | .setProperty name value => some (icon.setProperty name value).icon
  | .setColor name hex => some (icon.setColor name hex).icon
  | .setStroke width => some (icon.setStroke width).icon
  | .apply o => some (icon.apply o).1
  | .reset => some icon.resetControls.1
  | .advance dt => (icon.advance dt).map (·.2.2)
  | .sampleAt frame => (icon.sampleAt frame).map (·.2.2)
  | .exportDocument => some icon
  | .playback move => (icon.player.perform move).map fun player => { icon with player }

def run (icon : Icon) (calls : List Call) : Option Icon := calls.foldlM call icon

/-- A value for the controls of a name, or only for those among them that are colors. -/
structure Request where
  name : String
  onlyColors : Bool
  value : Json

def Request.selects (r : Request) (d : Descriptor) : Bool :=
  d.name = r.name && (!r.onlyColors || d.kind = .color)

/-- What every call comes down to. -/
inductive Event where
  | write (request : Request)
  | reset
  | move (move : Player.Move)
  | sample

def answer (icon : Icon) (r : Request) : Icon :=
  (icon.writeTo (icon.controls.filter r.selects) r.value).icon

def react (icon : Icon) : Event → Option Icon
  | .write r => some (icon.answer r)
  | .reset => some icon.resetControls.1
  | .move move => (icon.player.perform move).map fun player => { icon with player }
  | .sample => some icon.samples.2.2

def strokeRequest (width : Float) : Request := ⟨"stroke", false, .ofFloat width⟩

def colorRequest (name hex : String) : Request := ⟨Text.lower name, true, .str hex⟩

def optionRequests (o : Options) : List Request :=
  o.stroke.toList.map strokeRequest ++ o.colors.map fun c => colorRequest c.1 c.2

def Call.events : Call → List Event
  | .setProperty name value => [.write ⟨Text.lower name, false, value⟩]
  | .setColor name hex => [.write (colorRequest name hex)]
  | .setStroke width => [.write (strokeRequest width)]
  | .apply o =>
    (optionRequests o).map .write ++
      [.move (.looping o.loopPlayback), .move (.speed o.speed),
        .move (if o.autoplay then .play else .pause)]
  | .reset => [.reset]
  | .advance dt => [.move (.advance dt), .sample]
  | .sampleAt frame => [.move (.goTo frame), .sample]
  | .exportDocument => []
  | .playback move => [.move move]

theorem setProperty_eq_answer (icon : Icon) (name : String) (value : Json) :
    (icon.setProperty name value).icon = icon.answer ⟨Text.lower name, false, value⟩ := by
  have hselect : icon.named name =
      icon.controls.filter (Request.selects ⟨Text.lower name, false, value⟩) :=
    List.filter_congr fun d _ => by simp [Request.selects]
  simp only [setProperty, answer, hselect]

theorem setColor_eq_answer (icon : Icon) (name hex : String) :
    (icon.setColor name hex).icon = icon.answer (colorRequest name hex) := by
  have hselect : icon.colorsNamed name =
      icon.controls.filter (Request.selects (colorRequest name hex)) := by
    simp only [colorsNamed, named, List.filter_filter, colorRequest]
    refine List.filter_congr fun d _ => ?_
    simp [Request.selects, Bool.and_comm]
  simp only [setColor, answer, hselect]
  rfl

theorem named_of_lower {icon : Icon} {name lower : String} (h : Text.lower name = lower) :
    icon.named name = icon.controls.filter fun d => d.name = lower := by
  subst h
  rfl

theorem setStroke_eq_answer (icon : Icon) (width : Float) :
    (icon.setStroke width).icon = icon.answer (strokeRequest width) := by
  have hselect : icon.named "stroke" =
      icon.controls.filter (Request.selects (strokeRequest width)) := by
    rw [named_of_lower (show Text.lower "stroke" = "stroke" by decide +kernel)]
    exact List.filter_congr fun d _ => (Bool.and_true (d.name = "stroke")).symm
  simp only [setStroke, answer, hselect]
  rfl

theorem setColors_eq_foldl (icon : Icon) (colors : List (String × String)) :
    (icon.setColors colors).1 =
      colors.foldl (fun icon c => icon.answer (colorRequest c.1 c.2)) icon := by
  induction colors generalizing icon with
  | nil => rfl
  | cons c colors ih =>
    simp only [setColors, List.foldl_cons]
    rw [ih, setColor_eq_answer]

theorem foldlM_writes (icon : Icon) (rs : List Request) :
    (rs.map Event.write).foldlM react icon = some (rs.foldl answer icon) := by
  induction rs generalizing icon with
  | nil => rfl
  | cons r rs ih => exact ih (icon.answer r)

theorem apply_eq (icon : Icon) (o : Options) :
    (icon.apply o).1 = ((optionRequests o).foldl answer icon).mapPlayer fun p =>
      if o.autoplay then ((p.setLooping o.loopPlayback).setSpeed o.speed).play
      else ((p.setLooping o.loopPlayback).setSpeed o.speed).pause := by
  cases hs : o.stroke with
  | none =>
    simp only [apply, hs, setColors_eq_foldl, optionRequests, Option.toList_none, List.map_nil,
      List.nil_append, List.foldl_map]
  | some width =>
    simp only [apply, hs, setColors_eq_foldl, setStroke_eq_answer, optionRequests,
      Option.toList_some, List.map_cons, List.map_nil, List.cons_append, List.nil_append,
      List.foldl_cons, List.foldl_map]

theorem call_eq_events (icon : Icon) (c : Call) : icon.call c = c.events.foldlM react icon := by
  cases c with
  | setProperty name value => simp [call, Call.events, setProperty_eq_answer, react]
  | setColor name hex => simp [call, Call.events, setColor_eq_answer, react]
  | setStroke width => simp [call, Call.events, setStroke_eq_answer, react]
  | apply o =>
    rw [call, apply_eq, Call.events, List.foldlM_append, foldlM_writes]
    cases o.autoplay <;> rfl
  | reset => simp [call, Call.events, react]
  | advance dt =>
    simp only [call, Call.events, advance, react, Player.perform, List.foldlM_cons, List.foldlM_nil]
    cases icon.player.advance dt <;> rfl
  | sampleAt frame =>
    simp only [call, Call.events, sampleAt, react, Player.perform, List.foldlM_cons, List.foldlM_nil]
    cases icon.player.goTo frame <;> rfl
  | exportDocument => rfl
  | playback move => simp [call, Call.events, react]

theorem run_eq_events (icon : Icon) (calls : List Call) :
    icon.run calls = (calls.flatMap Call.events).foldlM react icon := by
  induction calls generalizing icon with
  | nil => rfl
  | cons c calls ih =>
    simp only [run, List.foldlM_cons, List.flatMap_cons, List.foldlM_append, ← call_eq_events]
    exact congrArg _ (funext ih)

/-- The controls are those of the document, and the live tree has a slot for each. -/
structure Wired (icon : Icon) : Prop where
  controls : icon.controls = discover icon.document .liveTree
  held : ∀ d ∈ icon.controls, (icon.player.held? d.layer d.field).isSome

structure SameFrame (icon icon' : Icon) : Prop where
  document : icon'.document = icon.document
  controls : icon'.controls = icon.controls
  ends : icon.player.playhead.SameEnds icon'.player.playhead
  track? : ∀ i j k, icon'.player.tree.track? i j k = icon.player.tree.track? i j k

variable {icon icon' : Icon} {d : Descriptor} {e : Event} {r : Request} {move : Player.Move}

theorem SameFrame.refl (icon : Icon) : SameFrame icon icon :=
  ⟨rfl, rfl, ⟨rfl, rfl⟩, fun _ _ _ => rfl⟩

theorem SameFrame.trans {icon₁ icon₂ icon₃ : Icon} (h : SameFrame icon₁ icon₂)
    (h' : SameFrame icon₂ icon₃) : SameFrame icon₁ icon₃ where
  document := h'.document.trans h.document
  controls := h'.controls.trans h.controls
  ends := ⟨h'.ends.1.trans h.ends.1, h'.ends.2.trans h.ends.2⟩
  track? i j k := (h'.track? i j k).trans (h.track? i j k)

theorem SameFrame.unkeyed_iff (h : SameFrame icon icon') {i j k : Nat} :
    icon'.player.tree.Unkeyed i j k ↔ icon.player.tree.Unkeyed i j k := by
  simp only [Tree.Unkeyed, h.track?]

theorem isSome_held?_eq (p : Player) (layer field : Nat) :
    (p.held? layer field).isSome = (p.tree.track? layer field 0).isSome := by
  simp only [Player.held?, Tree.slot?, Tree.track?, Option.isSome_map]

theorem Wired.of_sameFrame (hw : icon.Wired) (h : SameFrame icon icon') : icon'.Wired where
  controls := by rw [h.controls, h.document, hw.controls]
  held d hd := by
    rw [isSome_held?_eq, h.track?, ← isSome_held?_eq]
    exact hw.held d (h.controls ▸ hd)

theorem Wired.live (hw : icon.Wired) (hd : d ∈ icon.controls) : d.IsLive :=
  path_of_mem_discover (hw.controls ▸ hd)

theorem Wired.source (hw : icon.Wired) (hd : d ∈ icon.controls) :
    icon.document.get? (Scope.document.address d.layer d.field) = some d.value :=
  get?_of_mem_discover (hw.controls ▸ hd)

theorem Wired.nodup (hw : icon.Wired) : (icon.controls.map Descriptor.key).Nodup :=
  hw.controls ▸ nodup_keys_discover icon.document .liveTree

theorem Wired.exists_held (hw : icon.Wired) (hd : d ∈ icon.controls) :
    ∃ u, icon.player.held? d.layer d.field = some u :=
  Option.isSome_iff_exists.mp (hw.held d hd)

theorem Wired.get?_path (hw : icon.Wired) (hd : d ∈ icon.controls) (p : Player) :
    Target.get? p d.path = p.held? d.layer d.field := by
  rw [show d.path = _ from hw.live hd, Player.get?_address]

theorem Wired.eq_of_key (hw : icon.Wired) {d' : Descriptor} (hd : d ∈ icon.controls)
    (hd' : d' ∈ icon.controls) (h : d.key = d'.key) : d = d' :=
  List.inj_on_of_nodup_map hw.nodup hd hd' h

theorem Wired.nodup_filter (hw : icon.Wired) (f : Descriptor → Bool) :
    ((icon.controls.filter f).map Descriptor.key).Nodup :=
  hw.nodup.sublist (List.filter_sublist.map Descriptor.key)

theorem answer_eq_assign (hw : icon.Wired) (r : Request) :
    (icon.answer r).player = icon.player.assign (fun d u => d.kind.after u r.value)
      (icon.controls.filter r.selects) :=
  Player.write_eq_assign (fun d hd =>
    have hd := (List.mem_filter.mp hd).1
    ⟨hw.live hd, hw.held d hd⟩) r.value

theorem resetControls_eq_assign (hw : icon.Wired) :
    icon.resetControls.1.player = icon.player.assign (fun d _ => d.value) icon.controls :=
  Player.reset_eq_assign fun d hd => ⟨hw.live hd, hw.held d hd⟩

theorem react_move_eq_some (h : icon.react (.move move) = some icon') :
    ∃ player, icon.player.perform move = some player ∧ icon' = { icon with player } := by
  obtain ⟨player, hp, rfl⟩ := Option.map_eq_some_iff.mp h
  exact ⟨player, hp, rfl⟩

theorem sameFrame_of_assign {f : Descriptor → Json → Json} {ds : List Descriptor}
    (hdocument : icon'.document = icon.document) (hcontrols : icon'.controls = icon.controls)
    (h : icon'.player = icon.player.assign f ds) : SameFrame icon icon' := by
  obtain ⟨tree, htree⟩ := Player.assign_eq (f := f) icon.player ds
  refine ⟨hdocument, hcontrols, ?_, fun i j k => ?_⟩
  · rw [h, htree]
    exact ⟨rfl, rfl⟩
  · rw [h, Player.track?_assign]

theorem sameFrame_react (hw : icon.Wired) (h : icon.react e = some icon') :
    SameFrame icon icon' := by
  cases e with
  | write r =>
    cases h
    exact sameFrame_of_assign rfl rfl (answer_eq_assign hw r)
  | reset =>
    cases h
    exact sameFrame_of_assign rfl rfl (resetControls_eq_assign hw)
  | move move =>
    obtain ⟨player, hp, rfl⟩ := react_move_eq_some h
    refine ⟨rfl, rfl, ?_, Player.track?_perform hp⟩
    obtain ⟨playhead, tree, rfl, hends, -⟩ := Player.perform_eq_some hp
    exact hends
  | sample =>
    cases h
    exact ⟨rfl, rfl, ⟨rfl, rfl⟩, fun _ _ _ => rfl⟩

theorem exists_react (h : icon.player.playhead.inPoint ≤ icon.player.playhead.outPoint)
    (e : Event) : ∃ icon', icon.react e = some icon' := by
  cases e with
  | move move =>
    obtain ⟨player, hp⟩ := Player.exists_perform h move
    exact ⟨_, by rw [react, hp]; rfl⟩
  | write | reset | sample => exact ⟨_, rfl⟩

theorem run_induction {P : Icon → Prop} {calls : List Call}
    (hstep : ∀ icon icon' e, P icon → icon.react e = some icon' → P icon') (hP : P icon)
    (h : icon.run calls = some icon') : P icon' := by
  rw [run_eq_events] at h
  generalize calls.flatMap Call.events = events at h
  induction events generalizing icon with
  | nil =>
    cases h
    exact hP
  | cons e events ih =>
    obtain ⟨icon₁, he, h⟩ := Option.bind_eq_some_iff.mp h
    exact ih (hstep icon icon₁ e hP he) h

theorem sameFrame_run {calls : List Call} (hw : icon.Wired) (h : icon.run calls = some icon') :
    SameFrame icon icon' :=
  run_induction (fun _ _ _ hframe he => hframe.trans (sameFrame_react (hw.of_sameFrame hframe) he))
    (.refl icon) h

theorem exists_run (hw : icon.Wired)
    (h : icon.player.playhead.inPoint ≤ icon.player.playhead.outPoint) (calls : List Call) :
    ∃ icon', icon.run calls = some icon' := by
  rw [run_eq_events]
  generalize calls.flatMap Call.events = events
  -- The ends stay as they are, so the order between them carries over from event to event.
  induction events generalizing icon with
  | nil => exact ⟨icon, rfl⟩
  | cons e events ih =>
    obtain ⟨icon₁, he⟩ := exists_react h e
    have hframe := sameFrame_react hw he
    have hends : icon₁.player.playhead.inPoint ≤ icon₁.player.playhead.outPoint := by
      rw [hframe.ends.1, hframe.ends.2]
      exact h
    obtain ⟨icon', h'⟩ := ih (hw.of_sameFrame hframe) hends
    exact ⟨icon', by rw [List.foldlM_cons, he]; exact h'⟩

end Icon

end IconMotion
