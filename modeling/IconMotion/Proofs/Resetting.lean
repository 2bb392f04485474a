import IconMotion.Proofs.ControlValues
import IconMotion.Proofs.Sampling

namespace IconMotion

open Control Decoder Live

theorem Json.sizeOf_lt_of_find? {ms : List (String × Json)} {key : String} {v : Json}
    (h : SortedMap.find? ms key = some v) : sizeOf v < sizeOf (Json.obj ms) := by
  have hms : sizeOf v < sizeOf ms := by
    induction ms with
    | nil => cases h
    | cons m ms ih =>
      obtain ⟨k, w⟩ := m
      by_cases hk : k = key
      · obtain rfl : w = v := by simpa [SortedMap.find?, hk] using h
        simp only [List.cons.sizeOf_spec, Prod.mk.sizeOf_spec]
        omega
      · have hv := ih (by simpa [SortedMap.find?, hk] using h)
        simp only [List.cons.sizeOf_spec]
        omega
  rw [Json.obj.sizeOf_spec]
  omega

namespace Decoder

theorem member_of_frameValue {ms : List (String × Json)} {name : String} {v : Json}
    {x : Option (Option Json)} (h : field? ms name (frameValue json) = .ok x)
    (hv : x.join = some v) : SortedMap.find? ms name = some v := by
  cases hj : SortedMap.find? ms name with
  | none =>
    simp only [field?, hj] at h
    cases h
    cases hv
  | some j =>
    obtain ⟨y, hy, rfl⟩ := read_of_field? h hj
    cases j with
    | null =>
      cases hy
      cases hv
    | _ =>
      cases hy
      exact hv

theorem exists_mem_of_mapM {τ : Type} {d : Decoder τ} {xs : List Json} {ys : List τ} {y : τ}
    (h : xs.mapM d = .ok ys) (hy : y ∈ ys) : ∃ x ∈ xs, d x = .ok y := by
  induction xs generalizing ys with
  | nil =>
    cases h
    cases hy
  | cons x xs ih =>
    obtain ⟨y', hy', zs, hzs, rfl⟩ := mapM_cons_eq_ok.mp h
    rcases List.mem_cons.mp hy with rfl | hy
    · exact ⟨x, List.mem_cons_self, hy'⟩
    · obtain ⟨x', hx', hd⟩ := ih hzs hy
      exact ⟨x', List.mem_cons_of_mem x hx', hd⟩

theorem sizeOf_lt_of_keyframe {x v : Json} {k : Keyframe Float32 Json} (hx : hasTime x = true)
    (h : keyframe json x = .ok k) (hv : k.start = some v ∨ k.stop = some v) : sizeOf v < sizeOf x := by
  cases x with
  | obj ms =>
    have h : keyframeOfMembers json ms = .ok k := h
    simp only [keyframeOfMembers, bind_eq_ok, pure_eq_ok] at h
    obtain ⟨stop, hstop, hold, -, easeIn, -, easeOut, -, start, hstart, time, -, tangentIn, -,
      tangentOut, -, time', -, rfl⟩ := h
    rcases hv with hv | hv
    · exact Json.sizeOf_lt_of_find? (member_of_frameValue hstart hv)
    · exact Json.sizeOf_lt_of_find? (member_of_frameValue hstop hv)
  | _ => cases hx

theorem isKeyframeList_eq_true {j : Json} (h : isKeyframeList j = true) :
    ∃ x xs, j = .arr (x :: xs) ∧ ∀ y ∈ x :: xs, hasTime y = true := by
  cases j with
  | arr xs =>
    cases xs with
    | nil => cases h
    | cons x xs => exact ⟨x, xs, rfl, List.all_eq_true.mp h⟩
  | _ => cases h

theorem toTrack_cases (j : Json) :
    j = .null ∧ toTrack json j = .empty ∨ toTrack json j = .fixed j ∨
      ∃ ks, toTrack json j = .keyed ks ∧ isKeyframeList j = true ∧ list (keyframe json) j = .ok ks := by
  have hlenient : lenient? json j = some j := rfl
  cases hnull : j.isNull with
  | true =>
    cases j with
    | null => exact .inl ⟨rfl, rfl⟩
    | _ => cases hnull
  | false =>
    simp only [toTrack, hnull, hlenient, Bool.false_eq_true, if_false]
    cases hlist : isKeyframeList j with
    | false => exact .inr (.inl rfl)
    | true =>
      cases hks : list (keyframe json) j with
      | error e => exact .inr (.inl rfl)
      | ok ks => exact .inr (.inr ⟨ks, rfl, rfl, rfl⟩)

theorem isKeyframeList_ofFloat32 (c : Float32) :
    isKeyframeList (Json.ofFloat32 c) = false ∧ hasTime (Json.ofFloat32 c) = false := by
  unfold Json.ofFloat32 Json.ofFloat
  split <;> exact ⟨rfl, rfl⟩

theorem isKeyframeList_ofComponents (u : Json) (cs : List Float32) :
    isKeyframeList (u.ofComponents cs) = false := by
  have harr : isKeyframeList (.arr (cs.map Json.ofFloat32)) = false := by
    cases cs with
    | nil => rfl
    | cons c cs => simp [isKeyframeList, (isKeyframeList_ofFloat32 c).2]
  unfold Json.ofComponents
  split
  · exact (isKeyframeList_ofFloat32 _).1
  · exact harr

/-- A sample of keyframes is never the list that they are read from. -/
theorem sampleKeys_ne {j : Json} {ks : List (Keyframe Float32 Json)} (hlist : isKeyframeList j = true)
    (hks : list (keyframe json) j = .ok ks) (frame : Float32) :
    Track.sampleKeys ks frame id .null ≠ j := by
  obtain ⟨x, xs, rfl, htimes⟩ := isKeyframeList_eq_true hlist
  refine Track.holds_sampleKeys (P := (· ≠ _)) ?_ nofun ?_
  · rintro k hk v hv rfl
    obtain ⟨y, hy, hread⟩ := exists_mem_of_mapM hks hk
    have hlt := sizeOf_lt_of_keyframe (htimes y hy) hread hv
    have hmem := List.sizeOf_lt_of_mem hy
    simp only [Json.arr.sizeOf_spec] at hlt
    omega
  · intro u cs h
    have hno := isKeyframeList_ofComponents u cs
    rw [h, hlist] at hno
    cases hno

theorem sample_toTrack_eq_iff (j : Json) (frame : Float32) :
    (toTrack json j).sample frame id .null = j ↔ (toTrack json j).isKeyed = false := by
  rcases toTrack_cases j with ⟨rfl, h⟩ | h | ⟨ks, h, hlist, hks⟩ <;> rw [h]
  · exact ⟨fun _ => rfl, fun _ => rfl⟩
  · exact ⟨fun _ => rfl, fun _ => rfl⟩
  · exact ⟨fun hsample => absurd hsample (sampleKeys_ne hlist hks frame), nofun⟩

end Decoder

namespace Control

/-- The property of a control can be read, and is not read as keyframes. -/
def Static (document : Json) (d : Descriptor) : Prop :=
  ∃ j q, document.get? (propertyPath d.layer d.field) = some j ∧ property json j = .ok q ∧
    q.track.isKeyed = false

end Control

theorem value_drawn_eq_iff {ms : List (String × Json)} {u : Json} (c : Channel)
    (hk : SortedMap.find? ms "k" = some u) :
    (c.drawn ms).value = u ↔ ∃ q, property json (.obj ms) = .ok q ∧ q.track.isKeyed = false := by
  cases hq : property json (.obj ms) with
  | ok q =>
    have hq' : propertyOfMembers json ms = .ok q := hq
    have hvalue : (c.drawn ms).value = (toTrack json u).sample (0.0 : Float32) id .null :=
      congrArg (Track.sample · (0.0 : Float32) id Json.null) (track_drawn c hk hq')
    rw [hvalue, sample_toTrack_eq_iff, ← track_of_propertyOfMembers hq' hk]
    constructor
    · exact fun hkeyed => ⟨q, rfl, hkeyed⟩
    · rintro ⟨_, h, hkeyed⟩
      cases h
      exact hkeyed
  | error e =>
    have hsource : toEffectProperty (.obj ms) = .constant (.obj ms) := by
      simp only [toEffectProperty, Json.member?, hk, Option.isSome_some, if_true, hq]
    have hvalue : (c.drawn ms).value = .obj ms := by
      simp only [Channel.drawn, hsource]
      rfl
    rw [hvalue]
    constructor
    · rintro rfl
      exact absurd (Json.sizeOf_lt_of_find? hk) (Nat.lt_irrefl _)
    · rintro ⟨_, h, -⟩
      cases h

theorem held?_loaded_eq_iff {document : Json} {p : Player} (h : Player.load document = .ok p)
    {d : Descriptor} (hd : d ∈ discover document .liveTree) :
    p.held? d.layer d.field = some d.value ↔ Static document d := by
  have hvalue := get?_of_mem_discover hd
  obtain ⟨ms, c, hms, hc, hdrawn, -⟩ := load_replace h hvalue
  have hheld : p.held? d.layer d.field = some (c.drawn ms).value := by
    rw [← hdrawn]
    simp [Player.held?, Tree.slot?, hc]
  rw [hheld, Option.some.injEq, value_drawn_eq_iff c (find?_of_propertyPath hvalue hms)]
  constructor
  · rintro ⟨q, hq, hkeyed⟩
    exact ⟨.obj ms, q, hms, hq, hkeyed⟩
  · rintro ⟨j, q, hj, hq, hkeyed⟩
    cases hms.symm.trans hj
    exact ⟨q, hq, hkeyed⟩

namespace Icon

variable {icon icon' : Icon} {calls : List Call} {d : Descriptor}

def Call.isWrite : Call → Bool
  | .setProperty _ _ | .setColor _ _ | .setStroke _ => true
  | _ => false

theorem exists_run_of_isWrite (h : ∀ c ∈ calls, c.isWrite = true) (icon : Icon) :
    ∃ icon', icon.run calls = some icon' := by
  induction calls generalizing icon with
  | nil => exact ⟨icon, rfl⟩
  | cons c calls ih =>
    have hcalls : ∀ c' ∈ calls, c'.isWrite = true := fun c' hc' => h c' (List.mem_cons_of_mem c hc')
    cases c with
    | setProperty name value => exact ih hcalls (icon.setProperty name value).icon
    | setColor name hex => exact ih hcalls (icon.setColor name hex).icon
    | setStroke width => exact ih hcalls (icon.setStroke width).icon
    | _ => cases h _ List.mem_cons_self

theorem run_append (icon : Icon) (calls later : List Call) :
    icon.run (calls ++ later) = (icon.run calls).bind (·.run later) :=
  List.foldlM_append

theorem held?_run_reset (hw : icon.Wired) (h : icon.run calls = some icon') :
    ∃ icon'', icon.run (calls ++ [.reset]) = some icon'' ∧
      ∀ d ∈ icon.controls, icon''.player.held? d.layer d.field = some d.value := by
  have hframe := sameFrame_run hw h
  have hw' := hw.of_sameFrame hframe
  refine ⟨icon'.resetControls.1, ?_, fun d hd => ?_⟩
  · rw [run_append, h]
    rfl
  · exact held?_resetControls hw' (hframe.controls ▸ hd)

/-- Whatever was written to the controls of a loaded icon, a reset gives each of them the value it was
found with. That is what it held when it was loaded, exactly if it is static. -/
theorem reset_restores_iff_static {document : Json} (h : Icon.ofDocument document = .ok icon)
    (hwrites : ∀ c ∈ calls, c.isWrite = true) :
    ∃ icon', icon.run (calls ++ [.reset]) = some icon' ∧ ∀ d ∈ icon.controls,
      Target.get? icon'.player d.path = some d.value ∧
      (Target.get? icon'.player d.path = Target.get? icon.player d.path ↔ Static document d) := by
  have hw := wired_of_ofDocument h
  obtain ⟨icon₁, hrun⟩ := exists_run_of_isWrite hwrites icon
  obtain ⟨icon', hreset, hvalues⟩ := held?_run_reset hw hrun
  obtain ⟨player, hp, rfl⟩ := ofDocument_eq_ok.mp h
  refine ⟨icon', hreset, fun d hd => ?_⟩
  have hvalue := hvalues d hd
  rw [hw.get?_path hd, hw.get?_path hd, hvalue]
  exact ⟨rfl, eq_comm.trans (held?_loaded_eq_iff hp hd)⟩

def variousWrites : List Call :=
  [.setProperty "SIZE" (.num (.int 7)), .setProperty "Axis" (.arr [.num (.int 7), .num (.int 8)]),
    .setProperty "axis" (.num (.int 9)), .setStroke 2.0]

theorem reset_restores_axis : ∃ icon, Icon.ofDocument Json.sizeAndAxis = .ok icon ∧
    (∀ c ∈ variousWrites, c.isWrite = true) ∧
    ∃ icon', icon.run (variousWrites ++ [.reset]) = some icon' ∧
      ∃ d ∈ icon.controls, d.name = "axis" ∧ Static Json.sizeAndAxis d ∧
        Target.get? icon'.player d.path = Target.get? icon.player d.path := by
  obtain ⟨icon, d, h, hd, hname, hstatic⟩ : ∃ icon d, Icon.ofDocument Json.sizeAndAxis = .ok icon ∧
      icon.controls[1]? = some d ∧ d.name = "axis" ∧ Static Json.sizeAndAxis d :=
    ⟨_, _, rfl, rfl, rfl, _, _, rfl, rfl, rfl⟩
  have hwrites : ∀ c ∈ variousWrites, c.isWrite = true := by decide
  obtain ⟨icon', hrun, hvalues⟩ := reset_restores_iff_static h hwrites
  have hmem := List.mem_of_getElem? hd
  exact ⟨icon, h, hwrites, icon', hrun, d, hmem, hname, hstatic, (hvalues d hmem).2.mpr hstatic⟩

/-- A slider with keyframes is loaded with its first sample; a reset gives it the keyframes. -/
theorem reset_does_not_restore_size : ∃ icon icon', Icon.ofDocument Json.sizeAndAxis = .ok icon ∧
    icon.run [.reset] = some icon' ∧ ∃ d ∈ icon.controls,
      Target.get? icon'.player d.path ≠ Target.get? icon.player d.path := by
  refine ⟨_, _, rfl, rfl, _, List.mem_of_getElem? (i := 0) rfl, fun h => ?_⟩
  have hkeyframes := congrArg (·.any isKeyframeList) h
  revert hkeyframes
  decide +kernel

end Icon

end IconMotion
