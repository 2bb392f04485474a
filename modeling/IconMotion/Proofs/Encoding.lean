import IconMotion.Animation.Decode
import IconMotion.Animation.Encode
import IconMotion.Proofs.Formats
import IconMotion.Proofs.Resetting

namespace IconMotion

open Decoder

def Keyframe.singles {τ : Type} (k : Keyframe Float32 τ) : List Float32 :=
  k.time :: ((k.easeIn.toList ++ k.easeOut.toList).flatMap (fun p => [p.x, p.y]) ++
    (k.tangentOut.getD [] ++ k.tangentIn.getD []))

def Track.singles {τ : Type} : Track Float32 τ → List Float32
  | .keyed ks => ks.flatMap Keyframe.singles
  | _ => []

def Effect.properties (e : Effect) : List (Property Json) :=
  (e.values.getD []).filterMap (·.property)

def Layer.properties (l : Layer) : List (Property Json) :=
  (l.effects.getD []).flatMap Effect.properties

def Layer.singles (l : Layer) : List Float32 :=
  [l.inPoint, l.outPoint, l.startTime] ++ l.properties.flatMap (·.track.singles)

def Animation.singles (a : Animation) : List Float32 :=
  [a.inPoint, a.outPoint, a.frameRate] ++ a.layers.flatMap Layer.singles

def Animation.properties (a : Animation) : List (Property Json) := a.layers.flatMap Layer.properties

/-- The track as it is read back: a fixed value that is `null` is written as no value is. -/
def Track.settled {α : Type} : Track α Json → Track α Json
  | .fixed .null => .empty
  | t => t

def Property.settled (p : Property Json) : Property Json := { p with track := p.track.settled }

def EffectValue.settled (v : EffectValue) : EffectValue :=
  { v with property := v.property.map Property.settled }

def Effect.settled (e : Effect) : Effect :=
  { e with values := e.values.map (·.map EffectValue.settled) }

def Layer.settled (l : Layer) : Layer := { l with effects := l.effects.map (·.map Effect.settled) }

def Animation.settled (a : Animation) : Animation := { a with layers := a.layers.map Layer.settled }

/-- Nothing in the track is written as something else is: a fixed value is not read as keyframes,
and no keyframe has `null` for a value. -/
def Track.Readable : Track Float32 Json → Prop
  | .empty => True
  | .fixed v => (toTrack json v).isKeyed = false
  | .keyed ks => ks ≠ [] ∧ ∀ k ∈ ks, k.start ≠ some .null ∧ k.stop ≠ some .null

structure Track.Writable (t : Track Float32 Json) : Prop where
  readable : t.Readable
  finite : ∀ x ∈ t.singles, x.isFinite = true

namespace Encoder

theorem track_settled (t : Track Float32 Json) : track json t.settled = track json t := by
  cases t with
  | fixed v =>
    cases v with
    | _ => rfl
  | _ => rfl

theorem property_settled (p : Property Json) : property json p.settled = property json p := by
  simp only [property, Property.settled, track_settled]

theorem list_map {τ : Type} {e : Encoder τ} {f : τ → τ} (h : ∀ x, e (f x) = e x) (xs : List τ) :
    list e (xs.map f) = list e xs := by
  simp only [list, List.map_map, Function.comp_def, h]

theorem optional_map {τ : Type} {e : Encoder τ} {f : τ → τ} (h : ∀ x, e (f x) = e x)
    (o : Option τ) : optional e (o.map f) = optional e o := by
  cases o with
  | none => rfl
  | some x => exact h x

theorem effectValue_settled (v : EffectValue) : effectValue v.settled = effectValue v := by
  simp only [effectValue, EffectValue.settled, optional_map property_settled]

theorem effect_settled (f : Effect) : effect f.settled = effect f := by
  simp only [effect, Effect.settled, optional_map (list_map effectValue_settled)]

theorem layer_settled (l : Layer) : layer l.settled = layer l := by
  simp only [layer, Layer.settled, optional_map (list_map effect_settled)]

theorem animation_settled (a : Animation) : animation a.settled = animation a := by
  simp only [animation, Animation.settled, list_map layer_settled]

end Encoder

namespace Decoder

variable {τ : Type} {d : Decoder τ} {e : Encoder τ} {f : τ → τ}

theorem natBelow_ofNat {n bound : Nat} (expected : Expected) (h : n < bound) :
    natBelow bound expected (.ofNat n) = .ok n := by
  simp [natBelow, Json.ofNat, h]

theorem byte_encoded (n : UInt8) : byte (Encoder.byte n) = .ok n := by
  simp only [byte, Encoder.byte, natBelow_ofNat .byte n.toNat_lt]
  exact congrArg Except.ok (UInt8.ofNat_toNat)

theorem word32_encoded (n : UInt32) : word32 (Encoder.word32 n) = .ok n := by
  simp only [word32, Encoder.word32, natBelow_ofNat .word32 n.toNat_lt]
  exact congrArg Except.ok (UInt32.ofNat_toNat)

theorem encoded_float32 {x : Float32} (h : x.isFinite = true) :
    Encoder.float32 x = .num (.float (Precision.widen x)) := by
  simp only [Encoder.float32, Json.ofFloat32, Json.ofFloat, Precision.isFinite_widen, h, if_true]

theorem float32_encoded {x : Float32} (h : x.isFinite = true) :
    float32 (Encoder.float32 x) = .ok x := by
  rw [encoded_float32 h]
  exact congrArg Except.ok (Precision.narrow_widen x)

theorem list_encoded {xs : List τ} (h : ∀ x ∈ xs, d (e x) = .ok (f x)) :
    list d (Encoder.list e xs) = .ok (xs.map f) := by
  change (xs.map e).mapM d = .ok (xs.map f)
  induction xs with
  | nil => rfl
  | cons x xs ih =>
    obtain ⟨hx, hxs⟩ := List.forall_mem_cons.mp h
    exact mapM_cons_eq_ok.mpr ⟨f x, hx, xs.map f, ih hxs, rfl⟩

theorem optional_of_ne_null {j : Json} (h : j ≠ .null) : optional d j = some <$> d j := by
  cases j with
  | null => exact absurd rfl h
  | _ => rfl

theorem optional_encoded {o : Option τ} (hnull : ∀ x, e x ≠ .null)
    (h : ∀ x ∈ o, d (e x) = .ok (f x)) : optional d (Encoder.optional e o) = .ok (o.map f) := by
  cases o with
  | none => rfl
  | some x =>
    rw [Encoder.optional, optional_of_ne_null (hnull x), h x rfl]
    rfl

theorem optional_encoded_self {o : Option τ} (hnull : ∀ x, e x ≠ .null)
    (h : ∀ x ∈ o, d (e x) = .ok x) : optional d (Encoder.optional e o) = .ok o := by
  rw [optional_encoded (f := id) hnull h, Option.map_id, id]

theorem bytes_encoded (o : Option UInt8) :
    optional byte (Encoder.optional Encoder.byte o) = .ok o :=
  optional_encoded_self nofun fun n _ => byte_encoded n

theorem words_encoded (o : Option UInt32) :
    optional word32 (Encoder.optional Encoder.word32 o) = .ok o :=
  optional_encoded_self nofun fun n _ => word32_encoded n

theorem texts_encoded (o : Option String) : optional string (Encoder.optional .str o) = .ok o :=
  optional_encoded_self nofun fun _ _ => rfl

theorem handle_encoded {p : Pair Float32} (hx : p.x.isFinite = true) (hy : p.y.isFinite = true) :
    handle (Encoder.pair p) = .ok p := by
  have hcoordinate {x : Float32} (h : x.isFinite = true) : (Encoder.float32 x).coordinate = x := by
    rw [encoded_float32 h]
    exact Precision.narrow_widen x
  change Except.ok (Pair.mk (Encoder.float32 p.x).coordinate (Encoder.float32 p.y).coordinate) = _
  rw [hcoordinate hx, hcoordinate hy]

theorem floats32_encoded {xs : List Float32} (h : ∀ x ∈ xs, x.isFinite = true) :
    floats32 (Encoder.list Encoder.float32 xs) = .ok xs := by
  have hread := list_encoded (f := id) fun x hx => float32_encoded (h x hx)
  rwa [List.map_id] at hread

theorem frameValue_encoded {o : Option Json} (h : o ≠ some .null) :
    frameValue json (Encoder.optional Encoder.json o) = .ok o := by
  cases o with
  | none => rfl
  | some v =>
    cases v with
    | null => exact absurd rfl h
    | _ => rfl

theorem keyframe_encoded {k : Keyframe Float32 Json}
    (hfinite : ∀ x ∈ k.singles, x.isFinite = true) (hstart : k.start ≠ some .null)
    (hstop : k.stop ≠ some .null) :
    keyframe json (Encoder.keyframe Encoder.json k) = .ok k := by
  simp only [Keyframe.singles, List.forall_mem_cons, List.forall_mem_append,
    List.forall_mem_flatMap, Option.mem_toList, List.not_mem_nil, IsEmpty.forall_iff, implies_true,
    and_true] at hfinite
  obtain ⟨htime, ⟨hin, hout⟩, hto, hti⟩ := hfinite
  have hhandle {o : Option (Pair Float32)}
      (h : ∀ p, p ∈ o → p.x.isFinite = true ∧ p.y.isFinite = true) :
      optional handle (Encoder.optional Encoder.pair o) = .ok o :=
    optional_encoded_self nofun fun p hp => handle_encoded (h p hp).1 (h p hp).2
  have hfloats {o : Option (List Float32)} (h : ∀ x ∈ o.getD [], x.isFinite = true) :
      optional floats32 (Encoder.optional (Encoder.list Encoder.float32) o) = .ok o :=
    optional_encoded_self nofun fun xs hxs => floats32_encoded (by rwa [hxs] at h)
  change keyframeOfMembers json _ = _
  simp only [keyframeOfMembers, field?, SortedMap.find?, String.reduceEq, if_false, if_true,
    frameValue_encoded hstart, frameValue_encoded hstop, hhandle hin, hhandle hout, hfloats hto,
    hfloats hti, bytes_encoded, float32_encoded htime, ok_bind, Except.map_ok, present]
  rfl

theorem isKeyframeList_encoded {ks : List (Keyframe Float32 Json)} (h : ks ≠ []) :
    isKeyframeList (Encoder.list (Encoder.keyframe Encoder.json) ks) = true := by
  obtain ⟨k, ks, rfl⟩ := List.exists_cons_of_ne_nil h
  refine List.all_eq_true.mpr fun j hj => ?_
  obtain ⟨k', -, rfl⟩ := List.mem_map.mp hj
  rfl

theorem toTrack_of_keyframes {j : Json} {ks : List (Keyframe Float32 Json)}
    (hlist : isKeyframeList j = true) (hks : list (keyframe json) j = .ok ks) :
    toTrack json j = .keyed ks := by
  obtain ⟨x, xs, rfl, -⟩ := isKeyframeList_eq_true hlist
  simp only [toTrack, hlist, hks, Json.isNull, Bool.false_eq_true, if_false, if_true]

theorem toTrack_encoded {t : Track Float32 Json} (h : t.Writable) :
    toTrack json (Encoder.track Encoder.json t) = t.settled := by
  obtain ⟨hreadable, hfinite⟩ := h
  cases t with
  | empty => rfl
  | fixed v =>
    change toTrack json v = _
    rcases toTrack_cases v with ⟨rfl, hv⟩ | hv | ⟨ks, hv, -⟩
    · exact hv
    · rw [hv]
      cases v with
      | null => cases hv
      | _ => rfl
    · have hkeyed : (toTrack json v).isKeyed = false := hreadable
      rw [hv] at hkeyed
      cases hkeyed
  | keyed ks =>
    obtain ⟨hne, hvalues⟩ := hreadable
    have hlist :
        list (keyframe json) (Encoder.list (Encoder.keyframe Encoder.json) ks) = .ok ks := by
      have hread := list_encoded (d := keyframe json) (f := id) fun k hk =>
        keyframe_encoded (fun x hx => hfinite x (List.mem_flatMap.mpr ⟨k, hk, hx⟩)) (hvalues k hk).1
          (hvalues k hk).2
      rwa [List.map_id] at hread
    exact toTrack_of_keyframes (isKeyframeList_encoded hne) hlist

theorem property_encoded {p : Property Json} (h : p.track.Writable) :
    property json (Encoder.property Encoder.json p) = .ok p.settled := by
  change propertyOfMembers json _ = _
  simp only [propertyOfMembers, field?, SortedMap.find?, String.reduceEq, if_false, if_true,
    byte_encoded, words_encoded, texts_encoded, track, toTrack_encoded h, ok_bind, Except.map_ok]
  rfl

/-- A property is written with its value, so that it is read as a property again. -/
theorem toEffectProperty_encoded {p : Property Json} (h : p.track.Writable) :
    toEffectProperty (Encoder.property Encoder.json p) = p.settled :=
  toEffectProperty_of_read rfl (property_encoded h)

theorem effectValue_encoded {v : EffectValue} (h : ∀ p ∈ v.property, p.track.Writable) :
    effectValue (Encoder.effectValue v) = .ok v.settled := by
  have hproperty : effectProperty (Encoder.optional (Encoder.property Encoder.json) v.property) =
      .ok (v.property.map Property.settled) := by
    cases hv : v.property with
    | none => rfl
    | some p => exact congrArg (Except.ok <| some ·) (toEffectProperty_encoded (h p hv))
  change effectValueOfMembers _ = _
  simp only [effectValueOfMembers, field?, SortedMap.find?, String.reduceEq, if_false, if_true,
    bytes_encoded, words_encoded, texts_encoded, hproperty, ok_bind, Except.map_ok]
  rfl

theorem effect_encoded {e : Effect} (h : ∀ p ∈ e.properties, p.track.Writable) :
    effect (Encoder.effect e) = .ok e.settled := by
  have hvalues : optional (list effectValue)
      (Encoder.optional (Encoder.list Encoder.effectValue) e.values) =
        .ok (e.values.map (·.map EffectValue.settled)) := by
    refine optional_encoded nofun fun vs hvs => list_encoded fun v hv => effectValue_encoded ?_
    refine fun p hp => h p (List.mem_filterMap.mpr ⟨v, ?_, hp⟩)
    rwa [hvs]
  change effectOfMembers _ = _
  simp only [effectOfMembers, field?, SortedMap.find?, String.reduceEq, if_false, if_true,
    bytes_encoded, words_encoded, texts_encoded, hvalues, ok_bind, Except.map_ok]
  rfl

theorem layer_encoded {l : Layer} (hfinite : ∀ x ∈ l.singles, x.isFinite = true)
    (hreadable : ∀ p ∈ l.properties, p.track.Readable) :
    layer (Encoder.layer l) = .ok l.settled := by
  obtain ⟨hrange, hproperties⟩ := List.forall_mem_append.mp hfinite
  have hin := hrange l.inPoint (by simp)
  have hout := hrange l.outPoint (by simp)
  have hstart := hrange l.startTime (by simp)
  have hwritable : ∀ p ∈ l.properties, p.track.Writable := fun p hp =>
    ⟨hreadable p hp, List.forall_mem_flatMap.mp hproperties p hp⟩
  have heffects : optional (list effect)
      (Encoder.optional (Encoder.list Encoder.effect) l.effects) =
        .ok (l.effects.map (·.map Effect.settled)) := by
    refine optional_encoded nofun fun es hes => list_encoded fun e he => effect_encoded ?_
    refine fun p hp => hwritable p (List.mem_flatMap.mpr ⟨e, ?_, hp⟩)
    rwa [hes]
  change layerOfMembers _ = _
  simp only [layerOfMembers, field?, SortedMap.find?, String.reduceEq, if_false, if_true,
    byte_encoded, words_encoded, texts_encoded, float32_encoded hin, float32_encoded hout,
    float32_encoded hstart, heffects, ok_bind, Except.map_ok]
  rfl

/-- An animation that is written is read again, as the settled one. -/
theorem animation_encoded {a : Animation} (hfinite : ∀ x ∈ a.singles, x.isFinite = true)
    (hreadable : ∀ p ∈ a.properties, p.track.Readable) :
    animation (Encoder.animation a) = .ok a.settled := by
  obtain ⟨hrange, hlayers⟩ := List.forall_mem_append.mp hfinite
  have hin := hrange a.inPoint (by simp)
  have hout := hrange a.outPoint (by simp)
  have hrate := hrange a.frameRate (by simp)
  have hlayers : list layer (Encoder.list Encoder.layer a.layers) =
      .ok (a.layers.map Layer.settled) :=
    list_encoded fun l hl => layer_encoded (List.forall_mem_flatMap.mp hlayers l hl)
      (List.forall_mem_flatMap.mp hreadable l hl)
  change animationOfMembers _ = _
  simp only [animationOfMembers, field?, SortedMap.find?, String.reduceEq, if_false, if_true,
    word32_encoded, texts_encoded, float32_encoded hin, float32_encoded hout, float32_encoded hrate,
    hlayers, ok_bind, Except.map_ok, present]
  rfl

end Decoder

end IconMotion
