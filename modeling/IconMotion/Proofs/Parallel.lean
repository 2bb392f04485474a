import IconMotion.Proofs.Discovering
import IconMotion.Proofs.Reading

namespace IconMotion

open Control Decoder Live

namespace Live.Channel

/-- The channel as it is when an object stands where its property is read from. -/
def drawn (c : Channel) (members : List (String × Json)) : Channel :=
  let source := toEffectProperty (.obj members)
  { c with source, value := source.track.sample (0.0 : Float32) id .null }

end Live.Channel

theorem optional_eq_ok {τ : Type} {d : Decoder τ} {j : Json} {r : Option τ} (hj : j ≠ .null) :
    optional d j = .ok r ↔ ∃ y, d j = .ok y ∧ r = some y := by
  have hsome : optional d j = some <$> d j := by
    cases j with
    | null => exact absurd rfl hj
    | _ => rfl
  rw [hsome]
  cases d j with
  | ok y =>
    constructor
    · intro h
      cases h
      exact ⟨y, rfl, rfl⟩
    · rintro ⟨_, h, rfl⟩
      cases h
      rfl
  | error e => exact ⟨nofun, fun ⟨_, h, _⟩ => nomatch h⟩

theorem optional_list_arr {τ : Type} {d : Decoder τ} {xs : List Json} {ys : List τ}
    (h : xs.mapM d = .ok ys) : optional (list d) (.arr xs) = .ok (some ys) :=
  (optional_eq_ok (by simp)).mpr ⟨ys, h, rfl⟩

theorem ne_null_of_get? {j u : Json} {s : Step} {p : Path} (hu : j.get? (s :: p) = some u) :
    j ≠ .null := by
  rintro rfl
  simp [Json.get?, Json.child] at hu

theorem exists_items {τ : Type} {d : Decoder τ} {j u : Json} {ys : List τ} {i : Nat}
    {p : Path} (h : list d j = .ok ys) (hu : j.get? (.index i :: p) = some u) :
    ∃ xs x y, j = .arr xs ∧ xs[i]? = some x ∧ x.get? p = some u ∧ xs.mapM d = .ok ys ∧
      d x = .ok y ∧ ys[i]? = some y := by
  obtain ⟨x, hx, hxu⟩ := Json.get?_cons_eq_some.mp hu
  cases j with
  | arr xs =>
    have hi : xs[i]? = some x := by
      cases hi : xs[i]? <;> simp [Json.child, hi] at hx
      rw [hx]
    obtain ⟨y, hy, hget⟩ := exists_of_mapM h hi
    exact ⟨xs, x, y, rfl, hi, hxu, h, hy, hget⟩
  | _ => cases h

theorem effectValue_replace {j u : Json} {ev : EffectValue} (h : effectValue j = .ok ev)
    (hu : j.get? [.key "v", .key "k"] = some u) :
    ∃ ms, j.get? [.key "v"] = some (.obj ms) ∧ Channel.ofValue ev = (Channel.ofValue ev).drawn ms ∧
      ∀ v, ∃ ev', effectValue (j.replace [.key "v", .key "k"] v) = .ok ev' ∧
        Channel.ofValue ev' = (Channel.ofValue ev).drawn (SortedMap.insert ms "k" v) := by
  obtain ⟨value, c, rfl, hv, hc⟩ := Json.exists_members hu
  obtain ⟨ms, k, rfl, hk, -⟩ := Json.exists_members hc
  have hread : effectValueOfMembers value = .ok ev := h
  have hprop : some (toEffectProperty (.obj ms)) = ev.property :=
    Except.ok.inj (property_of_effectValueOfMembers hread hv)
  refine ⟨ms, by simp [Json.get?, Json.child, Step.text, hv], ?_, fun v => ?_⟩
  · simp only [Channel.ofValue, Channel.drawn, ← hprop]
    rfl
  · rw [Json.replace_obj (s := .key "v") hv hc, Json.replace_obj (s := .key "k") hk rfl]
    exact ⟨_, effectValueOfMembers_insert hread rfl, rfl⟩

theorem effect_replace {j u : Json} {e : IconMotion.Effect} (h : effect j = .ok e)
    (hu : j.get? valuePath = some u) :
    ∃ ms c, j.get? valuePath.dropLast = some (.obj ms) ∧ (Effect.ofEffect e).channels[0]? = some c ∧
      c = c.drawn ms ∧
      ∀ v, ∃ e', effect (j.replace valuePath v) = .ok e' ∧
        Effect.ofEffect e' = { Effect.ofEffect e with
          channels := (Effect.ofEffect e).channels.modify 0 fun c =>
            c.drawn (SortedMap.insert ms "k" v) } := by
  obtain ⟨field, c, rfl, hef, hc⟩ := Json.exists_members hu
  have hread : effectOfMembers field = .ok e := h
  obtain ⟨ys, hlist, hsome⟩ :=
    (optional_eq_ok (ne_null_of_get? hc)).mp (values_of_effectOfMembers hread hef)
  obtain ⟨xs, x, ev, rfl, hx, hxu, hys, hev, hget⟩ := exists_items hlist hc
  obtain ⟨ms, hms, hdrawn, hset⟩ := effectValue_replace hev hxu
  have hchannels : (Effect.ofEffect e).channels = ys.map .ofValue := by
    simp only [Effect.ofEffect, hsome, Option.getD_some]
  refine ⟨ms, .ofValue ev, ?_, ?_, hdrawn, fun v => ?_⟩
  · simpa [valuePath, Json.get?, Json.child, Step.text, hef, hx] using hms
  · simp [hchannels, hget]
  · obtain ⟨ev', hev', hof⟩ := hset v
    have hreplace : (Json.obj field).replace valuePath v =
        .obj (SortedMap.insert field "ef" (.arr (xs.set 0 (x.replace [.key "v", .key "k"] v)))) := by
      rw [valuePath, Json.replace_obj (s := .key "ef") hef hc, Json.replace_arr hx hxu]
      rfl
    rw [hreplace]
    refine ⟨_, effectOfMembers_insert hread (optional_list_arr (mapM_set hys 0 hev')), ?_⟩
    rw [hchannels, ← map_set_eq_modify hget hof]
    rfl

theorem layer_replace {j u : Json} {l : IconMotion.Layer} {field : Nat} (h : Decoder.layer j = .ok l)
    (hu : j.get? (.key "ef" :: .index field :: valuePath) = some u) :
    ∃ ms e c, j.get? (.key "ef" :: .index field :: valuePath.dropLast) = some (.obj ms) ∧
      (Layer.ofLayer l).effects[field]? = some e ∧ e.channels[0]? = some c ∧ c = c.drawn ms ∧
      ∀ v, ∃ l', Decoder.layer (j.replace (.key "ef" :: .index field :: valuePath) v) = .ok l' ∧
        Layer.ofLayer l' = { Layer.ofLayer l with
          effects := (Layer.ofLayer l).effects.modify field fun e => { e with
            channels := e.channels.modify 0 fun c => c.drawn (SortedMap.insert ms "k" v) } } := by
  obtain ⟨layer, c, rfl, hef, hc⟩ := Json.exists_members hu
  have hread : layerOfMembers layer = .ok l := h
  obtain ⟨ys, hlist, hsome⟩ :=
    (optional_eq_ok (ne_null_of_get? hc)).mp (effects_of_layerOfMembers hread hef)
  obtain ⟨xs, x, e, rfl, hx, hxu, hys, he, hget⟩ := exists_items hlist hc
  obtain ⟨ms, ch, hms, hch, hdrawn, hset⟩ := effect_replace he hxu
  have heffects : (Layer.ofLayer l).effects = ys.map .ofEffect := by
    simp only [Layer.ofLayer, hsome, Option.getD_some]
  refine ⟨ms, .ofEffect e, ch, ?_, by simp [heffects, hget], hch, hdrawn, fun v => ?_⟩
  · simpa [Json.get?, Json.child, Step.text, hef, hx] using hms
  · obtain ⟨e', he', hof⟩ := hset v
    rw [Json.replace_obj (s := .key "ef") hef hc, Json.replace_arr hx hxu]
    refine ⟨_, layerOfMembers_insert hread (optional_list_arr (mapM_set hys field he')), ?_⟩
    rw [heffects, ← map_set_eq_modify hget hof]
    rfl

/-- Reading a document in which another value stands at the address of a control: the same animation,
but for the channel of the control, which is drawn from the new value. -/
theorem animation_replace {document u : Json} {a : Animation} {layer field : Nat}
    (h : Decoder.animation document = .ok a)
    (hu : document.get? (Scope.document.address layer field) = some u) :
    ∃ ms c, document.get? (Scope.document.address layer field).dropLast = some (.obj ms) ∧
      (Tree.ofAnimation a).channel? layer field 0 = some c ∧ c = c.drawn ms ∧
      ∀ v, ∃ layers,
        Decoder.animation (document.replace (Scope.document.address layer field) v) =
          .ok { a with layers } ∧
        Tree.ofAnimation { a with layers } =
          (Tree.ofAnimation a).modifyChannel layer field 0 fun c =>
            c.drawn (SortedMap.insert ms "k" v) := by
  obtain ⟨root, c, rfl, hlayers, hc⟩ := Json.exists_members hu
  have hread : animationOfMembers root = .ok a := h
  obtain ⟨xs, x, l, rfl, hx, hxu, hys, hl, hget⟩ :=
    exists_items (layers_of_animationOfMembers hread hlayers) hc
  obtain ⟨ms, e, ch, hms, he, hch, hdrawn, hset⟩ := layer_replace hl hxu
  refine ⟨ms, ch, ?_, ?_, hdrawn, fun v => ?_⟩
  · simpa [Scope.address, valuePath, Json.get?, Json.child, Step.text, hlayers, hx] using hms
  · simp [Tree.channel?, Tree.ofAnimation, hget, he, hch]
  · obtain ⟨l', hl', hof⟩ := hset v
    have hreplace : (Json.obj root).replace (Scope.document.address layer field) v = .obj
        (SortedMap.insert root "layers" (.arr (xs.set layer
          (x.replace (.key "ef" :: .index field :: valuePath) v)))) := by
      change (Json.obj root).replace (.key "layers" :: .index layer :: _) v = _
      rw [Json.replace_obj (s := .key "layers") hlayers hc, Json.replace_arr hx hxu]
      rfl
    rw [hreplace]
    refine ⟨_, animationOfMembers_insert hread (mapM_set hys layer hl'), ?_⟩
    exact map_set_eq_modify hget hof

theorem sample_toTrack {v : Json} (h : isKeyframeList v = false) (frame : Float32) :
    (toTrack json v).sample frame id Json.null = v := by
  cases v with
  | null => rfl
  | _ =>
    simp only [toTrack, h]
    rfl

theorem isKeyed_toTrack {v : Json} (h : isKeyframeList v = false) :
    (toTrack json v).isKeyed = false := by
  cases v with
  | null => rfl
  | _ =>
    simp only [toTrack, h]
    rfl

theorem toEffectProperty_of_read {ms : List (String × Json)} {q : Property Json} {u : Json}
    (hk : SortedMap.find? ms "k" = some u) (hq : propertyOfMembers json ms = .ok q) :
    toEffectProperty (.obj ms) = q := by
  have hq : property json (.obj ms) = .ok q := hq
  simp only [toEffectProperty, Json.member?, hk, Option.isSome_some, if_true, hq]

theorem track_drawn {ms : List (String × Json)} {q : Property Json} {u : Json} (c : Channel)
    (hk : SortedMap.find? ms "k" = some u) (hq : propertyOfMembers json ms = .ok q) :
    (c.drawn ms).source.track = toTrack json u := by
  simp only [Channel.drawn, toEffectProperty_of_read hk hq]
  exact track_of_propertyOfMembers hq hk

theorem value_drawn {ms : List (String × Json)} {q : Property Json} {u : Json} (c : Channel)
    (hk : SortedMap.find? ms "k" = some u) (hq : propertyOfMembers json ms = .ok q)
    (hu : isKeyframeList u = false) : (c.drawn ms).value = u :=
  (congrArg (Track.sample · (0.0 : Float32) id Json.null) (track_drawn c hk hq)).trans
    (sample_toTrack hu _)

namespace Control

def propertyPath (layer field : Nat) : Path := (Scope.document.address layer field).dropLast

/-- The property of a control can be read, and its value is no list of keyframes. -/
structure Still (document : Json) (d : Descriptor) : Prop where
  readable : ∃ j q, document.get? (propertyPath d.layer d.field) = some j ∧ property json j = .ok q
  unkeyed : isKeyframeList d.value = false

end Control

theorem find?_of_propertyPath {document u : Json} {layer field : Nat} {ms : List (String × Json)}
    (hu : document.get? (Scope.document.address layer field) = some u)
    (hms : document.get? (propertyPath layer field) = some (.obj ms)) :
    SortedMap.find? ms "k" = some u := by
  have happend : Scope.document.address layer field = propertyPath layer field ++ [.key "k"] := rfl
  rw [happend, Json.get?_append, hms, Option.bind_some] at hu
  obtain ⟨ms', c, hobj, hc, hcu⟩ := Json.exists_members hu
  cases hobj
  cases hcu
  exact hc

theorem load_eq_ok {document : Json} {p : Player} :
    Player.load document = .ok p ↔ ∃ a, Decoder.animation document = .ok a ∧
      (a.frameRate == 0.0) = false ∧ p = Player.ofAnimation a (findBindings document) := by
  cases ha : Decoder.animation document with
  | error e => simp [Player.load, ha]
  | ok a =>
    cases hr : a.frameRate == 0.0 with
    | true => simp [Player.load, ha, hr]
    | false =>
      simp only [Player.load, ha, hr, Except.ok.injEq, Bool.false_eq_true, if_false]
      constructor
      · rintro rfl
        exact ⟨a, rfl, hr, rfl⟩
      · rintro ⟨_, rfl, -, rfl⟩
        rfl

theorem load_replace {document u : Json} {p : Player} {layer field : Nat}
    (h : Player.load document = .ok p)
    (hu : document.get? (Scope.document.address layer field) = some u) :
    ∃ ms c, document.get? (propertyPath layer field) = some (.obj ms) ∧
      p.tree.channel? layer field 0 = some c ∧ c = c.drawn ms ∧
      ∀ v, ∃ p', Player.load (document.replace (Scope.document.address layer field) v) = .ok p' ∧
        p'.tree = p.tree.modifyChannel layer field 0 fun c => c.drawn (SortedMap.insert ms "k" v) := by
  obtain ⟨a, ha, hrate, rfl⟩ := load_eq_ok.mp h
  obtain ⟨ms, c, hms, hc, hdrawn, hset⟩ := animation_replace ha hu
  refine ⟨ms, c, hms, hc, hdrawn, fun v => ?_⟩
  obtain ⟨layers, hread, htree⟩ := hset v
  exact ⟨_, load_eq_ok.mpr ⟨_, hread, hrate, rfl⟩, htree⟩

theorem write_document {document u : Json} {x : Descriptor}
    (hu : document.get? (Scope.document.address x.layer x.field) = some u) (w : Json) :
    (write document [x.inScope .document] w).1 = match x.kind.written? u w with
      | some v => document.replace (Scope.document.address x.layer x.field) v
      | none => document :=
  Json.putAll_eq (d := x.inScope .document) hu w

theorem write_live {p : Player} {u : Json} {x : Descriptor} (hx : x.IsLive)
    (hu : p.held? x.layer x.field = some u) (w : Json) :
    (write p [x] w).1 = p.hold x.layer x.field (x.kind.after u w) :=
  Player.putAll_eq hx hu w

theorem loaded_of_still {document : Json} {p : Player} (h : Player.load document = .ok p)
    {x : Descriptor} (hx : x ∈ discover document .liveTree) (hstill : Still document x) :
    p.held? x.layer x.field = some x.value ∧ p.tree.Unkeyed x.layer x.field 0 := by
  have hvalue := get?_of_mem_discover hx
  obtain ⟨ms, c, hms, hc, hdrawn, -⟩ := load_replace h hvalue
  obtain ⟨j, q, hj, hq⟩ := hstill.readable
  rw [hms] at hj
  cases hj
  have hk := find?_of_propertyPath hvalue hms
  constructor
  · have hcvalue : c.value = x.value := by
      rw [hdrawn]
      exact value_drawn c hk hq hstill.unkeyed
    simp [Player.held?, Tree.slot?, hc, hcvalue]
  · intro track htrack
    have hctrack : c.source.track = toTrack json x.value := by
      rw [hdrawn]
      exact track_drawn c hk hq
    rw [Tree.track?, hc, Option.map_some, hctrack] at htrack
    cases htrack
    exact isKeyed_toTrack hstill.unkeyed

theorem load_write {document : Json} {p : Player} (h : Player.load document = .ok p)
    {x : Descriptor} (hx : x ∈ discover document .liveTree) (hstill : Still document x) {w : Json}
    (hw : ∀ v, (write document [x.inScope .document] w).1.get? (x.inScope .document).path = some v →
      isKeyframeList v = false) :
    ∃ p', Player.load (write document [x.inScope .document] w).1 = .ok p' ∧
      p'.tree.slots = (write p [x] w).1.tree.slots := by
  have hvalue := get?_of_mem_discover hx
  obtain ⟨hheld, -⟩ := loaded_of_still h hx hstill
  obtain ⟨ms, c, hms, -, -, hset⟩ := load_replace h hvalue
  obtain ⟨j, q, hj, hq⟩ := hstill.readable
  rw [hms] at hj
  cases hj
  rw [write_live (path_of_mem_discover hx) hheld]
  rw [write_document hvalue] at hw ⊢
  -- The document and the live tree hold the same value, so they accept and refuse alike.
  cases hwritten : x.kind.written? x.value w with
  | none =>
    rw [Kind.after, hwritten, Option.getD_none, Player.hold_self hheld]
    exact ⟨p, h, rfl⟩
  | some v =>
    rw [Kind.after, hwritten, Option.getD_some]
    simp only [hwritten] at hw
    obtain ⟨p', hp', htree⟩ := hset v
    refine ⟨p', hp', ?_⟩
    have hv : isKeyframeList v = false := hw v (Json.get?_replace_self hvalue v)
    have hinsert := SortedMap.find?_insert_self ms "k" v
    have hdrawnValue : ∀ c : Channel, (c.drawn (SortedMap.insert ms "k" v)).value = v := fun c =>
      value_drawn c hinsert (propertyOfMembers_insert v hq) hv
    have hslots := Tree.slots_modifyChannel (t := p.tree) (i := x.layer) (j := x.field) (k := 0)
      (f := fun c => { c with value := v }) (v := v) fun _ _ => rfl
    rw [htree, Tree.slots_modifyChannel fun c _ => hdrawnValue c]
    exact hslots.symm

/-- Each control of a document that loads is in the live tree too. Where its property can be read and
is no list of keyframes, it starts there with the same value; and writing to the document before
loading is the same as loading and then writing to the live tree, unless the write leaves keyframes. -/
theorem document_parallels_tree {document : Json} {p : Player} (h : Player.load document = .ok p)
    {x : Descriptor} (hx : x ∈ discover document .liveTree) :
    (∃ v, Target.get? p x.path = some v) ∧
      (Still document x →
        Target.get? p x.path = some x.value ∧
        ∀ w, (∀ v, (write document [x.inScope .document] w).1.get? (x.inScope .document).path = some v →
            isKeyframeList v = false) →
          ∃ p', Player.load (write document [x.inScope .document] w).1 = .ok p' ∧
            p'.tree.slots = (write p [x] w).1.tree.slots) := by
  have hpath := path_of_mem_discover hx
  obtain ⟨_, c, -, hc, -, -⟩ := load_replace h (get?_of_mem_discover hx)
  rw [hpath, Player.get?_address]
  refine ⟨⟨c.value, ?_⟩, fun hstill => ⟨(loaded_of_still h hx hstill).1, fun w hw => ?_⟩⟩
  · simp [Player.held?, Tree.slot?, hc]
  · exact load_write h hx hstill hw

def Json.rig (fields : List Json) : Json :=
  .obj [("fr", .num (.int 10)), ("h", .num (.int 8)), ("ip", .num (.int 0)),
    ("layers", .arr [.obj [("ef", .arr fields), ("nm", .str "Controls")]]),
    ("op", .num (.int 20)), ("w", .num (.int 8))]

def Json.rigField (name matchName : String) (k : Json) : Json :=
  .obj [("ef", .arr [.obj [("v", .obj [("k", k)])]]), ("mn", .str matchName), ("nm", .str name)]

def Json.sizeAndAxis : Json :=
  .rig [.rigField "Size" "ADBE Slider Control"
      (.arr [.obj [("s", .arr [.num (.int 3)]), ("t", .num (.int 0))]]),
    .rigField "Axis" "ADBE Point Control" (.arr [.num (.int 1), .num (.int 2)])]

theorem document_parallels_tree_at_axis : ∃ p, Player.load Json.sizeAndAxis = .ok p ∧
    ∃ x ∈ discover Json.sizeAndAxis .liveTree, Still Json.sizeAndAxis x ∧
      Target.get? p x.path = some x.value ∧
      ∃ p', Player.load (write Json.sizeAndAxis [x.inScope .document]
          (.arr [.num (.int 7), .num (.int 8)])).1 = .ok p' ∧
        p'.tree.slots = (write p [x] (.arr [.num (.int 7), .num (.int 8)])).1.tree.slots := by
  obtain ⟨p, hp⟩ : ∃ p, Player.load Json.sizeAndAxis = .ok p := ⟨_, rfl⟩
  obtain ⟨x, hx, hstill, hwritten⟩ : ∃ x ∈ discover Json.sizeAndAxis .liveTree,
      Still Json.sizeAndAxis x ∧ (write Json.sizeAndAxis [x.inScope .document]
        (.arr [.num (.int 7), .num (.int 8)])).1.get? (x.inScope .document).path =
          some (.arr [.num (.int 7), .num (.int 8)]) :=
    ⟨_, List.mem_of_getElem? (i := 1) rfl, ⟨⟨_, _, rfl, rfl⟩, rfl⟩, rfl⟩
  obtain ⟨hheld, hwrite⟩ := (document_parallels_tree hp hx).2 hstill
  refine ⟨p, hp, x, hx, hstill, hheld, hwrite _ fun v hv => ?_⟩
  cases hwritten.symm.trans hv
  rfl

end IconMotion
