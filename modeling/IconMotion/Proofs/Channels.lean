import IconMotion.Control.Basic
import IconMotion.Live.Player
import IconMotion.Proofs.Walk

namespace IconMotion

section Lists

variable {α β : Type} {l : List α} {i : Nat} {f : α → α}

theorem map_modify {g : α → β} {f' : β → β} (h : ∀ x, l[i]? = some x → g (f x) = f' (g x)) :
    (l.modify i f).map g = (l.map g).modify i f' := by
  induction l generalizing i with
  | nil => simp
  | cons x l ih =>
    cases i with
    | zero => simpa using h x rfl
    | succ i => simpa using ih (i := i) (by simpa using h)

theorem map_set_eq_modify {x y : α} {g : α → β} {f' : β → β} (hx : l[i]? = some x)
    (h : g y = f' (g x)) : (l.set i y).map g = (l.map g).modify i f' := by
  induction l generalizing i with
  | nil => simp at hx
  | cons z l ih =>
    cases i with
    | zero =>
      obtain rfl : z = x := by simpa using hx
      simp [h]
    | succ i => simpa using ih (i := i) (by simpa using hx)

theorem modify_of_fixed (h : ∀ x, l[i]? = some x → f x = x) : l.modify i f = l := by
  induction l generalizing i with
  | nil => simp
  | cons x l ih =>
    cases i with
    | zero => simp [h x rfl]
    | succ i => simpa using ih (i := i) (by simpa using h)

end Lists

namespace Live.Tree

def channel? (t : Tree) (i j k : Nat) : Option Channel :=
  t[i]?.bind fun l => l.effects[j]?.bind fun e => e.channels[k]?

def slot? (t : Tree) (i j k : Nat) : Option Json := (t.channel? i j k).map (·.value)

def track? (t : Tree) (i j k : Nat) : Option (Track Float32 Json) :=
  (t.channel? i j k).map (·.source.track)

/-- A slot is not sampled from keyframes. -/
def Unkeyed (t : Tree) (i j k : Nat) : Prop :=
  ∀ track, t.track? i j k = some track → track.isKeyed = false

def slots (t : Tree) : List (List (List Json)) :=
  t.map fun l => l.effects.map fun e => e.channels.map (·.value)

def modifyChannel (t : Tree) (i j k : Nat) (f : Channel → Channel) : Tree :=
  t.modify i fun l =>
    { l with effects := l.effects.modify j fun e => { e with channels := e.channels.modify k f } }

theorem put_eq_modifyChannel (t : Tree) (place : Place) (v : Json) :
    t.put place v =
      t.modifyChannel place.layer place.effect place.channel fun c => { c with value := v } := rfl

theorem channel?_modifyChannel_self (t : Tree) (i j k : Nat) (f : Channel → Channel) :
    (t.modifyChannel i j k f).channel? i j k = (t.channel? i j k).map f := by
  cases hl : t[i]? with
  | none => simp [channel?, modifyChannel, hl]
  | some l => cases he : l.effects[j]? <;> simp [channel?, modifyChannel, hl, he]

theorem channel?_modifyChannel_of_ne (t : Tree) {i j k i' j' k' : Nat} (f : Channel → Channel)
    (h : (i, j, k) ≠ (i', j', k')) :
    (t.modifyChannel i j k f).channel? i' j' k' = t.channel? i' j' k' := by
  simp only [channel?, modifyChannel]
  by_cases hi : i = i'
  · subst hi
    cases hl : t[i]? with
    | none => simp [hl]
    | some l =>
      by_cases hj : j = j'
      · subst hj
        have hk : k ≠ k' := fun e => h (by rw [e])
        cases he : l.effects[j]? <;> simp [hl, he, List.getElem?_modify_ne _ _ hk]
      · simp [hl, List.getElem?_modify_ne _ _ hj]
  · rw [List.getElem?_modify_ne _ _ hi]

theorem modifyChannel_comm (t : Tree) {i j k i' j' k' : Nat} (f g : Channel → Channel)
    (h : (i, j, k) ≠ (i', j', k')) :
    (t.modifyChannel i j k f).modifyChannel i' j' k' g =
      (t.modifyChannel i' j' k' g).modifyChannel i j k f := by
  unfold modifyChannel
  by_cases hi : i = i'
  · subst hi
    simp only [List.modify_modify_eq, Function.comp_def]
    by_cases hj : j = j'
    · subst hj
      have hk : k ≠ k' := fun e => h (by rw [e])
      simp only [List.modify_modify_eq, Function.comp_def, List.modify_modify_ne _ _ _ hk]
    · simp only [List.modify_modify_ne _ _ _ hj]
  · exact List.modify_modify_ne _ _ _ hi

/-- Only the new value of a changed channel shows in the slots. -/
theorem slots_modifyChannel {t : Tree} {i j k : Nat} {f : Channel → Channel} {v : Json}
    (h : ∀ c, t.channel? i j k = some c → (f c).value = v) :
    (t.modifyChannel i j k f).slots =
      t.slots.modify i fun es => es.modify j fun cs => cs.modify k fun _ => v := by
  refine map_modify fun l hl => map_modify fun e he => map_modify fun c hc => h c ?_
  simp [channel?, hl, he, hc]

theorem slot?_put_self (t : Tree) (place : Place) (v : Json) :
    (t.put place v).slot? place.layer place.effect place.channel =
      (t.slot? place.layer place.effect place.channel).map fun _ => v := by
  simp only [slot?, put_eq_modifyChannel, channel?_modifyChannel_self, Option.map_map]
  rfl

theorem slot?_put_of_ne (t : Tree) {place : Place} {i j k : Nat} (v : Json)
    (h : (place.layer, place.effect, place.channel) ≠ (i, j, k)) :
    (t.put place v).slot? i j k = t.slot? i j k := by
  simp only [slot?, put_eq_modifyChannel, channel?_modifyChannel_of_ne t _ h]

theorem put_put_of_ne (t : Tree) {place there : Place} (v w : Json)
    (h : (place.layer, place.effect, place.channel) ≠ (there.layer, there.effect, there.channel)) :
    (t.put place v).put there w = (t.put there w).put place v := by
  simp only [put_eq_modifyChannel, modifyChannel_comm t _ _ h]

theorem track?_put (t : Tree) (place : Place) (v : Json) (i j k : Nat) :
    (t.put place v).track? i j k = t.track? i j k := by
  by_cases h : (place.layer, place.effect, place.channel) = (i, j, k)
  · obtain ⟨rfl, rfl, rfl⟩ : place.layer = i ∧ place.effect = j ∧ place.channel = k := by
      simpa using h
    simp only [track?, put_eq_modifyChannel, channel?_modifyChannel_self, Option.map_map]
    rfl
  · simp only [track?, put_eq_modifyChannel, channel?_modifyChannel_of_ne t _ h]

theorem channel?_update {t : Tree} {i j k : Nat} {c : Channel} (frame : Float32)
    (h : t.channel? i j k = some c) :
    ∃ l, t[i]? = some l ∧
      (t.update frame).channel? i j k = some (c.update (frame - l.startTime)) := by
  obtain ⟨l, hl, h⟩ := Option.bind_eq_some_iff.mp h
  obtain ⟨e, he, hc⟩ := Option.bind_eq_some_iff.mp h
  refine ⟨l, hl, ?_⟩
  simp [channel?, update, Layer.update, Effect.update, hl, he, hc]

theorem channel?_update_eq_none {t : Tree} {i j k : Nat} (frame : Float32)
    (h : t.channel? i j k = none) : (t.update frame).channel? i j k = none := by
  cases hl : t[i]? with
  | none => simp [channel?, update, hl]
  | some l =>
    cases he : l.effects[j]? with
    | none => simp [channel?, update, Layer.update, hl, he]
    | some e =>
      have hc : e.channels[k]? = none := by simpa [channel?, hl, he] using h
      simp [channel?, update, Layer.update, Effect.update, hl, he, hc]

theorem track?_update (t : Tree) (frame : Float32) (i j k : Nat) :
    (t.update frame).track? i j k = t.track? i j k := by
  cases h : t.channel? i j k with
  | none => simp only [track?, channel?_update_eq_none frame h, h]
  | some c =>
    obtain ⟨l, -, hc⟩ := channel?_update frame h
    simp only [track?, hc, h, Option.map_some, Channel.update]
    split <;> rfl

theorem slot?_update_of_unkeyed {t : Tree} {i j k : Nat} (frame : Float32) (h : t.Unkeyed i j k) :
    (t.update frame).slot? i j k = t.slot? i j k := by
  cases hc : t.channel? i j k with
  | none => simp only [slot?, channel?_update_eq_none frame hc, hc]
  | some c =>
    have hk : c.isKeyed = false := h _ (by simp [track?, hc])
    obtain ⟨l, -, hu⟩ := channel?_update frame hc
    simp only [slot?, hu, hc, Channel.update, hk]
    rfl

end Live.Tree

namespace Live

def Place.slotPath (place : Place) : Path :=
  [.key "renderer", .key "elements", .index place.layer, .key "effectsManager",
    .key "effectElements", .index place.effect, .key "effectElements", .index place.channel,
    .key "p", .key "v"]

theorem Place.ofPath?_eq_some {path : Path} {place : Place} :
    Place.ofPath? path = some place ↔ path = place.slotPath ++ place.rest := by
  constructor
  · intro h
    unfold ofPath? at h
    split at h
    · split at h
      next hkeys =>
        cases h
        simp only [keys, List.map_cons, List.map_nil, List.cons.injEq] at hkeys
        obtain ⟨rfl, rfl, rfl, rfl, rfl, rfl, rfl, -⟩ := hkeys
        rfl
      · cases h
    · cases h
  · rintro rfl
    rfl

theorem Place.length_of_ofPath? {path : Path} {place : Place} (h : Place.ofPath? path = some place) :
    path.length = place.rest.length + 10 := by
  rw [ofPath?_eq_some.mp h, List.length_append, Nat.add_comm]
  rfl

namespace Tree

variable {t : Tree} {path : Path} {place : Place}

theorem locate_of_no_place (h : Place.ofPath? path = none) :
    t.locate path = .error (.unaddressable path) := by
  simp only [locate, h]

theorem locate_of_channel {c : Channel} (hplace : Place.ofPath? path = some place)
    (h : t.channel? place.layer place.effect place.channel = some c) :
    t.locate path = .ok ⟨c.value, t.put place, place.rest⟩ := by
  obtain ⟨l, hl, h⟩ := Option.bind_eq_some_iff.mp h
  obtain ⟨e, he, hc⟩ := Option.bind_eq_some_iff.mp h
  simp only [locate, hplace, hl, he, hc]

theorem locate_of_no_channel (hplace : Place.ofPath? path = some place)
    (h : t.channel? place.layer place.effect place.channel = none) :
    ∃ step, t.locate path = .error (Obstacle.missing.toError path step) := by
  cases hl : t[place.layer]? with
  | none => exact ⟨2, by simp only [locate, hplace, hl]⟩
  | some l =>
    cases he : l.effects[place.effect]? with
    | none => exact ⟨5, by simp only [locate, hplace, hl, he]⟩
    | some e =>
      have hc : e.channels[place.channel]? = none := by simpa [channel?, hl, he] using h
      exact ⟨7, by simp only [locate, hplace, hl, he, hc]⟩

/-- What a path into the tree leads to is the slot of its place. -/
theorem locate_eq_ok {slot : Slot Tree} : t.locate path = .ok slot ↔
    ∃ place c, Place.ofPath? path = some place ∧
      t.channel? place.layer place.effect place.channel = some c ∧
      slot = ⟨c.value, t.put place, place.rest⟩ := by
  constructor
  · intro h
    cases hplace : Place.ofPath? path with
    | none => cases (locate_of_no_place hplace).symm.trans h
    | some place =>
      cases hc : t.channel? place.layer place.effect place.channel with
      | none =>
        obtain ⟨step, hstep⟩ := locate_of_no_channel hplace hc
        cases hstep.symm.trans h
      | some c =>
        have hslot := (locate_of_channel hplace hc).symm.trans h
        exact ⟨place, c, rfl, hc, (Except.ok.inj hslot).symm⟩
  · rintro ⟨place, c, hplace, hc, rfl⟩
    exact locate_of_channel hplace hc

end Tree

end Live

namespace Player

open Live

variable {p : Player} {path : Path} {place : Place}

theorem get?_of_no_place (h : Place.ofPath? path = none) : Target.get? p path = none := by
  simp only [Target.get?, Target.locate, Tree.locate_of_no_place h]

theorem get?_of_place (h : Place.ofPath? path = some place) : Target.get? p path =
    (p.tree.slot? place.layer place.effect place.channel).bind (·.get? place.rest) := by
  cases hc : p.tree.channel? place.layer place.effect place.channel with
  | none =>
    obtain ⟨step, hstep⟩ := Tree.locate_of_no_channel h hc
    simp [Target.get?, Target.locate, Tree.slot?, hstep, hc]
  | some c => simp [Target.get?, Target.locate, Tree.slot?, Tree.locate_of_channel h hc, hc]

/-- Inside a slot the steps of a path are counted on from those that lead to it. -/
theorem set_of_slot {u : Json} (h : Place.ofPath? path = some place)
    (hu : p.tree.slot? place.layer place.effect place.channel = some u) (v : Json) :
    Target.set p path v = match u.set place.rest v with
      | .ok w => .ok { p with tree := p.tree.put place w }
      | .error (n, o) => .error (o.toError path (10 + n)) := by
  obtain ⟨c, hc, rfl⟩ := Option.map_eq_some_iff.mp hu
  have hlength : path.length - place.rest.length = 10 := by
    rw [Place.length_of_ofPath? h, Nat.add_sub_cancel_left]
  cases hw : c.value.set place.rest v with
  | ok w | error e =>
    simp only [Target.set, Target.locate, Tree.locate_of_channel h hc, hlength, hw]

theorem set_eq_ok {p' : Player} {v : Json} : Target.set p path v = .ok p' ↔
    ∃ place u w, Place.ofPath? path = some place ∧
      p.tree.slot? place.layer place.effect place.channel = some u ∧ u.set place.rest v = .ok w ∧
      p' = { p with tree := p.tree.put place w } := by
  constructor
  · intro h
    cases hplace : Place.ofPath? path with
    | none => simp [Target.set, Target.locate, Tree.locate_of_no_place hplace] at h
    | some place =>
      cases hu : p.tree.slot? place.layer place.effect place.channel with
      | none =>
        obtain ⟨step, hstep⟩ := Tree.locate_of_no_channel hplace (Option.map_eq_none_iff.mp hu)
        simp [Target.set, Target.locate, hstep] at h
      | some u =>
        rw [set_of_slot hplace hu] at h
        cases hw : u.set place.rest v with
        | ok w =>
          rw [hw] at h
          exact ⟨place, u, w, rfl, hu, hw, (Except.ok.inj h).symm⟩
        | error e => simp [hw] at h
  · rintro ⟨place, u, w, hplace, hu, hw, rfl⟩
    rw [set_of_slot hplace hu, hw]

end Player

open Control Live

theorem ofPath?_address (layer field : Nat) (rest : Path) :
    Place.ofPath? (Scope.liveTree.address layer field ++ rest) = some ⟨layer, field, 0, rest⟩ := rfl

namespace Player

def held? (p : Player) (layer field : Nat) : Option Json := p.tree.slot? layer field 0

def hold (p : Player) (layer field : Nat) (v : Json) : Player :=
  { p with tree := p.tree.put ⟨layer, field, 0, []⟩ v }

theorem get?_address (p : Player) (layer field : Nat) :
    Target.get? p (Scope.liveTree.address layer field) = p.held? layer field := by
  have hplace := ofPath?_address layer field []
  rw [List.append_nil] at hplace
  rw [get?_of_place hplace]
  exact Option.bind_fun_some _

theorem set_address {p : Player} {layer field : Nat} {u w v : Json} {rest : Path}
    (h : p.held? layer field = some u) (hset : u.set rest v = .ok w) :
    Target.set p (Scope.liveTree.address layer field ++ rest) v = .ok (p.hold layer field w) := by
  rw [set_of_slot (ofPath?_address layer field rest) h, hset]
  rfl

theorem set_address_of_error {p : Player} {layer field : Nat} {u v : Json} {rest : Path}
    {e : Nat × Obstacle} (h : p.held? layer field = some u) (hset : u.set rest v = .error e) :
    ∃ err, Target.set p (Scope.liveTree.address layer field ++ rest) v = .error err := by
  rw [set_of_slot (ofPath?_address layer field rest) h, hset]
  exact ⟨_, rfl⟩

theorem held?_hold_self {p : Player} {layer field : Nat} {u : Json} (v : Json)
    (h : p.held? layer field = some u) : (p.hold layer field v).held? layer field = some v := by
  have hput := Tree.slot?_put_self p.tree ⟨layer, field, 0, []⟩ v
  exact hput.trans (by rw [show p.tree.slot? layer field 0 = some u from h]; rfl)

theorem hold_hold (p : Player) (layer field : Nat) (v w : Json) :
    (p.hold layer field v).hold layer field w = p.hold layer field w := by
  simp only [hold, Tree.put, List.modify_modify_eq, Function.comp_def]

theorem hold_self {p : Player} {layer field : Nat} {u : Json} (h : p.held? layer field = some u) :
    p.hold layer field u = p := by
  have hc : ∀ l e c, p.tree[layer]? = some l → l.effects[field]? = some e →
      e.channels[0]? = some c → { c with value := u } = c := by
    intro l e c hl he hc
    have hu : c.value = u := by simpa [held?, Tree.slot?, Tree.channel?, hl, he, hc] using h
    rw [← hu]
  have hput : p.tree.put ⟨layer, field, 0, []⟩ u = p.tree := by
    refine modify_of_fixed fun l hl => ?_
    have he : l.effects.modify field (fun e =>
        { e with channels := e.channels.modify 0 fun c => { c with value := u } }) = l.effects := by
      refine modify_of_fixed fun e he => ?_
      rw [modify_of_fixed fun c h0 => hc l e c hl he h0]
    rw [he]
  simp only [hold, hput]

theorem held?_hold_of_ne (p : Player) {layer field layer' field' : Nat} (v : Json)
    (h : (layer, field) ≠ (layer', field')) :
    (p.hold layer field v).held? layer' field' = p.held? layer' field' :=
  Tree.slot?_put_of_ne p.tree v fun e => h (by simpa using e)

end Player

end IconMotion
