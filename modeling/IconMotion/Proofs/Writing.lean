import IconMotion.Control.Write
import IconMotion.Proofs.Channels

namespace IconMotion

/-- Writes at and below a path reach a value `u`, and leave the thing that `put` makes of the changed
value. -/
def Target.Holds {τ : Type} [Target τ] (t : τ) (p : Path) (u : Json) (put : Json → τ) : Prop :=
  ∀ rest v, match u.set rest v with
    | .ok w => Target.set t (p ++ rest) v = .ok (put w)
    | .error _ => ∃ e, Target.set t (p ++ rest) v = .error e

namespace Control

/-- A container with other components 0 and 1. Nothing else has components. -/
def withPoint? : Json → Json → Json → Option Json
  | .arr xs, x, y => some (.arr (x :: y :: xs.drop 2))
  | .obj ms, x, y => some (.obj (SortedMap.insert (SortedMap.insert ms "0" x) "1" y))
  | _, _, _ => none

/-- What a control that holds `held` comes to hold when a value is written; none if it refuses. -/
def Kind.written? (kind : Kind) (held value : Json) : Option Json :=
  match kind with
  | .color => colorValue? value
  | .point => (pointValues? value).bind fun (x, y) => withPoint? held x y
  | .slider | .checkbox | .feature => some value

theorem withPoint?_eq_some {u x y w : Json} (h : withPoint? u x y = some w) :
    ∃ v, u.set [.index 0] x = .ok v ∧ v.set [.index 1] y = .ok w := by
  cases u with
  | obj ms =>
    cases h
    exact ⟨_, rfl, rfl⟩
  | arr xs =>
    cases h
    rcases xs with - | ⟨a, - | ⟨b, xs⟩⟩ <;> exact ⟨_, rfl, rfl⟩
  | _ => cases h

theorem withPoint?_eq_none {u x y : Json} (h : withPoint? u x y = none) :
    ∃ e, u.set [.index 0] x = .error e := by
  cases u with
  | obj ms => cases h
  | arr xs => cases h
  | _ => exact ⟨_, rfl⟩

section Steps

variable {τ : Type} [Target τ] {t : τ} {P : τ → Prop}

theorem putAll_induction {slots : List (Path × Json)} (h : P t)
    (hstep : ∀ s ∈ slots, ∀ u u', P u → Target.set u s.1 s.2 = .ok u' → P u') :
    P (putAll t slots).1 := by
  induction slots generalizing t with
  | nil => exact h
  | cons s slots ih =>
    simp only [putAll]
    split
    next t' hset =>
      exact ih (hstep s List.mem_cons_self t t' h hset) fun s' hs' =>
        hstep s' (List.mem_cons_of_mem s hs')
    next => exact h

theorem write_induction {ds : List Descriptor} {v : Json} (h : P t)
    (hstep : ∀ d ∈ ds, ∀ s ∈ d.slots v, ∀ u u', P u → Target.set u s.1 s.2 = .ok u' → P u') :
    P (write t ds v).1 := by
  induction ds generalizing t with
  | nil => exact h
  | cons d ds ih =>
    have hfirst : P (putAll t (d.slots v)).1 := putAll_induction h (hstep d List.mem_cons_self)
    exact ih hfirst fun e he => hstep e (List.mem_cons_of_mem d he)

theorem reset_induction {ds : List Descriptor} (h : P t)
    (hstep : ∀ d ∈ ds, ∀ u u', P u → Target.set u d.path d.value = .ok u' → P u') :
    P (reset t ds).1 := by
  induction ds generalizing t with
  | nil => exact h
  | cons d ds ih =>
    have hfirst : P (putAll t [(d.path, d.value)]).1 := putAll_induction h fun s hs =>
      List.mem_singleton.mp hs ▸ hstep d List.mem_cons_self
    exact ih hfirst fun e he => hstep e (List.mem_cons_of_mem d he)

end Steps

section Slot

variable {τ : Type} [Target τ] {t : τ} {d : Descriptor} {u : Json} {put : Json → τ}

/-- A write that a control accepts changes its slot, in a document and in the live tree alike. -/
theorem putAll_of_written (ht : Target.Holds t d.path u put)
    (hput : ∀ w, Target.Holds (put w) d.path w put) {v w : Json}
    (h : d.kind.written? u v = some w) : putAll t (d.slots v) = (put w, none) := by
  have hwhole : ∀ v, putAll t [(d.path, v)] = (put v, none) := by
    intro v
    have hset := ht [] v
    rw [List.append_nil] at hset
    simp only [putAll, show Target.set t d.path v = .ok (put v) from hset]
  unfold Descriptor.slots
  cases hk : d.kind with
  | color =>
    simp only [hk, Kind.written?] at h
    simp only [h, hwhole]
  | point =>
    simp only [hk, Kind.written?] at h
    obtain ⟨⟨x, y⟩, hxy, h⟩ := Option.bind_eq_some_iff.mp h
    obtain ⟨m, hm, hw⟩ := withPoint?_eq_some h
    have h0 := ht [.index 0] x
    have h1 := hput m [.index 1] y
    rw [hm] at h0
    rw [hw] at h1
    simp only [hxy, putAll, show Target.set t (d.path ++ [.index 0]) x = .ok (put m) from h0,
      show Target.set (put m) (d.path ++ [.index 1]) y = .ok (put w) from h1]
  | slider | checkbox | feature =>
    simp only [hk, Kind.written?, Option.some.injEq] at h
    simp only [hwhole, h]

theorem putAll_of_refused (ht : Target.Holds t d.path u put) {v : Json}
    (h : d.kind.written? u v = none) :
    (putAll t (d.slots v)).1 = t ∧
      (d.slots v = [] ∨ ∃ e, (putAll t (d.slots v)).2 = some e) := by
  unfold Descriptor.slots
  cases hk : d.kind with
  | color =>
    simp only [hk, Kind.written?] at h
    simp [h, putAll]
  | point =>
    simp only [hk, Kind.written?] at h
    cases hxy : pointValues? v with
    | none => simp [putAll]
    | some xy =>
      obtain ⟨x, y⟩ := xy
      rw [hxy] at h
      obtain ⟨e, he⟩ := withPoint?_eq_none h
      have h0 := ht [.index 0] x
      rw [he] at h0
      obtain ⟨err, herr⟩ := h0
      simp [putAll, herr]
  | slider | checkbox | feature => simp [hk, Kind.written?] at h

end Slot

def Kind.after (kind : Kind) (held value : Json) : Json := (kind.written? held value).getD held

def Descriptor.IsLive (d : Descriptor) : Prop := d.path = Scope.liveTree.address d.layer d.field

def Descriptor.key (d : Descriptor) : Nat × Nat := (d.layer, d.field)

end Control

open Control Live

namespace Json

def replace (j : Json) (p : Path) (v : Json) : Json :=
  match j.set p v with
  | .ok j' => j'
  | .error _ => j

theorem set_eq_replace {j u : Json} {p : Path} (h : j.get? p = some u) (v : Json) :
    j.set p v = .ok (j.replace p v) := by
  obtain ⟨j', hj⟩ := exists_set_of_get? h v
  simp only [replace, hj]

theorem get?_replace_self {j u : Json} {p : Path} (h : j.get? p = some u) (v : Json) :
    (j.replace p v).get? p = some v :=
  get?_set_self (set_eq_replace h v)

theorem get?_replace_of_apart {j : Json} {p q : Path} (h : p.Apart q) (v : Json) :
    (j.replace p v).get? q = j.get? q := by
  cases hj : j.set p v with
  | ok j' => simp only [replace, hj, get?_set_of_apart hj h]
  | error e => simp only [replace, hj]

theorem replace_replace {j u : Json} {p : Path} (h : j.get? p = some u) (v w : Json) :
    (j.replace p v).replace p w = j.replace p w := by
  have h1 := set_eq_replace h v
  have h2 := set_eq_replace (get?_replace_self h v) w
  have h3 := (set_eq_replace h w).symm.trans (set_set h1 h2)
  exact (Except.ok.inj h3).symm

theorem target_set_of_ok {j j' v : Json} {p : Path} (h : j.set p v = .ok j') :
    Target.set j p v = .ok j' := by
  simp only [Target.set, Target.locate, h]
  rfl

theorem holds {j u : Json} {p : Path} (h : j.get? p = some u) :
    Target.Holds j p u (j.replace p) := by
  intro rest v
  cases hu : u.set rest v with
  | ok w =>
    refine target_set_of_ok ?_
    cases rest with
    | nil =>
      cases hu
      rw [List.append_nil, set_eq_replace h]
    | cons s rest => rw [set_append h (by simp), hu]; exact set_eq_replace h w
  | error e =>
    cases rest with
    | nil => cases hu
    | cons s rest =>
      simp only [Target.set, Target.locate, set_append h (List.cons_ne_nil s rest), hu]
      exact ⟨_, rfl⟩

theorem holds_replace {j u : Json} {p : Path} (h : j.get? p = some u) (w : Json) :
    Target.Holds (j.replace p w) p w (j.replace p) := by
  have hself := holds (get?_replace_self h w)
  rwa [show (j.replace p w).replace p = j.replace p from
    funext fun v => replace_replace h w v] at hself

theorem putAll_eq {j u : Json} {d : Descriptor} (h : j.get? d.path = some u) (v : Json) :
    (putAll j (d.slots v)).1 = match d.kind.written? u v with
      | some w => j.replace d.path w
      | none => j := by
  cases hw : d.kind.written? u v with
  | none => exact (putAll_of_refused (holds h) hw).1
  | some w => exact congrArg Prod.fst (putAll_of_written (holds h) (holds_replace h) hw)

end Json

namespace Player

theorem holds {p : Player} {layer field : Nat} {u : Json} (h : p.held? layer field = some u) :
    Target.Holds p (Scope.liveTree.address layer field) u (p.hold layer field) := by
  intro rest v
  cases hu : u.set rest v with
  | ok w => exact set_address h hu
  | error e => exact set_address_of_error h hu

theorem holds_hold {p : Player} {layer field : Nat} {u : Json} (h : p.held? layer field = some u)
    (w : Json) : Target.Holds (p.hold layer field w) (Scope.liveTree.address layer field) w
      (p.hold layer field) := by
  have hself := holds (held?_hold_self w h)
  rwa [show (p.hold layer field w).hold layer field = p.hold layer field from
    funext fun v => hold_hold p layer field w v] at hself

theorem putAll_eq {p : Player} {d : Descriptor} {u : Json} (hd : d.IsLive)
    (h : p.held? d.layer d.field = some u) (v : Json) :
    (putAll p (d.slots v)).1 = p.hold d.layer d.field (d.kind.after u v) := by
  cases hw : d.kind.written? u v with
  | none =>
    have hput := (putAll_of_refused (d := d) (by rw [hd]; exact holds h) hw).1
    rw [hput, Kind.after, hw]
    exact (hold_self h).symm
  | some w =>
    have hput := putAll_of_written (d := d) (by rw [hd]; exact holds h)
      (fun w => by rw [hd]; exact holds_hold h w) hw
    rw [hput, Kind.after, hw]
    rfl

/-- The player with new values in the slots of some controls, one control after another. -/
def assign (f : Descriptor → Json → Json) (p : Player) : List Descriptor → Player
  | [] => p
  | d :: ds => match p.held? d.layer d.field with
    | some u => assign f (p.hold d.layer d.field (f d u)) ds
    | none => assign f p ds

variable {f : Descriptor → Json → Json}

theorem assign_eq (p : Player) (ds : List Descriptor) : ∃ tree, p.assign f ds = { p with tree } := by
  induction ds generalizing p with
  | nil => exact ⟨p.tree, rfl⟩
  | cons d ds ih =>
    unfold assign
    split
    · obtain ⟨tree, h⟩ := ih (p.hold d.layer d.field _)
      exact ⟨tree, h⟩
    · exact ih p

theorem track?_assign (p : Player) (ds : List Descriptor) (i j k : Nat) :
    (p.assign f ds).tree.track? i j k = p.tree.track? i j k := by
  induction ds generalizing p with
  | nil => rfl
  | cons d ds ih =>
    unfold assign
    split
    · rw [ih]
      exact Tree.track?_put p.tree ⟨d.layer, d.field, 0, []⟩ _ i j k
    · exact ih p

theorem slot?_assign_of_ne {ds : List Descriptor} {i j k : Nat} (p : Player)
    (h : ∀ d ∈ ds, (d.layer, d.field, 0) ≠ (i, j, k)) :
    (p.assign f ds).tree.slot? i j k = p.tree.slot? i j k := by
  induction ds generalizing p with
  | nil => rfl
  | cons d ds ih =>
    have hds : ∀ d ∈ ds, (d.layer, d.field, 0) ≠ (i, j, k) := fun d hd => h d (by simp [hd])
    unfold assign
    split
    · rw [ih _ hds]
      exact Tree.slot?_put_of_ne p.tree _ (h d (by simp))
    · exact ih p hds

theorem held?_assign_of_ne {ds : List Descriptor} {layer field : Nat} (p : Player)
    (h : ∀ d ∈ ds, d.key ≠ (layer, field)) :
    (p.assign f ds).held? layer field = p.held? layer field :=
  slot?_assign_of_ne p fun d hd e => h d hd (by simpa [Descriptor.key] using e)

theorem held?_assign_self {ds : List Descriptor} {d : Descriptor} {u : Json} {p : Player}
    (hnodup : (ds.map Descriptor.key).Nodup) (hd : d ∈ ds) (h : p.held? d.layer d.field = some u) :
    (p.assign f ds).held? d.layer d.field = some (f d u) := by
  induction ds generalizing p with
  | nil => cases hd
  | cons e ds ih =>
    obtain ⟨he, hds⟩ := List.nodup_cons.mp hnodup
    have hne : ∀ d' ∈ ds, d'.key ≠ e.key := fun d' hd' h' => he (h' ▸ List.mem_map_of_mem hd')
    rcases List.mem_cons.mp hd with rfl | hd
    · simp only [assign, h]
      rw [held?_assign_of_ne _ hne]
      exact held?_hold_self _ h
    · unfold assign
      split
      · refine ih hds hd ?_
        rw [held?_hold_of_ne p _ fun e' => hne d hd e'.symm]
        exact h
      · exact ih hds hd h

theorem isSome_held?_hold (p : Player) (layer field : Nat) (v : Json) (layer' field' : Nat) :
    ((p.hold layer field v).held? layer' field').isSome = (p.held? layer' field').isSome := by
  by_cases h : (layer, field) = (layer', field')
  · cases h
    have hput := Tree.slot?_put_self p.tree ⟨layer, field, 0, []⟩ v
    rw [show (p.hold layer field v).held? layer field = _ from hput, Option.isSome_map]
    rfl
  · rw [held?_hold_of_ne p v h]

theorem write_eq_assign {p : Player} {ds : List Descriptor}
    (h : ∀ d ∈ ds, d.IsLive ∧ (p.held? d.layer d.field).isSome) (v : Json) :
    (write p ds v).1 = p.assign (fun d u => d.kind.after u v) ds := by
  induction ds generalizing p with
  | nil => rfl
  | cons d ds ih =>
    obtain ⟨hlive, hsome⟩ := h d (by simp)
    obtain ⟨u, hu⟩ := Option.isSome_iff_exists.mp hsome
    have hput := putAll_eq hlive hu v
    simp only [write, assign, hu, hput]
    exact ih fun d' hd' => by
      rw [isSome_held?_hold]
      exact h d' (by simp [hd'])

theorem reset_eq_assign {p : Player} {ds : List Descriptor}
    (h : ∀ d ∈ ds, d.IsLive ∧ (p.held? d.layer d.field).isSome) :
    (reset p ds).1 = p.assign (fun d _ => d.value) ds := by
  induction ds generalizing p with
  | nil => rfl
  | cons d ds ih =>
    obtain ⟨hlive, hsome⟩ := h d (by simp)
    obtain ⟨u, hu⟩ := Option.isSome_iff_exists.mp hsome
    have hset : Target.set p d.path d.value = .ok (p.hold d.layer d.field d.value) := by
      have hset := set_address hu (show u.set [] d.value = .ok d.value from rfl)
      rwa [List.append_nil, ← show d.path = _ from hlive] at hset
    simp only [reset, putAll, assign, hu, hset]
    exact ih fun d' hd' => by
      rw [isSome_held?_hold]
      exact h d' (by simp [hd'])

end Player

end IconMotion
