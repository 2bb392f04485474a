import IconMotion.Proofs.Parallel

namespace IconMotion

open Live

namespace Path

def Splits : Path → Path → Prop
  | s :: p, t :: q => s ≠ t ∨ Splits p q
  | _, _ => False

theorem not_splits_append (p q : Path) : ¬ Splits p (p ++ q) := by
  induction p with
  | nil => exact id
  | cons s p ih => exact fun h => h.elim (fun hne => hne rfl) ih

end Path

structure Target.IsLens (τ : Type) [Target τ] (parts : τ → Path → Path → Prop) : Prop where
  writes : ∀ (t : τ) (p : Path) (v : Json), (get? t p).isSome → ∃ t', set t p v = .ok t'
  reads : ∀ (t t' : τ) (p : Path) (v : Json), set t p v = .ok t' → get? t' p = some v
  frames : ∀ (t t' : τ) (p q : Path) (v : Json), set t p v = .ok t' → parts t p q →
    get? t' q = get? t q

namespace Json

theorem target_set_eq_ok {j j' v : Json} {p : Path} :
    Target.set j p v = .ok j' ↔ j.set p v = .ok j' := by
  simp only [Target.set, Target.locate]
  cases j.set p v <;> simp

theorem isLens : Target.IsLens Json Parts where
  writes j p v h := by
    obtain ⟨c, hc⟩ := Option.isSome_iff_exists.mp h
    obtain ⟨j', hj'⟩ := exists_set_of_get? (show j.get? p = some c from hc) v
    exact ⟨j', target_set_eq_ok.mpr hj'⟩
  reads _ _ _ _ h := get?_set_self (target_set_eq_ok.mp h)
  frames _ _ _ _ _ h hparts := get?_set_of_parts (target_set_eq_ok.mp h) hparts

end Json

namespace Player

/-- The second path leaves the first on the way to its slot, where every step goes by itself, or inside
the value of the slot. -/
def Parts (p : Player) (path q : Path) : Prop :=
  ∃ place : Place, path = place.slotPath ++ place.rest ∧
    (place.slotPath.Splits q ∨ ∃ u rest,
      p.tree.slot? place.layer place.effect place.channel = some u ∧
        q = place.slotPath ++ rest ∧ u.Parts place.rest rest)

theorem isLens : Target.IsLens Player Parts where
  writes p path v h := by
    cases hplace : Place.ofPath? path with
    | none => simp [get?_of_no_place hplace] at h
    | some place =>
      rw [get?_of_place hplace] at h
      obtain ⟨c, hc⟩ := Option.isSome_iff_exists.mp h
      obtain ⟨u, hu, hc⟩ := Option.bind_eq_some_iff.mp hc
      obtain ⟨w, hw⟩ := Json.exists_set_of_get? hc v
      exact ⟨_, set_eq_ok.mpr ⟨place, u, w, hplace, hu, hw, rfl⟩⟩
  reads p p' path v h := by
    obtain ⟨place, u, w, hplace, hu, hw, rfl⟩ := set_eq_ok.mp h
    rw [get?_of_place hplace, Tree.slot?_put_self, hu]
    exact Json.get?_set_self hw
  frames p p' path q v h hparts := by
    obtain ⟨place, u, w, hplace, hu, hw, rfl⟩ := set_eq_ok.mp h
    cases hq : Place.ofPath? q with
    | none => rw [get?_of_no_place hq, get?_of_no_place hq]
    | some there =>
      rw [get?_of_place hq, get?_of_place hq]
      by_cases hsame : (place.layer, place.effect, place.channel) =
        (there.layer, there.effect, there.channel)
      · obtain ⟨layer, effect, channel, rest⟩ := there
        obtain ⟨rfl, rfl, rfl⟩ :
            place.layer = layer ∧ place.effect = effect ∧ place.channel = channel := by
          simpa using hsame
        have hpath : q = place.slotPath ++ rest := Place.ofPath?_eq_some.mp hq
        obtain ⟨here, hhere, hparts⟩ := hparts
        cases (Place.ofPath?_eq_some.mpr hhere).symm.trans hplace
        rcases hparts with hsplit | ⟨u', rest', hu', hrest', hinside⟩
        · rw [hpath] at hsplit
          exact absurd hsplit (Path.not_splits_append _ _)
        · cases hu'.symm.trans hu
          obtain rfl : rest' = rest := List.append_cancel_left (hrest'.symm.trans hpath)
          rw [Tree.slot?_put_self, hu]
          exact Json.get?_set_of_parts hw hinside
      · rw [Tree.slot?_put_of_ne p.tree w hsame]

end Player

/-- Documents and players obey the laws of reading and writing, and a write to a player gives one slot of
its live tree a new value and changes nothing else. -/
theorem paths_are_lenses :
    Target.IsLens Json Json.Parts ∧ Target.IsLens Player Player.Parts ∧
    ∀ (p p' : Player) (path : Path) (v : Json), Target.set p path v = .ok p' →
      ∃ (place : Place) (u w : Json), path = place.slotPath ++ place.rest ∧
        p.tree.slot? place.layer place.effect place.channel = some u ∧
        u.set place.rest v = .ok w ∧
        p' = { p with tree :=
          p.tree.modifyChannel place.layer place.effect place.channel fun c =>
            { c with value := w } } := by
  refine ⟨Json.isLens, Player.isLens, fun p p' path v h => ?_⟩
  obtain ⟨place, u, w, hplace, hu, hw, rfl⟩ := Player.set_eq_ok.mp h
  exact ⟨place, u, w, Place.ofPath?_eq_some.mp hplace, hu, hw, rfl⟩

def Json.shelf : Json := .obj [("0", .arr [.num (.int 5)])]

theorem paths_are_lenses_on_shelf_and_axis :
    (∃ d', Target.set Json.shelf [.index 0, .index 1] (.bool true) = .ok d' ∧
      Json.shelf.Parts [.index 0, .index 1] [.key "0", .index 0] ∧
      Target.get? d' [.index 0, .index 1] = some (.bool true) ∧
      Target.get? d' [.key "0", .index 0] = Target.get? Json.shelf [.key "0", .index 0]) ∧
    ∃ p p', Player.load Json.sizeAndAxis = .ok p ∧
      (Target.get? p (Control.Scope.liveTree.address 0 1 ++ [.index 1])).isSome ∧
      Target.set p (Control.Scope.liveTree.address 0 1 ++ [.index 1]) .null = .ok p' ∧
      Target.get? p' (Control.Scope.liveTree.address 0 0) =
        Target.get? p (Control.Scope.liveTree.address 0 0) ∧
      p'.bindings = p.bindings := by
  obtain ⟨hjson, hplayer, hslot⟩ := paths_are_lenses
  obtain ⟨p, hp, hread⟩ : ∃ p, Player.load Json.sizeAndAxis = .ok p ∧
      (Target.get? p (Control.Scope.liveTree.address 0 1 ++ [.index 1])).isSome := ⟨_, rfl, rfl⟩
  obtain ⟨p', hp'⟩ := hplayer.writes p _ .null hread
  have hparts : p.Parts (Control.Scope.liveTree.address 0 1 ++ [.index 1])
      (Control.Scope.liveTree.address 0 0) := by
    refine ⟨⟨0, 1, 0, [.index 1]⟩, rfl, .inl ?_⟩
    simp [Place.slotPath, Path.Splits, Control.Scope.address]
  obtain ⟨d', hd'⟩ : ∃ d', Target.set Json.shelf [.index 0, .index 1] (.bool true) = .ok d' :=
    ⟨_, rfl⟩
  have hindex : Step.index 1 ≠ Step.index 0 := by simp
  have hshelf : Json.shelf.Parts [.index 0, .index 1] [.key "0", .index 0] :=
    .inr ⟨_, rfl, .inl hindex⟩
  obtain ⟨place, u, w, -, -, -, hbuild⟩ := hslot p p' _ _ hp'
  refine ⟨⟨d', hd', hshelf, hjson.reads _ _ _ _ hd', hjson.frames _ _ _ _ _ hd' hshelf⟩, p, p', hp,
    hread, hp', hplayer.frames p p' _ _ _ hp' hparts, ?_⟩
  rw [hbuild]

end IconMotion
