import IconMotion.Animation.Decode
import IconMotion.Proofs.Resetting

namespace IconMotion

namespace Json

/-- The field of a record, by name or by position. -/
def part? (j : Json) (name : String) (position : Nat) : Option Json :=
  match j with
  | .obj ms => SortedMap.find? ms name
  | .arr xs => xs[position]?
  | _ => none

def parts (j : Json) (name : String) (position : Nat) : List Json :=
  ((j.part? name position).bind items?).getD []

end Json

namespace Decoder

variable {τ : Type} {d : Decoder τ} {j : Json}

def given? (d : Decoder τ) : Option Json → Except DecodeError (Option τ)
  | some j => some <$> d j
  | none => .ok none

theorem given?_eq_ok_some {j? : Option Json} {y : τ} (h : given? d j? = .ok (some y)) :
    ∃ j, j? = some j ∧ d j = .ok y := by
  cases j? with
  | none => cases h
  | some j =>
    refine ⟨j, rfl, ?_⟩
    cases hd : d j with
    | error e =>
      rw [given?, hd] at h
      cases h
    | ok y' =>
      rw [given?, hd] at h
      cases h
      rfl

theorem present_eq_ok {name : String} {x : Option τ} {y : τ}
    (h : present name x = .ok y) : x = some y := by
  cases x with
  | none => cases h
  | some x =>
    cases h
    rfl

theorem item_eq_ok {xs : List Json} {i n : Nat} {name : String} {y : τ}
    (h : item xs i name n d = .ok y) : ∃ x, xs[i]? = some x ∧ d x = .ok y := by
  unfold item at h
  split at h
  next x hx => exact ⟨x, hx, h⟩
  · cases h

theorem list_eq_ok {ys : List τ} (h : list d j = .ok ys) :
    ∃ xs, j = .arr xs ∧ xs.mapM d = .ok ys := by
  cases j with
  | arr xs => exact ⟨xs, rfl, h⟩
  | _ => cases h

theorem optional_eq_ok_some {y : τ} (h : optional d j = .ok (some y)) : d j = .ok y := by
  have hgiven : given? d (some j) = .ok (some y) := by
    cases j with
    | null => cases h
    | _ => exact h
  obtain ⟨j', hj, hd⟩ := given?_eq_ok_some hgiven
  cases hj
  exact hd

theorem mem_of_list {j? : Option Json} {ys : Option (List τ)} {y : τ}
    (h : given? (list d) j? = .ok ys) (hy : y ∈ ys.getD []) :
    ∃ x ∈ (j?.bind Json.items?).getD [], d x = .ok y := by
  cases ys with
  | none => cases hy
  | some ys =>
    obtain ⟨j, rfl, hj⟩ := given?_eq_ok_some h
    obtain ⟨xs, rfl, hxs⟩ := list_eq_ok hj
    exact exists_mem_of_mapM hxs hy

theorem mem_of_optional_list {j? : Option Json} {ys : Option (Option (List τ))} {y : τ}
    (h : given? (optional (list d)) j? = .ok ys) (hy : y ∈ ys.join.getD []) :
    ∃ x ∈ (j?.bind Json.items?).getD [], d x = .ok y := by
  cases hys : ys.join with
  | none =>
    rw [hys] at hy
    cases hy
  | some zs =>
    obtain rfl := Option.join_eq_some_iff.mp hys
    obtain ⟨j, rfl, hj⟩ := given?_eq_ok_some h
    obtain ⟨xs, rfl, hxs⟩ := list_eq_ok (optional_eq_ok_some hj)
    exact exists_mem_of_mapM hxs hy

theorem parts_of_animation {a : Animation} (h : animation j = .ok a) :
    (∃ x, j.part? "ip" 2 = some x ∧ float32 x = .ok a.inPoint) ∧
      (∃ x, j.part? "op" 3 = some x ∧ float32 x = .ok a.outPoint) ∧
        ∃ ls, given? (list layer) (j.part? "layers" 7) = .ok ls ∧ a.layers = ls.getD [] := by
  cases j with
  | obj ms =>
    have h : animationOfMembers ms = .ok a := h
    simp only [animationOfMembers, bind_eq_ok, pure_eq_ok] at h
    obtain ⟨frameRate, -, height, -, inPoint, hin, layers, hlayers, name, -, outPoint, hout, version,
      -, width, -, inPoint', hin', outPoint', hout', frameRate', -, width', -, height', -, rfl⟩ := h
    obtain rfl := present_eq_ok hin'
    obtain rfl := present_eq_ok hout'
    exact ⟨given?_eq_ok_some hin, given?_eq_ok_some hout, layers, hlayers, rfl⟩
  | arr xs =>
    have h : animationOfItems xs = .ok a := h
    simp only [animationOfItems, bind_eq_ok, pure_eq_ok] at h
    obtain ⟨version, -, name, -, inPoint, hin, outPoint, hout, frameRate, -, width, -, height, -,
      layers, hlayers, -, -, rfl⟩ := h
    exact ⟨item_eq_ok hin, item_eq_ok hout, layers, hlayers, rfl⟩
  | _ => cases h

theorem mem_layers {a : Animation} {l : Layer} (h : animation j = .ok a) (hl : l ∈ a.layers) :
    ∃ x ∈ j.parts "layers" 7, layer x = .ok l := by
  obtain ⟨-, -, ls, hls, heq⟩ := parts_of_animation h
  exact mem_of_list hls (heq ▸ hl)

theorem mem_effects {l : Layer} {e : Effect} (h : layer j = .ok l) (he : e ∈ l.effects.getD []) :
    ∃ x ∈ j.parts "ef" 6, effect x = .ok e := by
  cases j with
  | obj ms =>
    have h : layerOfMembers ms = .ok l := h
    simp only [layerOfMembers, bind_eq_ok, pure_eq_ok] at h
    obtain ⟨effects, heffects, index, -, inPoint, -, name, -, outPoint, -, startTime, -, type, -,
      rfl⟩ := h
    exact mem_of_optional_list heffects he
  | arr xs =>
    have h : layerOfItems xs = .ok l := h
    simp only [layerOfItems, bind_eq_ok, pure_eq_ok] at h
    obtain ⟨type, -, index, -, name, -, inPoint, -, outPoint, -, startTime, -, effects, heffects,
      -, -, rfl⟩ := h
    exact mem_of_optional_list heffects he
  | _ => cases h

theorem mem_values {e : Effect} {v : EffectValue} (h : effect j = .ok e)
    (hv : v ∈ e.values.getD []) : ∃ x ∈ j.parts "ef" 5, effectValue x = .ok v := by
  cases j with
  | obj ms =>
    have h : effectOfMembers ms = .ok e := h
    simp only [effectOfMembers, bind_eq_ok, pure_eq_ok] at h
    obtain ⟨values, hvalues, enabled, -, index, -, matchName, -, name, -, type, -, rfl⟩ := h
    exact mem_of_optional_list hvalues hv
  | arr xs =>
    have h : effectOfItems xs = .ok e := h
    simp only [effectOfItems, bind_eq_ok, pure_eq_ok] at h
    obtain ⟨type, -, name, -, matchName, -, index, -, enabled, -, values, hvalues, -, -, rfl⟩ := h
    exact mem_of_optional_list hvalues hv
  | _ => cases h

end Decoder

end IconMotion
