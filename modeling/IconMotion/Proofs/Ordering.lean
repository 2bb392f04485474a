import IconMotion.Json.Source
import IconMotion.Proofs.Writing

namespace IconMotion.Json

/-- What holds of a value once it holds of all items and members holds of every value. -/
@[elab_as_elim]
theorem induction {P : Json → Prop} (null : P .null) (bool : ∀ b, P (.bool b))
    (num : ∀ n, P (.num n)) (str : ∀ s, P (.str s)) (arr : ∀ xs, (∀ x ∈ xs, P x) → P (.arr xs))
    (obj : ∀ ms, (∀ m ∈ ms, P m.2) → P (.obj ms)) (j : Json) : P j :=
  @Json.rec P (fun xs => ∀ x ∈ xs, P x) (fun ms => ∀ m ∈ ms, P m.2) (fun m => P m.2)
    null bool num str arr obj
    nofun (fun _ _ hx hxs => List.forall_mem_cons.mpr ⟨hx, hxs⟩)
    nofun (fun _ _ hm hms => List.forall_mem_cons.mpr ⟨hm, hms⟩) (fun _ _ hx => hx) j

theorem orderedItems_iff {xs : List Json} : OrderedItems xs ↔ ∀ x ∈ xs, x.Ordered := by
  induction xs with
  | nil => simp [OrderedItems]
  | cons x xs ih => simp [OrderedItems, ih]

theorem orderedMembers_iff {ms : List (String × Json)} :
    OrderedMembers ms ↔ ∀ m ∈ ms, m.2.Ordered := by
  induction ms with
  | nil => simp [OrderedMembers]
  | cons m ms ih => simp [OrderedMembers, ih]

namespace Source

mutual

theorem ordered_of_eval? : ∀ {s : Source} {j : Json}, s.eval? = some j → j.Ordered
  | .null, _, h | .bool _, _, h => by
    cases h
    trivial
  | .num _, _, h | .str _, _, h => by
    obtain ⟨_, -, rfl⟩ := Option.map_eq_some_iff.mp h
    trivial
  | .arr _, _, h => by
    obtain ⟨vs, hvs, rfl⟩ := Option.map_eq_some_iff.mp h
    exact orderedItems_iff.mpr (ordered_of_evalItems? hvs)
  | .obj _, _, h => by
    obtain ⟨vs, hvs, rfl⟩ := Option.map_eq_some_iff.mp h
    refine ⟨SortedMap.sorted_ofList vs, orderedMembers_iff.mpr fun m hm => ?_⟩
    exact ordered_of_evalMembers? hvs m ((SortedMap.mem_extend hm).resolve_left List.not_mem_nil)

theorem ordered_of_evalItems? :
    ∀ {xs : List Source} {vs : List Json}, evalItems? xs = some vs → ∀ v ∈ vs, v.Ordered
  | [], _, h => by
    cases h
    nofun
  | _ :: _, _, h => by
    obtain ⟨v, hv, h⟩ := Option.bind_eq_some_iff.mp h
    obtain ⟨vs, hvs, h⟩ := Option.bind_eq_some_iff.mp h
    cases h
    exact List.forall_mem_cons.mpr ⟨ordered_of_eval? hv, ordered_of_evalItems? hvs⟩

theorem ordered_of_evalMembers? : ∀ {ms : List (Option String × Source)}
    {vs : List (String × Json)}, evalMembers? ms = some vs → ∀ v ∈ vs, v.2.Ordered
  | [], _, h => by
    cases h
    nofun
  | (_, _) :: _, _, h => by
    obtain ⟨_, -, h⟩ := Option.bind_eq_some_iff.mp h
    obtain ⟨v, hv, h⟩ := Option.bind_eq_some_iff.mp h
    obtain ⟨vs, hvs, h⟩ := Option.bind_eq_some_iff.mp h
    cases h
    exact List.forall_mem_cons.mpr ⟨ordered_of_eval? hv, ordered_of_evalMembers? hvs⟩

end

end Source

theorem ordered_of_parseDocument? {text : String} {j : Json} (h : parseDocument? text = some j) :
    j.Ordered := by
  obtain ⟨source, -, h⟩ := Option.bind_eq_some_iff.mp h
  split at h
  · exact Source.ordered_of_eval? h
  · cases h

theorem Ordered.child {j c : Json} {s : Step} (h : j.Ordered) (hc : j.child s = .ok c) :
    c.Ordered := by
  cases j with
  | obj ms => exact orderedMembers_iff.mp h.2 _ (SortedMap.mem_of_find? (child_obj_eq_ok.mp hc))
  | arr xs =>
    obtain ⟨i, -, hx⟩ := child_arr_eq_ok.mp hc
    exact orderedItems_iff.mp h _ (List.mem_of_getElem? hx)
  | _ => cases hc

theorem Ordered.put {j j' v : Json} {s : Step} (h : j.Ordered) (hv : v.Ordered)
    (hput : j.put s v = .ok j') : j'.Ordered := by
  cases j with
  | obj ms =>
    cases hput
    refine ⟨SortedMap.sorted_insert h.1 s.text v, orderedMembers_iff.mpr fun m hm => ?_⟩
    rcases SortedMap.mem_insert hm with rfl | hm
    · exact hv
    · exact orderedMembers_iff.mp h.2 m hm
  | arr xs =>
    obtain ⟨i, ys, rfl, rfl, hself, hother⟩ := put_arr_eq_ok hput
    refine orderedItems_iff.mpr fun y hy => ?_
    obtain ⟨k, hk⟩ := List.mem_iff_getElem?.mp hy
    by_cases hik : i = k
    · subst hik
      cases hself.symm.trans hk
      exact hv
    · exact orderedItems_iff.mp h y (List.mem_of_getElem? ((hother k hik).symm.trans hk))
  | _ => cases hput

theorem Ordered.set {j j' v : Json} {p : Path} (h : j.Ordered) (hv : v.Ordered)
    (hset : j.set p v = .ok j') : j'.Ordered := by
  induction p generalizing j j' with
  | nil =>
    cases hset
    exact hv
  | cons s p ih =>
    obtain ⟨w, hput, ⟨-, rfl⟩ | ⟨-, c, hc, hw⟩⟩ := set_cons_eq_ok.mp hset
    · exact h.put hv hput
    · exact h.put (ih (h.child hc) hw) hput

theorem put_child {j c : Json} {s : Step} (h : j.Ordered) (hc : j.child s = .ok c) :
    j.put s c = .ok j := by
  cases j with
  | obj ms => simp only [Json.put, SortedMap.insert_self h.1 (child_obj_eq_ok.mp hc)]
  | arr xs =>
    obtain ⟨i, rfl, hx⟩ := child_arr_eq_ok.mp hc
    obtain ⟨hi, hxi⟩ := List.getElem?_eq_some_iff.mp hx
    rw [Json.put, if_pos hi, ← hxi, List.set_getElem_self]
  | _ => cases hc

theorem set_get? {j u : Json} {p : Path} (h : j.Ordered) (hu : j.get? p = some u) :
    j.set p u = .ok j := by
  induction p generalizing j with
  | nil =>
    cases hu
    rfl
  | cons s p ih =>
    obtain ⟨c, hc, hcu⟩ := get?_cons_eq_some.mp hu
    refine set_cons_eq_ok.mpr ⟨c, put_child h hc, ?_⟩
    cases p with
    | nil =>
      cases hcu
      exact .inl ⟨rfl, rfl⟩
    | cons t p => exact .inr ⟨List.cons_ne_nil t p, c, hc, ih (h.child hc) hcu⟩

theorem replace_get? {j u : Json} {p : Path} (h : j.Ordered) (hu : j.get? p = some u) :
    j.replace p u = j := by
  simp only [replace, set_get? h hu]

end IconMotion.Json
