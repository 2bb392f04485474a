import IconMotion.Control.Discovery
import IconMotion.Proofs.Writing

namespace IconMotion

section Lists

variable {α β : Type}

theorem pairwise_zipIdx (xs : List α) (n : Nat) : (xs.zipIdx n).Pairwise fun a b => a.2 < b.2 := by
  induction xs generalizing n with
  | nil => exact List.Pairwise.nil
  | cons x xs ih =>
    rw [List.zipIdx_cons]
    exact List.pairwise_cons.mpr ⟨fun b hb => List.le_snd_of_mem_zipIdx hb, ih (n + 1)⟩

theorem map_zipIdx_set {xs : List α} {i : Nat} {x' : α} {f g : α × Nat → β}
    (hself : ∀ x, xs[i]? = some x → f (x', i) = g (x, i))
    (hother : ∀ k x, k ≠ i → xs[k]? = some x → f (x, k) = g (x, k)) :
    (xs.set i x').zipIdx.map f = xs.zipIdx.map g := by
  refine List.ext_getElem? fun k => ?_
  simp only [List.getElem?_map, List.getElem?_zipIdx, Nat.zero_add]
  by_cases hk : k = i
  · subst hk
    cases hx : xs[k]? with
    | none => simp [List.getElem?_set_self', hx]
    | some x => simp [List.getElem?_set_self', hx, hself x hx]
  · rw [List.getElem?_set_ne (fun e => hk e.symm)]
    cases hx : xs[k]? with
    | none => rfl
    | some x => simp [hother k x hk hx]

theorem filterMap_zipIdx_set {xs : List α} {i : Nat} {x' : α} {f g : α × Nat → Option β}
    (hself : ∀ x, xs[i]? = some x → f (x', i) = g (x, i))
    (hother : ∀ k x, k ≠ i → xs[k]? = some x → f (x, k) = g (x, k)) :
    (xs.set i x').zipIdx.filterMap f = xs.zipIdx.filterMap g := by
  have h := congrArg (List.filterMap id) (map_zipIdx_set hself hother)
  simpa only [List.filterMap_map, Function.id_comp] using h

theorem flatMap_zipIdx_set {xs : List α} {i : Nat} {x' : α} {f g : α × Nat → List β}
    (hself : ∀ x, xs[i]? = some x → f (x', i) = g (x, i))
    (hother : ∀ k x, k ≠ i → xs[k]? = some x → f (x, k) = g (x, k)) :
    (xs.set i x').zipIdx.flatMap f = xs.zipIdx.flatMap g := by
  rw [List.flatMap_def, List.flatMap_def, map_zipIdx_set hself hother]

end Lists

namespace Json

theorem member?_eq_some {j c : Json} {key : String} :
    j.member? key = some c ↔ ∃ ms, j = .obj ms ∧ SortedMap.find? ms key = some c := by
  cases j <;> simp [member?]

theorem items?_eq_some {j : Json} {xs : List Json} : j.items? = some xs ↔ j = .arr xs := by
  cases j <;> simp [items?]

theorem listMember_eq_some {j : Json} {key : String} {xs : List Json} :
    (j.member? key).bind items? = some xs ↔
      ∃ ms, j = .obj ms ∧ SortedMap.find? ms key = some (.arr xs) := by
  simp only [Option.bind_eq_some_iff, items?_eq_some, member?_eq_some]
  constructor
  · rintro ⟨_, ⟨ms, rfl, h⟩, rfl⟩
    exact ⟨ms, rfl, h⟩
  · rintro ⟨ms, rfl, h⟩
    exact ⟨.arr xs, ⟨ms, rfl, h⟩, rfl⟩

def LayerAt (document : Json) (i : Nat) (layer : Json) : Prop :=
  ∃ layers, document.member? "layers" = some (.arr layers) ∧ layers[i]? = some layer

theorem exists_members {j u : Json} {key : String} {p : Path}
    (hu : j.get? (.key key :: p) = some u) :
    ∃ ms c, j = .obj ms ∧ SortedMap.find? ms key = some c ∧ c.get? p = some u := by
  obtain ⟨c, hc, hcu⟩ := get?_cons_eq_some.mp hu
  cases j with
  | obj ms =>
    refine ⟨ms, c, rfl, ?_, hcu⟩
    cases hm : SortedMap.find? ms key <;> simp [child, Step.text, hm] at hc
    rw [hc]
  | _ => simp [child] at hc

theorem replace_obj {ms : List (String × Json)} {s : Step} {c u : Json} {p : Path}
    (hc : SortedMap.find? ms s.text = some c) (hu : c.get? p = some u) (v : Json) :
    (obj ms).replace (s :: p) v = .obj (SortedMap.insert ms s.text (c.replace p v)) := by
  have hset : (obj ms).set (s :: p) v = .ok (.obj (SortedMap.insert ms s.text (c.replace p v))) := by
    refine set_cons_eq_ok.mpr ⟨c.replace p v, rfl, ?_⟩
    cases p with
    | nil => exact Or.inl ⟨rfl, rfl⟩
    | cons t p => exact Or.inr ⟨by simp, c, by simp [child, hc], set_eq_replace hu v⟩
  simp only [replace, hset]

theorem replace_arr {xs : List Json} {i : Nat} {c u : Json} {p : Path}
    (hc : xs[i]? = some c) (hu : c.get? p = some u) (v : Json) :
    (arr xs).replace (.index i :: p) v = .arr (xs.set i (c.replace p v)) := by
  obtain ⟨hi, -⟩ := List.getElem?_eq_some_iff.mp hc
  have hset : (arr xs).set (.index i :: p) v = .ok (.arr (xs.set i (c.replace p v))) := by
    refine set_cons_eq_ok.mpr ⟨c.replace p v, by simp only [put, if_pos hi], ?_⟩
    cases p with
    | nil => exact Or.inl ⟨rfl, rfl⟩
    | cons t p => exact Or.inr ⟨by simp, c, by simp [child, hc], set_eq_replace hu v⟩
  simp only [replace, hset]

end Json

namespace Control

open Json

theorem text?_eq_some {j : Json} {s : String} : j.text? = some s ↔ j = .str s := by
  cases j <;> simp [text?]

theorem ofField?_eq_some {scope : Scope} {layer i : Nat} {field : Json} {d : Descriptor} :
    ofField? scope layer field i = some d ↔
      ∃ nm mn kind v, field.member? "nm" = some (.str nm) ∧ field.member? "mn" = some (.str mn) ∧
        Kind.ofMatchName? mn = some kind ∧ field.get? valuePath = some v ∧
        d = ⟨Text.lower nm, kind, scope, layer, i, scope.address layer i, v⟩ := by
  simp only [ofField?, Option.bind_eq_bind, Option.bind_eq_some_iff, text?_eq_some,
    Option.some.injEq]
  constructor
  · rintro ⟨nm, ⟨_, hnm, rfl⟩, kind, ⟨mn, ⟨_, hmn, rfl⟩, hkind⟩, v, hv, rfl⟩
    exact ⟨nm, mn, kind, v, hnm, hmn, hkind, hv, rfl⟩
  · rintro ⟨nm, mn, kind, v, hnm, hmn, hkind, hv, rfl⟩
    exact ⟨nm, ⟨_, hnm, rfl⟩, kind, ⟨mn, ⟨_, hmn, rfl⟩, hkind⟩, v, hv, rfl⟩

theorem mem_ofLayer {scope : Scope} {layer : Json} {i : Nat} {d : Descriptor} :
    d ∈ ofLayer scope layer i ↔
      ∃ ms fields field, layer = .obj ms ∧ SortedMap.find? ms "ef" = some (.arr fields) ∧
        isNamed layer = true ∧ fields[d.field]? = some field ∧
        ofField? scope i field d.field = some d := by
  cases hf : (layer.member? "ef").bind items? with
  | none =>
    simp only [ofLayer, hf, List.not_mem_nil, false_iff]
    rintro ⟨ms, fields, field, rfl, hef, -⟩
    rw [listMember_eq_some.mpr ⟨ms, rfl, hef⟩] at hf
    cases hf
  | some fields =>
    obtain ⟨ms, rfl, hef⟩ := listMember_eq_some.mp hf
    by_cases hn : isNamed (.obj ms) = true
    · simp only [ofLayer, hf, hn, if_true, List.mem_filterMap, Prod.exists,
        List.mk_mem_zipIdx_iff_getElem?]
      constructor
      · rintro ⟨field, j, hfield, hd⟩
        obtain ⟨nm, mn, kind, v, -, -, -, -, rfl⟩ := ofField?_eq_some.mp hd
        exact ⟨ms, fields, field, rfl, hef, trivial, hfield, hd⟩
      · rintro ⟨ms', fields', field, hms, hef', -, hfield, hd⟩
        cases hms
        rw [hef] at hef'
        cases hef'
        exact ⟨field, d.field, hfield, hd⟩
    · simp only [ofLayer, hf, hn]
      simp

/-- Where in the document a control is, and what makes it one. -/
theorem mem_discover {document : Json} {scope : Scope} {d : Descriptor} :
    d ∈ discover document scope ↔
      ∃ root layers layer fields field, document = .obj root ∧
        SortedMap.find? root "layers" = some (.arr layers) ∧ layers[d.layer]? = some (.obj layer) ∧
        SortedMap.find? layer "ef" = some (.arr fields) ∧ isNamed (.obj layer) = true ∧
        fields[d.field]? = some field ∧ ofField? scope d.layer field d.field = some d := by
  cases hl : (document.member? "layers").bind items? with
  | none =>
    simp only [discover, hl, List.not_mem_nil, false_iff]
    rintro ⟨root, layers, layer, fields, field, rfl, hlayers, -⟩
    rw [listMember_eq_some.mpr ⟨root, rfl, hlayers⟩] at hl
    cases hl
  | some layers =>
    obtain ⟨root, rfl, hlayers⟩ := listMember_eq_some.mp hl
    simp only [discover, hl, List.mem_flatMap, Prod.exists, List.mk_mem_zipIdx_iff_getElem?,
      mem_ofLayer]
    constructor
    · rintro ⟨_, i, hlayer, ms, fields, field, rfl, hef, hn, hfield, hd⟩
      obtain ⟨nm, mn, kind, v, -, -, -, -, he⟩ := ofField?_eq_some.mp hd
      have hi : d.layer = i := by rw [he]
      subst hi
      exact ⟨root, layers, ms, fields, field, rfl, hlayers, hlayer, hef, hn, hfield, hd⟩
    · rintro ⟨root', layers', ms, fields, field, hroot, hlayers', hlayer, hef, hn, hfield, hd⟩
      cases hroot
      rw [hlayers] at hlayers'
      cases hlayers'
      exact ⟨.obj ms, d.layer, hlayer, ms, fields, field, rfl, hef, hn, hfield, hd⟩

theorem path_of_mem_discover {document : Json} {scope : Scope} {d : Descriptor}
    (h : d ∈ discover document scope) : d.path = scope.address d.layer d.field := by
  obtain ⟨_, _, _, _, _, -, -, -, -, -, -, hd⟩ := mem_discover.mp h
  obtain ⟨_, _, _, _, -, -, -, -, he⟩ := ofField?_eq_some.mp hd
  rw [he]

theorem get?_of_mem_discover {document : Json} {scope : Scope} {d : Descriptor}
    (h : d ∈ discover document scope) :
    document.get? (Scope.document.address d.layer d.field) = some d.value := by
  obtain ⟨root, layers, layer, fields, field, rfl, hlayers, hlayer, hef, -, hfield, hd⟩ :=
    mem_discover.mp h
  obtain ⟨_, _, _, v, -, -, -, hv, he⟩ := ofField?_eq_some.mp hd
  have hvalue : d.value = v := by rw [he]
  rw [hvalue, ← hv]
  simp [Scope.address, get?, child, Step.text, hlayers, hlayer, hef, hfield, valuePath]

theorem layer_of_mem_ofLayer {scope : Scope} {layer : Json} {i : Nat} {d : Descriptor}
    (h : d ∈ ofLayer scope layer i) : d.layer = i := by
  obtain ⟨_, _, _, -, -, -, -, hd⟩ := mem_ofLayer.mp h
  obtain ⟨_, _, _, _, -, -, -, -, he⟩ := ofField?_eq_some.mp hd
  rw [he]

theorem pairwise_ofLayer (scope : Scope) (layer : Json) (i : Nat) :
    (ofLayer scope layer i).Pairwise fun a b => a.field < b.field := by
  unfold ofLayer
  split
  · exact List.Pairwise.nil
  · split
    · refine List.pairwise_filterMap.mpr ((pairwise_zipIdx _ 0).imp ?_)
      rintro ⟨field, j⟩ ⟨field', j'⟩ hlt a ha b hb
      obtain ⟨_, _, _, _, -, -, -, -, rfl⟩ := ofField?_eq_some.mp ha
      obtain ⟨_, _, _, _, -, -, -, -, rfl⟩ := ofField?_eq_some.mp hb
      exact hlt
    · exact List.Pairwise.nil

theorem pairwise_discover (document : Json) (scope : Scope) :
    (discover document scope).Pairwise fun a b =>
      a.layer < b.layer ∨ a.layer = b.layer ∧ a.field < b.field := by
  cases hl : (document.member? "layers").bind items? with
  | none => simp [discover, hl]
  | some layers =>
    simp only [discover, hl, List.pairwise_flatMap]
    constructor
    · rintro ⟨layer, i⟩ -
      refine (pairwise_ofLayer scope layer i).imp_of_mem fun ha hb hlt => Or.inr ⟨?_, hlt⟩
      rw [layer_of_mem_ofLayer ha, layer_of_mem_ofLayer hb]
    · refine (pairwise_zipIdx layers 0).imp ?_
      rintro ⟨layer, i⟩ ⟨layer', i'⟩ hlt a ha b hb
      refine Or.inl ?_
      rw [layer_of_mem_ofLayer ha, layer_of_mem_ofLayer hb]
      exact hlt

theorem nodup_keys_discover (document : Json) (scope : Scope) :
    ((discover document scope).map Descriptor.key).Nodup := by
  refine List.pairwise_map.mpr ((pairwise_discover document scope).imp ?_)
  intro a b h e
  simp only [Descriptor.key, Prod.mk.injEq] at e
  omega

/-- The descriptor of a control whose value was replaced, and any other descriptor as it is. -/
def Descriptor.withValue (d : Descriptor) (key : Nat × Nat) (v : Json) : Descriptor :=
  if d.key = key then { d with value := v } else d

theorem isNamed_insert (ms : List (String × Json)) {key : String} (j : Json) (h : key ≠ "nm") :
    isNamed (.obj (SortedMap.insert ms key j)) = isNamed (.obj ms) := by
  simp only [isNamed, member?, SortedMap.find?_insert_of_ne ms j h]

theorem ofField?_replace {scope : Scope} {layer i : Nat} {field u : Json}
    (h : field.get? valuePath = some u) (v : Json) :
    ofField? scope layer (field.replace valuePath v) i =
      (ofField? scope layer field i).map fun d => { d with value := v } := by
  have hv := get?_replace_self h v
  obtain ⟨ms, c, rfl, hc, hu⟩ := exists_members h
  have hother : ∀ key, key ≠ "ef" →
      ((obj ms).replace valuePath v).member? key = (obj ms).member? key := by
    intro key hkey
    rw [valuePath, replace_obj (s := .key "ef") hc hu]
    exact SortedMap.find?_insert_of_ne ms _ (Ne.symm hkey)
  simp only [ofField?, hother "nm" (by decide), hother "mn" (by decide), hv, h]
  cases ((obj ms).member? "nm").bind text? with
  | none => rfl
  | some nm => cases (((obj ms).member? "mn").bind text?).bind Kind.ofMatchName? <;> rfl

variable {document : Json} {scope : Scope} {d : Descriptor}

theorem ofLayer_set {ms : List (String × Json)} {fields : List Json} {field u : Json} {i j : Nat}
    (hef : SortedMap.find? ms "ef" = some (.arr fields)) (hfield : fields[j]? = some field)
    (hu : field.get? valuePath = some u) (v : Json) :
    ofLayer scope
        (.obj (SortedMap.insert ms "ef" (.arr (fields.set j (field.replace valuePath v))))) i =
      (ofLayer scope (.obj ms) i).map (·.withValue (i, j) v) := by
  have hef' : ((obj (SortedMap.insert ms "ef" (.arr (fields.set j (field.replace valuePath v))))).member?
      "ef").bind items? = some (fields.set j (field.replace valuePath v)) :=
    listMember_eq_some.mpr ⟨_, rfl, SortedMap.find?_insert_self ms "ef" _⟩
  have hmember := listMember_eq_some.mpr ⟨ms, rfl, hef⟩
  simp only [ofLayer, hef', hmember, isNamed_insert ms _ (show "ef" ≠ "nm" by decide)]
  by_cases hn : isNamed (.obj ms) = true
  · simp only [hn, if_true, List.map_filterMap]
    -- The field written to is a control as before, with another value; no other field changes.
    refine filterMap_zipIdx_set ?_ ?_
    · intro f hf
      rw [hfield] at hf
      cases hf
      simp only [ofField?_replace hu]
      cases hd : ofField? scope i field j with
      | none => rfl
      | some d =>
        obtain ⟨_, _, _, _, -, -, -, -, rfl⟩ := ofField?_eq_some.mp hd
        simp [Descriptor.withValue, Descriptor.key]
    · intro k f hk hf
      cases hd : ofField? scope i f k with
      | none => rfl
      | some d =>
        obtain ⟨_, _, _, _, -, -, -, -, rfl⟩ := ofField?_eq_some.mp hd
        simp [Descriptor.withValue, Descriptor.key, hk]
  · simp only [hn]
    rfl

theorem replace_address {root layer : List (String × Json)} {layers fields : List Json}
    {field u : Json} {i j : Nat} (hlayers : SortedMap.find? root "layers" = some (.arr layers))
    (hlayer : layers[i]? = some (.obj layer)) (hef : SortedMap.find? layer "ef" = some (.arr fields))
    (hfield : fields[j]? = some field) (hu : field.get? valuePath = some u) (v : Json) :
    (obj root).replace (Scope.document.address i j) v =
      .obj (SortedMap.insert root "layers" (.arr (layers.set i
        (.obj (SortedMap.insert layer "ef" (.arr (fields.set j (field.replace valuePath v)))))))) := by
  have hfields : (arr fields).get? (.index j :: valuePath) = some u :=
    get?_cons_eq_some.mpr ⟨field, by simp only [child, hfield], hu⟩
  have hobj : (obj layer).get? (.key "ef" :: .index j :: valuePath) = some u :=
    get?_cons_eq_some.mpr ⟨.arr fields, by simp only [child, Step.text, hef], hfields⟩
  have harr : (arr layers).get? (.index i :: .key "ef" :: .index j :: valuePath) = some u :=
    get?_cons_eq_some.mpr ⟨.obj layer, by simp only [child, hlayer], hobj⟩
  change (obj root).replace (.key "layers" :: .index i :: .key "ef" :: .index j :: valuePath) v = _
  rw [replace_obj (s := .key "layers") hlayers harr, replace_arr hlayer hobj,
    replace_obj (s := .key "ef") hef hfields, replace_arr hfield hu]
  rfl

/-- After a write to a control the same controls are found, with the new value for this one. -/
theorem discover_replace {scope' : Scope} (hd : d ∈ discover document scope') (v : Json) :
    discover (document.replace (Scope.document.address d.layer d.field) v) scope =
      (discover document scope).map (·.withValue d.key v) := by
  obtain ⟨root, layers, layer, fields, field, rfl, hlayers, hlayer, hef, -, hfield, hd⟩ :=
    mem_discover.mp hd
  obtain ⟨_, _, _, u, -, -, -, hu, -⟩ := ofField?_eq_some.mp hd
  rw [replace_address hlayers hlayer hef hfield hu]
  simp only [discover, listMember_eq_some.mpr ⟨_, rfl, SortedMap.find?_insert_self root "layers" _⟩,
    listMember_eq_some.mpr ⟨root, rfl, hlayers⟩, List.map_flatMap]
  refine flatMap_zipIdx_set ?_ ?_
  · intro l hl
    rw [hlayer] at hl
    cases hl
    exact ofLayer_set hef hfield hu v
  · intro k l hk hl
    have hsame : (ofLayer scope l k).map (·.withValue d.key v) = (ofLayer scope l k).map id := by
      refine List.map_congr_left fun e he => if_neg fun hkey => hk ?_
      rw [← layer_of_mem_ofLayer he]
      exact congrArg Prod.fst hkey
    rw [hsame, List.map_id]

end Control

end IconMotion
