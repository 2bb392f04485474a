import IconMotion.Animation.Decode
import IconMotion.Proofs.Outcomes

namespace IconMotion

namespace Decoder

variable {τ : Type}

theorem field?_insert_self (ms : List (String × Json)) (key : String) (j : Json) (d : Decoder τ) :
    field? (SortedMap.insert ms key j) key d = some <$> d j := by
  simp only [field?, SortedMap.find?_insert_self]

theorem field?_insert_of_ne {key name : String} (ms : List (String × Json)) (j : Json)
    (d : Decoder τ) (h : key ≠ name) :
    field? (SortedMap.insert ms key j) name d = field? ms name d := by
  simp only [field?, SortedMap.find?_insert_of_ne ms j h]

theorem read_of_field? {ms : List (String × Json)} {name : String} {j : Json} {d : Decoder τ}
    {x : Option τ} (h : field? ms name d = .ok x) (hj : SortedMap.find? ms name = some j) :
    ∃ y, d j = .ok y ∧ x = some y := by
  simp only [field?, hj] at h
  cases hy : d j with
  | error e =>
    rw [hy] at h
    cases h
  | ok y =>
    rw [hy] at h
    cases h
    exact ⟨y, rfl, rfl⟩

theorem mapM_cons_eq_ok {d : Decoder τ} {x : Json} {xs : List Json} {ys : List τ} :
    (x :: xs).mapM d = .ok ys ↔ ∃ y, d x = .ok y ∧ ∃ zs, xs.mapM d = .ok zs ∧ y :: zs = ys := by
  simp only [List.mapM_cons, bind_eq_ok, pure_eq_ok]

theorem exists_of_mapM {d : Decoder τ} {xs : List Json} {ys : List τ} {i : Nat} {x : Json}
    (h : xs.mapM d = .ok ys) (hx : xs[i]? = some x) : ∃ y, d x = .ok y ∧ ys[i]? = some y := by
  induction xs generalizing ys i with
  | nil => simp at hx
  | cons x' xs ih =>
    obtain ⟨y, hy, zs, hzs, rfl⟩ := mapM_cons_eq_ok.mp h
    cases i with
    | zero =>
      obtain rfl : x' = x := by simpa using hx
      exact ⟨y, hy, rfl⟩
    | succ i => simpa using ih hzs (by simpa using hx)

theorem mapM_set {d : Decoder τ} {xs : List Json} {ys : List τ} {x : Json} {y : τ}
    (h : xs.mapM d = .ok ys) (i : Nat) (hx : d x = .ok y) :
    (xs.set i x).mapM d = .ok (ys.set i y) := by
  induction xs generalizing ys i with
  | nil =>
    cases h
    simp [pure_eq_ok]
  | cons x' xs ih =>
    obtain ⟨y', hy', zs, hzs, rfl⟩ := mapM_cons_eq_ok.mp h
    cases i with
    | zero => exact mapM_cons_eq_ok.mpr ⟨y, hx, zs, hzs, rfl⟩
    | succ i => exact mapM_cons_eq_ok.mpr ⟨y', hy', zs.set i y, ih hzs i, rfl⟩

theorem propertyOfMembers_insert {ms : List (String × Json)} {q : Property Json} (j : Json)
    (h : propertyOfMembers json ms = .ok q) :
    propertyOfMembers json (SortedMap.insert ms "k" j) = .ok { q with track := toTrack json j } := by
  simp only [propertyOfMembers, bind_eq_ok, pure_eq_ok] at h
  obtain ⟨animated, hanimated, values, -, index, hindex, expression, hexpression, rfl⟩ := h
  simp [propertyOfMembers, field?_insert_self, field?_insert_of_ne, hanimated, hindex, hexpression,
    ok_bind]
  rfl

theorem track_of_propertyOfMembers {ms : List (String × Json)} {q : Property Json} {j : Json}
    (h : propertyOfMembers json ms = .ok q) (hj : SortedMap.find? ms "k" = some j) :
    q.track = toTrack json j := by
  simp only [propertyOfMembers, bind_eq_ok, pure_eq_ok] at h
  obtain ⟨animated, -, values, hvalues, index, -, expression, -, rfl⟩ := h
  obtain ⟨t, ht, rfl⟩ := read_of_field? hvalues hj
  exact (Except.ok.inj ht).symm

theorem effectValueOfMembers_insert {ms : List (String × Json)} {v : EffectValue} {j : Json}
    {q : Option (Property Json)} (h : effectValueOfMembers ms = .ok v)
    (hj : effectProperty j = .ok q) :
    effectValueOfMembers (SortedMap.insert ms "v" j) = .ok { v with property := q } := by
  simp only [effectValueOfMembers, bind_eq_ok, pure_eq_ok] at h
  obtain ⟨index, hindex, matchName, hmatch, name, hname, type, htype, value, -, rfl⟩ := h
  simp only [effectValueOfMembers, field?_insert_self, field?_insert_of_ne, ne_eq, String.reduceEq,
    not_false_eq_true, hindex, hmatch, hname, htype, hj, ok_bind]
  rfl

theorem property_of_effectValueOfMembers {ms : List (String × Json)} {v : EffectValue} {j : Json}
    (h : effectValueOfMembers ms = .ok v) (hj : SortedMap.find? ms "v" = some j) :
    effectProperty j = .ok v.property := by
  simp only [effectValueOfMembers, bind_eq_ok, pure_eq_ok] at h
  obtain ⟨index, -, matchName, -, name, -, type, -, value, hvalue, rfl⟩ := h
  obtain ⟨q, hq, rfl⟩ := read_of_field? hvalue hj
  exact hq

theorem effectOfMembers_insert {ms : List (String × Json)} {e : Effect} {j : Json}
    {vs : Option (List EffectValue)} (h : effectOfMembers ms = .ok e)
    (hj : optional (list effectValue) j = .ok vs) :
    effectOfMembers (SortedMap.insert ms "ef" j) = .ok { e with values := vs } := by
  simp only [effectOfMembers, bind_eq_ok, pure_eq_ok] at h
  obtain ⟨values, -, enabled, henabled, index, hindex, matchName, hmatch, name, hname, type,
    htype, rfl⟩ := h
  simp only [effectOfMembers, field?_insert_self, field?_insert_of_ne, ne_eq, String.reduceEq,
    not_false_eq_true, hj, henabled, hindex, hmatch, hname, htype, ok_bind]
  rfl

theorem values_of_effectOfMembers {ms : List (String × Json)} {e : Effect} {j : Json}
    (h : effectOfMembers ms = .ok e) (hj : SortedMap.find? ms "ef" = some j) :
    optional (list effectValue) j = .ok e.values := by
  simp only [effectOfMembers, bind_eq_ok, pure_eq_ok] at h
  obtain ⟨values, hvalues, enabled, -, index, -, matchName, -, name, -, type, -, rfl⟩ := h
  obtain ⟨vs, hvs, rfl⟩ := read_of_field? hvalues hj
  exact hvs

theorem layerOfMembers_insert {ms : List (String × Json)} {l : Layer} {j : Json}
    {es : Option (List Effect)} (h : layerOfMembers ms = .ok l)
    (hj : optional (list effect) j = .ok es) :
    layerOfMembers (SortedMap.insert ms "ef" j) = .ok { l with effects := es } := by
  simp only [layerOfMembers, bind_eq_ok, pure_eq_ok] at h
  obtain ⟨effects, -, index, hindex, inPoint, hin, name, hname, outPoint, hout, startTime, hstart,
    type, htype, rfl⟩ := h
  simp only [layerOfMembers, field?_insert_self, field?_insert_of_ne, ne_eq, String.reduceEq,
    not_false_eq_true, hj, hindex, hin, hname, hout, hstart, htype, ok_bind]
  rfl

theorem effects_of_layerOfMembers {ms : List (String × Json)} {l : Layer} {j : Json}
    (h : layerOfMembers ms = .ok l) (hj : SortedMap.find? ms "ef" = some j) :
    optional (list effect) j = .ok l.effects := by
  simp only [layerOfMembers, bind_eq_ok, pure_eq_ok] at h
  obtain ⟨effects, heffects, index, -, inPoint, -, name, -, outPoint, -, startTime, -, type, -,
    rfl⟩ := h
  obtain ⟨es, hes, rfl⟩ := read_of_field? heffects hj
  exact hes

theorem animationOfMembers_insert {ms : List (String × Json)} {a : Animation} {j : Json}
    {ls : List Layer} (h : animationOfMembers ms = .ok a) (hj : list layer j = .ok ls) :
    animationOfMembers (SortedMap.insert ms "layers" j) = .ok { a with layers := ls } := by
  simp only [animationOfMembers, bind_eq_ok, pure_eq_ok] at h
  obtain ⟨frameRate, hrate, height, hheight, inPoint, hin, layers, -, name, hname, outPoint, hout,
    version, hversion, width, hwidth, inPoint', hin', outPoint', hout', frameRate', hrate', width',
    hwidth', height', hheight', rfl⟩ := h
  simp only [animationOfMembers, field?_insert_self, field?_insert_of_ne, ne_eq, String.reduceEq,
    not_false_eq_true, hj, hrate, hheight, hin, hname, hout, hversion, hwidth, hin', hout', hrate',
    hwidth', hheight', ok_bind]
  rfl

theorem layers_of_animationOfMembers {ms : List (String × Json)} {a : Animation} {j : Json}
    (h : animationOfMembers ms = .ok a) (hj : SortedMap.find? ms "layers" = some j) :
    list layer j = .ok a.layers := by
  simp only [animationOfMembers, bind_eq_ok, pure_eq_ok] at h
  obtain ⟨frameRate, -, height, -, inPoint, -, layers, hlayers, name, -, outPoint, -, version, -,
    width, -, inPoint', -, outPoint', -, frameRate', -, width', -, height', -, rfl⟩ := h
  obtain ⟨ls, hls, rfl⟩ := read_of_field? hlayers hj
  exact hls

end Decoder

end IconMotion
