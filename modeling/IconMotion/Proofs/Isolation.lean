import Mathlib.Data.List.Pairwise
import IconMotion.Proofs.Independence
import IconMotion.Proofs.Refusals

namespace IconMotion

namespace Control

section Lists

variable {τ : Type} [Target τ] {t t' : τ} {p : Path} {v : Json}
  {slots slots' : List (Path × Json)}

theorem set_putAll_of_ok (hset : Target.set t p v = .ok t')
    (h : ∀ s ∈ slots, Target.Independent τ p s.1) :
    ∃ u, putAll t' slots = (u, (putAll t slots).2) ∧ Target.set (putAll t slots).1 p v = .ok u := by
  induction slots generalizing t t' with
  | nil => exact ⟨t', rfl, hset⟩
  | cons s slots ih =>
    obtain ⟨q, w⟩ := s
    have hq : Target.Independent τ p q := h (q, w) List.mem_cons_self
    cases hw : Target.set t q w with
    | error e =>
      refine ⟨t', ?_, by simpa only [putAll, hw] using hset⟩
      simp only [putAll, hw, hq.refuses t t' v w e hset hw]
    | ok u =>
      obtain ⟨u', hu', hu⟩ := hq.commutes t t' u v w hset hw
      simp only [putAll, hw, hu']
      exact ih hu fun s hs => h s (List.mem_cons_of_mem _ hs)

theorem set_putAll_of_error {e : PathError} (hset : Target.set t p v = .error e)
    (h : ∀ s ∈ slots, Target.Independent τ s.1 p) :
    Target.set (putAll t slots).1 p v = .error e :=
  putAll_induction (P := fun u => Target.set u p v = .error e) hset fun s hs u u' hu hw =>
    (h s hs).refuses u u' s.2 v e hw hu

/-- No place of the one list minds what is put in the places of the other. -/
def Unrelated (τ : Type) [Target τ] (slots slots' : List (Path × Json)) : Prop :=
  ∀ s ∈ slots, ∀ s' ∈ slots', Target.Independent τ s.1 s'.1 ∧ Target.Independent τ s'.1 s.1

theorem putAll_putAll (t : τ) (h : Unrelated τ slots slots') :
    putAll (putAll t slots).1 slots' =
      ((putAll (putAll t slots').1 slots).1, (putAll t slots').2) := by
  induction slots generalizing t with
  | nil => rfl
  | cons s slots ih =>
    obtain ⟨p, v⟩ := s
    have hs := h (p, v) List.mem_cons_self
    cases hw : Target.set t p v with
    | error e =>
      have he := set_putAll_of_error hw fun s' hs' => (hs s' hs').2
      simp only [putAll, hw, he]
    | ok u =>
      obtain ⟨u', hu', hset⟩ := set_putAll_of_ok hw fun s' hs' => (hs s' hs').1
      simp only [putAll, hw, hset]
      rw [ih u fun s hs => h s (List.mem_cons_of_mem _ hs), hu']

end Lists

theorem slots_eq (d : Descriptor) (v : Json) : d.slots v = [] ∨ (∃ w, d.slots v = [(d.path, w)]) ∨
    ∃ x y, d.slots v = [(d.path ++ [.index 0], x), (d.path ++ [.index 1], y)] := by
  unfold Descriptor.slots
  cases d.kind with
  | color =>
    cases colorValue? v with
    | none => exact .inl rfl
    | some w => exact .inr (.inl ⟨w, rfl⟩)
  | point =>
    cases pointValues? v with
    | none => exact .inl rfl
    | some xy => exact .inr (.inr ⟨xy.1, xy.2, rfl⟩)
  | slider | checkbox | feature => exact .inr (.inl ⟨v, rfl⟩)

theorem path_of_mem_slots {d : Descriptor} {v : Json} {s : Path × Json} (h : s ∈ d.slots v) :
    ∃ r, s.1 = d.path ++ r := by
  rcases slots_eq d v with hs | ⟨w, hs⟩ | ⟨x, y, hs⟩ <;> rw [hs] at h
  · cases h
  · exact ⟨[], by rw [List.mem_singleton.mp h, List.append_nil]⟩
  · rcases List.mem_pair.mp h with rfl | rfl
    · exact ⟨[.index 0], rfl⟩
    · exact ⟨[.index 1], rfl⟩

/-- Two controls do not mind each other, whatever is written at or below their paths. -/
def Descriptor.Apart (τ : Type) [Target τ] (d e : Descriptor) : Prop :=
  ∀ r u, Target.Independent τ (d.path ++ r) (e.path ++ u) ∧
    Target.Independent τ (e.path ++ u) (d.path ++ r)

section Several

variable {τ : Type} [Target τ] {t : τ} {d : Descriptor} {ds ds' : List Descriptor}

instance : Std.Symm (Descriptor.Apart τ) := ⟨fun _ _ h r u => (h u r).symm⟩

theorem unrelated_slots {d e : Descriptor} (h : d.Apart τ e) (v w : Json) :
    Unrelated τ (d.slots v) (e.slots w) := by
  intro s hs s' hs'
  obtain ⟨r, hr⟩ := path_of_mem_slots hs
  obtain ⟨u, hu⟩ := path_of_mem_slots hs'
  rw [hr, hu]
  exact h r u

theorem write_fst (t : τ) (ds : List Descriptor) (v : Json) :
    (write t ds v).1 = ds.foldl (fun t d => (putAll t (d.slots v)).1) t := by
  induction ds generalizing t with
  | nil => rfl
  | cons d ds ih => exact ih _

theorem write_perm (hds : ds.Pairwise (Descriptor.Apart τ)) (h : ds.Perm ds') (v : Json) :
    (write t ds' v).1 = (write t ds v).1 := by
  rw [write_fst, write_fst]
  refine (h.foldl_eq' (fun d hd e he t => ?_) t).symm
  rcases eq_or_ne d e with rfl | hne
  · rfl
  · rw [putAll_putAll t (unrelated_slots (hds.forall hd he hne) v v)]

theorem snd_write_single (t : τ) (d : Descriptor) (v : Json) :
    (write t [d] v).2 = skips .write d (putAll t (d.slots v)).2 := by
  simp only [write, List.append_nil]

theorem snd_write (hds : ds.Pairwise (Descriptor.Apart τ)) (v : Json) :
    (write t ds v).2 = ds.flatMap fun d => (write t [d] v).2 := by
  induction ds generalizing t with
  | nil => rfl
  | cons d ds ih =>
    obtain ⟨hd, hds⟩ := List.pairwise_cons.mp hds
    have hskips : ∀ e ∈ ds, (write (putAll t (d.slots v)).1 [e] v).2 = (write t [e] v).2 := by
      intro e he
      simp only [snd_write_single, putAll_putAll t (unrelated_slots (hd e he) v v)]
    rw [List.flatMap_cons, ← List.flatMap_congr hskips, ← ih hds, snd_write_single]
    rfl

theorem get?_write_of_apart (h : ∀ e ∈ ds, d.Apart τ e) (v : Json) :
    Target.get? (write t ds v).1 d.path = Target.get? t d.path := by
  refine write_induction (P := fun u => Target.get? u d.path = Target.get? t d.path) rfl ?_
  intro e he s hs u u' hu hw
  obtain ⟨r, hr⟩ := path_of_mem_slots hs
  have hindependent := (h e he [] r).2
  rw [← hr, List.append_nil] at hindependent
  exact (hindependent.reads u u' s.2 hw).trans hu

theorem get?_write_of_mem (hds : ds.Pairwise (Descriptor.Apart τ)) (hd : d ∈ ds) (v : Json) :
    Target.get? (write t ds v).1 d.path = Target.get? (putAll t (d.slots v)).1 d.path := by
  -- In another order the control comes first, and what is written after it is read past.
  obtain ⟨before, after, rfl⟩ := List.append_of_mem hd
  have hperm : (before ++ d :: after).Perm (d :: (before ++ after)) := List.perm_middle
  have hfirst := List.pairwise_cons.mp (hds.perm hperm fun h => Std.Symm.symm _ _ h)
  rw [← write_perm hds hperm v]
  exact get?_write_of_apart hfirst.1 v

end Several

/-- What a thing with controls makes of a write at or below an address. -/
structure Hosts (τ : Type) [Target τ] : Prop where
  apart : ∀ {a b : Nat × Nat} (scope scope' : Scope) (r u : Path), a ≠ b →
    Target.Independent τ (scope.address a.1 a.2 ++ r) (scope'.address b.1 b.2 ++ u)
  reads : ∀ {t t' : τ} {p : Path} {v : Json}, Target.set t p v = .ok t' → Target.get? t' p = some v
  holds : ∀ {t : τ} {scope : Scope} {a : Nat × Nat} {u : Json},
    Target.get? t (scope.address a.1 a.2) = some u → ∃ put,
      Target.Holds t (scope.address a.1 a.2) u put ∧
        ∀ w, Target.Holds (put w) (scope.address a.1 a.2) w put
  reached : ∀ {t t' : τ} {scope : Scope} {a : Nat × Nat} {s : Step} {v : Json},
    Target.set t (scope.address a.1 a.2 ++ [s]) v = .ok t' →
      ∃ u, Target.get? t (scope.address a.1 a.2) = some u

theorem hosts_json : Hosts Json where
  apart scope scope' r u h := Json.independent (Path.forks_append (forks_address h scope scope') r u)
  reads h := Json.isLens.reads _ _ _ _ h
  holds h := ⟨_, Json.holds h, Json.holds_replace h⟩
  reached {t t' scope a s v} h := by
    obtain ⟨c, s', hc, -, -⟩ := (Json.exists_set_iff (by simp)).mp ⟨_, Json.target_set_eq_ok.mp h⟩
    rw [List.dropLast_concat] at hc
    exact ⟨c, hc⟩

theorem hosts_player : Hosts Player where
  apart scope scope' r u h := Player.independent (elsewhere_address h scope scope' r u)
  reads h := Player.isLens.reads _ _ _ _ h
  holds {t scope a u} h := by
    cases hplace : Live.Place.ofPath? (scope.address a.1 a.2) with
    | none => cases (Player.get?_of_no_place hplace).symm.trans h
    | some place =>
      have hplace' : Live.Place.ofPath? (scope.address a.1 a.2 ++ []) = some place := by
        rw [List.append_nil, hplace]
      obtain ⟨rfl, -⟩ := place_of_address hplace'
      have hu := (Player.get?_address t a.1 a.2).symm.trans h
      exact ⟨_, Player.holds hu, Player.holds_hold hu⟩
  reached {t t' scope a s v} h := by
    obtain ⟨place, u, w, hplace, hu, -, -⟩ := Player.set_eq_ok.mp h
    obtain ⟨rfl, rfl⟩ := place_of_address hplace
    exact ⟨u, (Player.get?_address t a.1 a.2).trans hu⟩

def Descriptor.At (d : Descriptor) (key : Nat × Nat) : Prop :=
  ∃ scope : Scope, d.path = scope.address key.1 key.2

theorem Descriptor.At.unique {d : Descriptor} {a b : Nat × Nat} (ha : d.At a) (hb : d.At b) :
    a = b := by
  obtain ⟨scope, ha⟩ := ha
  obtain ⟨scope', hb⟩ := hb
  cases scope <;> cases scope' <;> simpa [Scope.address, Prod.ext_iff] using ha.symm.trans hb

theorem get?_of_withPoint? {u x y w : Json} (h : withPoint? u x y = some w) :
    w.get? [.index 0] = some x ∧ w.get? [.index 1] = some y := by
  obtain ⟨m, hx, hy⟩ := withPoint?_eq_some h
  have hapart : Path.Apart [.index 1] [.index 0] := .inl (by decide)
  exact ⟨(Json.get?_set_of_apart hy hapart).trans (Json.get?_set_self hx), Json.get?_set_self hy⟩

section Outcome

variable {τ : Type} [Target τ] {t : τ} {d : Descriptor} {key : Nat × Nat} {v : Json}

theorem Hosts.holds_at {u : Json} (hτ : Hosts τ) (hd : d.At key)
    (hu : Target.get? t d.path = some u) : ∃ put, Target.Holds t d.path u put ∧
      ∀ w, Target.Holds (put w) d.path w put := by
  obtain ⟨scope, hpath⟩ := hd
  rw [hpath] at hu ⊢
  exact hτ.holds hu

theorem exists_error_of_unreached (hτ : Hosts τ) (hd : d.At key) (hu : Target.get? t d.path = none)
    (s : Step) (w : Json) : ∃ e, Target.set t (d.path ++ [s]) w = .error e := by
  obtain ⟨scope, hpath⟩ := hd
  cases hset : Target.set t (d.path ++ [s]) w with
  | error e => exact ⟨e, rfl⟩
  | ok t' =>
    obtain ⟨u, hu'⟩ := hτ.reached (hpath ▸ hset)
    cases (hpath ▸ hu).symm.trans hu'

theorem putAll_of_skip (hτ : Hosts τ) (hd : d.At key)
    (h : d.slots v = [] ∨ (putAll t (d.slots v)).2 ≠ none) : (putAll t (d.slots v)).1 = t := by
  rcases h with h | h
  · rw [h]
    rfl
  cases hu : Target.get? t d.path with
  | some u =>
    obtain ⟨put, hput, hself⟩ := hτ.holds_at hd hu
    cases hw : d.kind.written? u v with
    | none => exact (putAll_of_refused hput hw).1
    | some w => exact absurd (congrArg Prod.snd (putAll_of_written hput hself hw)) h
  | none =>
    -- A whole value fails as a whole, and a pair already at its first component.
    rcases slots_eq d v with hs | ⟨w, hs⟩ | ⟨x, y, hs⟩ <;> rw [hs] at h ⊢
    · rfl
    · cases hset : Target.set t d.path w with
      | ok t' => simp [putAll, hset] at h
      | error e => simp only [putAll, hset]
    · obtain ⟨e, he⟩ := exists_error_of_unreached hτ hd hu (.index 0) x
      simp only [putAll, he]

theorem putAll_point (hτ : Hosts τ) (hd : d.At key) (hpoint : d.kind = .point) {x y : Json}
    (hv : pointValues? v = some (x, y)) :
    (∃ w, Target.get? (putAll t (d.slots v)).1 d.path = some w ∧
      w.get? [.index 0] = some x ∧ w.get? [.index 1] = some y) ∨ (putAll t (d.slots v)).1 = t := by
  cases hu : Target.get? t d.path with
  | some u =>
    obtain ⟨put, hput, hself⟩ := hτ.holds_at hd hu
    cases hw : d.kind.written? u v with
    | none => exact .inr (putAll_of_refused hput hw).1
    | some w =>
      have hwhole := hput [] w
      rw [List.append_nil] at hwhole
      rw [putAll_of_written hput hself hw]
      simp only [hpoint, Kind.written?, hv, Option.bind_some] at hw
      exact .inl ⟨w, hτ.reads hwhole, get?_of_withPoint? hw⟩
  | none =>
    refine .inr (putAll_of_skip hτ hd (.inr fun hnone => ?_))
    obtain ⟨e, he⟩ := exists_error_of_unreached hτ hd hu (.index 0) x
    simp [Descriptor.slots, hpoint, hv, putAll, he] at hnone

end Outcome

structure OnFields (ds : List Descriptor) : Prop where
  addressed : ∀ d ∈ ds, ∃ key, d.At key
  distinct : ds.Pairwise fun d e => ∀ a b, d.At a → e.At b → a ≠ b

theorem onFields_of_nodup {ds : List Descriptor} (hpath : ∀ d ∈ ds, d.At d.key)
    (hnodup : (ds.map Descriptor.key).Nodup) : OnFields ds where
  addressed d hd := ⟨d.key, hpath d hd⟩
  distinct := by
    refine (List.pairwise_map.mp hnodup).imp_of_mem fun hd he hne a b ha hb hab => hne ?_
    rw [(hpath _ hd).unique ha, (hpath _ he).unique hb, hab]

theorem onFields_discover (document : Json) (scope : Scope) :
    OnFields (discover document scope) :=
  onFields_of_nodup (fun _ hd => ⟨scope, path_of_mem_discover hd⟩)
    (nodup_keys_discover document scope)

structure Isolated {τ : Type} [Target τ] (t : τ) (ds : List Descriptor) (v : Json) : Prop where
  anyOrder : ∀ ds', ds.Perm ds' → (write t ds' v).1 = (write t ds v).1
  alone : ∀ d ∈ ds, Target.get? (write t ds v).1 d.path = Target.get? (write t [d] v).1 d.path
  skips : (write t ds v).2 = ds.flatMap fun d => (write t [d] v).2
  /-- A control that refuses the value or cannot be reached might as well not be in the list. -/
  passedOver : ∀ d ∈ ds, d.slots v = [] ∨ (write t [d] v).2 ≠ [] →
    Target.get? (write t ds v).1 d.path = Target.get? t d.path ∧
      ∀ ds', ds.Perm (d :: ds') → (write t ds v).1 = (write t ds' v).1
  points : ∀ d ∈ ds, d.kind = .point → ∀ x y, pointValues? v = some (x, y) →
    (∃ w, Target.get? (write t ds v).1 d.path = some w ∧
      w.get? [.index 0] = some x ∧ w.get? [.index 1] = some y) ∨
    Target.get? (write t ds v).1 d.path = Target.get? t d.path

theorem OnFields.apart {τ : Type} [Target τ] (hτ : Hosts τ) {ds : List Descriptor}
    (h : OnFields ds) : ds.Pairwise (Descriptor.Apart τ) := by
  refine h.distinct.imp_of_mem fun {d e} hd he hne => ?_
  obtain ⟨a, scope, ha⟩ := h.addressed d hd
  obtain ⟨b, scope', hb⟩ := h.addressed e he
  have hab : a ≠ b := hne a b ⟨scope, ha⟩ ⟨scope', hb⟩
  intro r u
  rw [ha, hb]
  exact ⟨hτ.apart scope scope' r u hab, hτ.apart scope' scope u r hab.symm⟩

theorem isolated {τ : Type} [Target τ] (hτ : Hosts τ) (t : τ) {ds : List Descriptor} (v : Json)
    (h : OnFields ds) : Isolated t ds v where
  anyOrder ds' hperm := write_perm (h.apart hτ) hperm v
  alone d hd := by
    rw [get?_write_of_mem (h.apart hτ) hd, write_fst]
    rfl
  skips := snd_write (h.apart hτ) v
  passedOver d hd hskip := by
    obtain ⟨key, hkey⟩ := h.addressed d hd
    have hself : (putAll t (d.slots v)).1 = t := by
      refine putAll_of_skip hτ hkey (hskip.imp_right fun hne hnone => hne ?_)
      rw [snd_write_single, hnone]
      rfl
    refine ⟨by rw [get?_write_of_mem (h.apart hτ) hd, hself], fun ds' hperm => ?_⟩
    rw [← write_perm (h.apart hτ) hperm, write_fst, List.foldl_cons, hself, ← write_fst]
  points d hd hpoint x y hv := by
    obtain ⟨key, hkey⟩ := h.addressed d hd
    rw [get?_write_of_mem (h.apart hτ) hd]
    exact (putAll_point hτ hkey hpoint hv).imp_right fun hself => by rw [hself]

end Control

open Control

/-- Writing a value to controls on different fields, in any document and in any player, comes out the
same in every order, and each control ends as if it were written alone. -/
theorem writes_are_isolated :
    (∀ (document : Json) (ds : List Descriptor) (v : Json), OnFields ds → Isolated document ds v) ∧
    ∀ (p : Player) (ds : List Descriptor) (v : Json), OnFields ds → Isolated p ds v :=
  ⟨fun document _ v => isolated hosts_json document v, fun p _ v => isolated hosts_player p v⟩

def Json.fullRig : Json :=
  .rig [.rigField "Size" "ADBE Slider Control" (.num (.int 3)),
    .rigField "Axis" "ADBE Point Control" (.arr [.num (.int 1), .num (.int 2)]),
    .rigField "Gap" "ADBE Slider Control" (.num (.int 4)),
    .rigField "Tint" "ADBE Color Control" (.arr [.num (.int 1), .num (.int 0), .num (.int 0)])]

def Json.patchyRig : Json :=
  .rig [.obj [("ef", .arr [.obj [("v", .obj [])]])],
    .rigField "Axis" "ADBE Point Control" (.arr []),
    .obj [("ef", .arr [.obj [("v", .num (.int 4))]])],
    .rigField "Tint" "ADBE Color Control" (.num (.int 5))]

theorem writes_are_isolated_on_patchyRig :
    ∃ size axis gap tint pair p, discover Json.fullRig .document = [size, axis, gap, tint] ∧
      pair = Json.arr [.num (.int 7), .num (.int 8)] ∧ Player.load Json.sizeAndAxis = .ok p ∧
      OnFields [size, axis, gap, tint] ∧ OnFields (discover Json.sizeAndAxis .liveTree) ∧
      (write Json.patchyRig [tint, gap, axis, size] pair).1 =
        (write Json.patchyRig [size, axis, tint] pair).1 ∧
      Target.get? (write Json.patchyRig [size, axis, gap, tint] pair).1 size.path = some pair ∧
      Target.get? (write Json.patchyRig [size, axis, gap, tint] pair).1 axis.path = some pair ∧
      Target.get? (write Json.patchyRig [size, axis, gap, tint] pair).1 tint.path =
        some (.num (.int 5)) ∧
      Isolated p (discover Json.sizeAndAxis .liveTree) pair := by
  obtain ⟨size, axis, gap, tint, pair, p, hfound, hpair, hp, hsize, haxis, hgap, htint, hheld⟩ :
      ∃ size axis gap tint pair p, discover Json.fullRig .document = [size, axis, gap, tint] ∧
        pair = Json.arr [.num (.int 7), .num (.int 8)] ∧ Player.load Json.sizeAndAxis = .ok p ∧
        Target.get? (write Json.patchyRig [size] pair).1 size.path = some pair ∧
        Target.get? (write Json.patchyRig [axis] pair).1 axis.path = some pair ∧
        (write Json.patchyRig [gap] pair).2 ≠ [] ∧ tint.slots pair = [] ∧
        Target.get? Json.patchyRig tint.path = some (.num (.int 5)) :=
    ⟨_, _, _, _, _, _, rfl, rfl, rfl, rfl, rfl, nofun, rfl, rfl⟩
  have hfields : OnFields [size, axis, gap, tint] := hfound ▸ onFields_discover Json.fullRig .document
  have hlive := onFields_discover Json.sizeAndAxis .liveTree
  obtain ⟨hjson, hplayer⟩ := writes_are_isolated
  have hwrite := hjson Json.patchyRig _ pair hfields
  obtain ⟨-, hdrop⟩ := hwrite.passedOver gap (by simp) (.inr hgap)
  obtain ⟨hkept, -⟩ := hwrite.passedOver tint (by simp) (.inl htint)
  refine ⟨size, axis, gap, tint, pair, p, hfound, hpair, hp, hfields, hlive, ?_,
    (hwrite.alone size (by simp)).trans hsize, (hwrite.alone axis (by simp)).trans haxis,
    hkept.trans hheld, hplayer p _ pair hlive⟩
  have hreverse := hwrite.anyOrder _ (List.reverse_perm [size, axis, gap, tint]).symm
  exact hreverse.trans (hdrop [size, axis, tint] (@List.perm_middle _ gap [size, axis] [tint]))

end IconMotion
