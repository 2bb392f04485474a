import Mathlib.Data.List.Infix
import IconMotion.Live.Player
import IconMotion.Proofs.Discovering
import IconMotion.Proofs.Following
import IconMotion.Proofs.Ordering
import IconMotion.Proofs.PathText

namespace IconMotion

namespace Json

inductive Leads : Json → Path → Json → Prop where
  | here (j : Json) : Leads j [] j
  | member {ms : List (String × Json)} {k : String} {x c : Json} {q : Path} :
    (k, x) ∈ ms → Leads x q c → Leads (.obj ms) (.key k :: q) c
  | item {xs : List Json} {i : Nat} {x c : Json} {q : Path} :
    xs[i]? = some x → Leads x q c → Leads (.arr xs) (.index i :: q) c

theorem get?_of_leads {j c : Json} {q : Path} (hj : j.Ordered) (h : j.Leads q c) :
    j.get? q = some c := by
  induction h with
  | here j => rfl
  | member hm _ ih =>
    refine get?_cons_eq_some.mpr ⟨_, child_obj_eq_ok.mpr (SortedMap.find?_of_mem hj.1 hm), ?_⟩
    exact ih (orderedMembers_iff.mp hj.2 _ hm)
  | item hx _ ih =>
    refine get?_cons_eq_some.mpr ⟨_, child_arr_eq_ok.mpr ⟨_, rfl, hx⟩, ?_⟩
    exact ih (orderedItems_iff.mp hj _ (List.mem_of_getElem? hx))

def Drives (ms : List (String × Json)) (source : String) : Prop :=
  SortedMap.find? ms "x" = some (.str source) ∧ (SortedMap.find? ms "k").isSome

/-- A driven object inside a value, which is inside no other driven object of the value. -/
structure Outermost (j : Json) (q : Path) (ms : List (String × Json)) (source : String) : Prop where
  leads : j.Leads q (.obj ms)
  drives : Drives ms source
  alone : ∀ r ms' source', r <+: q → r ≠ q → j.Leads r (.obj ms') → ¬ Drives ms' source'

theorem leads_item {xs : List Json} {i : Nat} {x c : Json} {q : Path} (hx : xs[i]? = some x) :
    (arr xs).Leads (.index i :: q) c ↔ x.Leads q c := by
  refine ⟨fun h => ?_, .item hx⟩
  cases h with
  | item hx' h =>
    cases hx.symm.trans hx'
    exact h

theorem leads_member {members : List (String × Json)} (hsorted : SortedMap.Sorted members)
    {k : String} {x c : Json} {q : Path} (hm : (k, x) ∈ members) :
    (obj members).Leads (.key k :: q) c ↔ x.Leads q c := by
  refine ⟨fun h => ?_, .member hm⟩
  cases h with
  | member hm' h =>
    cases (SortedMap.find?_of_mem hsorted hm).symm.trans (SortedMap.find?_of_mem hsorted hm')
    exact h

variable {q : Path} {ms members : List (String × Json)} {source : String}

theorem outermost_cons {j x : Json} {s : Step} (hinside : ∀ r c, j.Leads (s :: r) c ↔ x.Leads r c)
    (hnot : ∀ ms source, j = obj ms → ¬ Drives ms source) :
    j.Outermost (s :: q) ms source ↔ x.Outermost q ms source := by
  constructor
  · rintro ⟨hleads, hdrives, halone⟩
    refine ⟨(hinside _ _).mp hleads, hdrives, fun r ms' source' hr hne hleads' => ?_⟩
    exact halone (s :: r) ms' source' (List.cons_prefix_cons.mpr ⟨rfl, hr⟩) (by simpa using hne)
      ((hinside _ _).mpr hleads')
  · rintro ⟨hleads, hdrives, halone⟩
    refine ⟨(hinside _ _).mpr hleads, hdrives, fun r ms' source' hr hne hleads' => ?_⟩
    cases r with
    | nil =>
      cases hleads' with
      | here => exact hnot ms' source' rfl
    | cons t r =>
      obtain ⟨rfl, hprefix⟩ := List.cons_prefix_cons.mp hr
      exact halone r ms' source' hprefix (by simpa using hne) ((hinside _ _).mp hleads')

theorem outermost_arr {xs : List Json} : (arr xs).Outermost q ms source ↔
    ∃ i x q', xs[i]? = some x ∧ q = .index i :: q' ∧ x.Outermost q' ms source := by
  constructor
  · intro h
    cases h.leads with
    | item hx _ =>
      exact ⟨_, _, _, hx, rfl, (outermost_cons (fun _ _ => leads_item hx) nofun).mp h⟩
  · rintro ⟨i, x, q', hx, rfl, h⟩
    exact (outermost_cons (fun _ _ => leads_item hx) nofun).mpr h

theorem outermost_obj (hsorted : SortedMap.Sorted members)
    (hnot : ∀ source, ¬ Drives members source) : (obj members).Outermost q ms source ↔
      ∃ k x q', (k, x) ∈ members ∧ q = .key k :: q' ∧ x.Outermost q' ms source := by
  have hself : ∀ ms' source', obj members = obj ms' → ¬ Drives ms' source' := by
    intro ms' source' heq
    cases heq
    exact hnot source'
  constructor
  · intro h
    cases h.leads with
    | here => exact absurd h.drives (hnot source)
    | member hm _ =>
      exact ⟨_, _, _, hm, rfl, (outermost_cons (fun _ _ => leads_member hsorted hm) hself).mp h⟩
  · rintro ⟨k, x, q', hm, rfl, h⟩
    exact (outermost_cons (fun _ _ => leads_member hsorted hm) hself).mpr h

theorem outermost_of_drives {outer : String} (h : Drives members outer) :
    (obj members).Outermost q ms source ↔ q = [] ∧ ms = members ∧ source = outer := by
  constructor
  · rintro ⟨hleads, hdrives, halone⟩
    cases hleads with
    | here =>
      obtain ⟨hsource, -⟩ := hdrives
      cases hsource.symm.trans h.1
      exact ⟨rfl, rfl, rfl⟩
    | member =>
      exact absurd h (halone [] members outer List.nil_prefix (List.cons_ne_nil _ _).symm (.here _))
  · rintro ⟨rfl, rfl, rfl⟩
    exact ⟨.here _, h, fun r _ _ hr hne _ => absurd (List.prefix_nil.mp hr) hne⟩

end Json

namespace Live

open Json

theorem driven?_eq_some {ms : List (String × Json)} {source : String} :
    driven? ms = some source ↔ Drives ms source := by
  unfold driven? Drives SortedMap.contains
  by_cases hk : (SortedMap.find? ms "k").isSome
  · simp [hk, Option.bind_eq_some_iff, Control.text?_eq_some]
  · simp [hk]

theorem bindingsOfItems_eq (startTime : Float32) (path : Path) (i : Nat) (xs : List Json) :
    bindingsOfItems startTime path i xs =
      (xs.zipIdx i).flatMap fun x => bindings startTime (path ++ [.index x.2]) x.1 := by
  induction xs generalizing i with
  | nil => simp [bindingsOfItems]
  | cons x xs ih => simp [bindingsOfItems, ih]

theorem bindingsOfMembers_eq (startTime : Float32) (path : Path) (ms : List (String × Json)) :
    bindingsOfMembers startTime path ms =
      ms.flatMap fun m => bindings startTime (path ++ [.key m.1]) m.2 := by
  induction ms with
  | nil => simp [bindingsOfMembers]
  | cons m ms ih => simp [bindingsOfMembers, ih]

/-- The binding is that of a driven object in a value, which is at `path`. -/
def Binds (startTime : Float32) (path : Path) (j : Json) (b : Binding) : Prop :=
  ∃ q ms, j.Outermost q ms b.source ∧ Decoder.property .json (.obj ms) = .ok b.property ∧
    b.path = path ++ q ∧ b.startTime = startTime

theorem mem_bindings_of_drives {members : List (String × Json)} {outer : String}
    (h : Drives members outer) {startTime : Float32} {path : Path} {b : Binding} :
    b ∈ bindings startTime path (.obj members) ↔ Binds startTime path (.obj members) b := by
  simp only [bindings, driven?_eq_some.mpr h, Binds]
  cases hread : Decoder.property .json (.obj members) with
  | error e =>
    simp only [List.not_mem_nil, false_iff]
    rintro ⟨q, ms, houtermost, hread', -⟩
    obtain ⟨-, rfl, -⟩ := (outermost_of_drives h).mp houtermost
    cases hread.symm.trans hread'
  | ok property =>
    rw [List.mem_singleton]
    constructor
    · rintro rfl
      exact ⟨[], members, (outermost_of_drives h).mpr ⟨rfl, rfl, rfl⟩, hread,
        (List.append_nil path).symm, rfl⟩
    · rintro ⟨q, ms, houtermost, hread', hpath, rfl⟩
      obtain ⟨rfl, rfl, rfl⟩ := (outermost_of_drives h).mp houtermost
      rw [List.append_nil] at hpath
      cases hread.symm.trans hread'
      rw [← hpath]

/-- The bindings in a value are those of its driven objects that are inside no other one and can be read
as properties. -/
theorem mem_bindings {j : Json} (hj : j.Ordered) {startTime : Float32} {path : Path} {b : Binding} :
    b ∈ bindings startTime path j ↔ Binds startTime path j b := by
  induction j using Json.induction generalizing path with
  | null | bool | num | str =>
    simp only [bindings, List.not_mem_nil, false_iff]
    rintro ⟨q, ms, h, -⟩
    cases h.leads
  | arr xs ih =>
    have hxs := orderedItems_iff.mp hj
    simp only [bindings, bindingsOfItems_eq, List.mem_flatMap, Prod.exists,
      List.mk_mem_zipIdx_iff_getElem?]
    constructor
    · rintro ⟨x, i, hx, hb⟩
      have hmem := List.mem_of_getElem? hx
      obtain ⟨q, ms, h, hread, hpath, hstart⟩ := (ih x hmem (hxs x hmem)).mp hb
      rw [List.append_assoc] at hpath
      exact ⟨_, ms, outermost_arr.mpr ⟨i, x, q, hx, rfl, h⟩, hread, hpath, hstart⟩
    · rintro ⟨q, ms, h, hread, hpath, hstart⟩
      obtain ⟨i, x, q', hx, rfl, hinside⟩ := outermost_arr.mp h
      have hmem := List.mem_of_getElem? hx
      refine ⟨x, i, hx, (ih x hmem (hxs x hmem)).mpr ⟨q', ms, hinside, hread, ?_, hstart⟩⟩
      rw [hpath, List.append_assoc]
      rfl
  | obj members ih =>
    cases hdriven : driven? members with
    | some outer => exact mem_bindings_of_drives (driven?_eq_some.mp hdriven)
    | none =>
      have hnot : ∀ source, ¬ Drives members source := fun source h => by
        cases hdriven.symm.trans (driven?_eq_some.mpr h)
      have hmembers := orderedMembers_iff.mp hj.2
      simp only [bindings, hdriven, bindingsOfMembers_eq, List.mem_flatMap, Prod.exists]
      constructor
      · rintro ⟨k, x, hm, hb⟩
        obtain ⟨q, ms, h, hread, hpath, hstart⟩ := (ih _ hm (hmembers _ hm)).mp hb
        rw [List.append_assoc] at hpath
        exact ⟨_, ms, (outermost_obj hj.1 hnot).mpr ⟨k, x, q, hm, rfl, h⟩, hread, hpath, hstart⟩
      · rintro ⟨q, ms, h, hread, hpath, hstart⟩
        obtain ⟨k, x, q', hm, rfl, hinside⟩ := (outermost_obj hj.1 hnot).mp h
        refine ⟨k, x, hm, (ih _ hm (hmembers _ hm)).mpr ⟨q', ms, hinside, hread, ?_, hstart⟩⟩
        rw [hpath, List.append_assoc]
        rfl

theorem path_of_mem_bindings {j : Json} (hj : j.Ordered) {startTime : Float32} {path : Path}
    {b : Binding} (h : b ∈ bindings startTime path j) : ∃ q, b.path = path ++ q := by
  obtain ⟨q, -, -, -, hpath, -⟩ := (mem_bindings hj).mp h
  exact ⟨q, hpath⟩

end Live

namespace Path

/-- A place comes before another one: where their paths part, the order of keys or of numbers tells. -/
def Before : Path → Path → Prop
  | .key k :: p, .key l :: q => k < l ∨ k = l ∧ Before p q
  | .index i :: p, .index j :: q => i < j ∨ i = j ∧ Before p q
  | _, _ => False

theorem before_key {k l : String} (h : k < l) (p q : Path) : Before (.key k :: p) (.key l :: q) :=
  .inl h

theorem before_index {i j : Nat} (h : i < j) (p q : Path) : Before (.index i :: p) (.index j :: q) :=
  .inl h

theorem before_append (r : Path) {p q : Path} (h : p.Before q) : Before (r ++ p) (r ++ q) := by
  induction r with
  | nil => exact h
  | cons s r ih =>
    cases s with
    | key k => exact .inr ⟨rfl, ih⟩
    | index i => exact .inr ⟨rfl, ih⟩

theorem not_prefix_of_before {p q : Path} (h : p.Before q) : ¬ p <+: q ∧ ¬ q <+: p := by
  induction p generalizing q with
  | nil => exact h.elim
  | cons s p ih =>
    cases q with
    | nil => cases s <;> exact h.elim
    | cons t q =>
      simp only [List.cons_prefix_cons]
      cases s with
      | key k =>
        cases t with
        | index j => exact h.elim
        | key l =>
          rcases h with hlt | ⟨rfl, h⟩
          · exact ⟨fun e => String.lt_irrefl k (by cases e.1; exact hlt),
              fun e => String.lt_irrefl k (by cases e.1; exact hlt)⟩
          · exact ⟨fun e => (ih h).1 e.2, fun e => (ih h).2 e.2⟩
      | index i =>
        cases t with
        | key l => exact h.elim
        | index j =>
          rcases h with hlt | ⟨rfl, h⟩
          · exact ⟨fun e => by cases e.1; omega, fun e => by cases e.1; omega⟩
          · exact ⟨fun e => (ih h).1 e.2, fun e => (ih h).2 e.2⟩

end Path

namespace Live

open Json

theorem before_of_mem_bindings {x y : Json} (hx : x.Ordered) (hy : y.Ordered) (path : Path)
    {start start' : Float32} {s t : Step} {a b : Binding} (hst : ∀ q r, Path.Before (s :: q) (t :: r))
    (ha : a ∈ bindings start (path ++ [s]) x) (hb : b ∈ bindings start' (path ++ [t]) y) :
    a.path.Before b.path := by
  obtain ⟨q, hq⟩ := path_of_mem_bindings hx ha
  obtain ⟨r, hr⟩ := path_of_mem_bindings hy hb
  rw [hq, hr, List.append_assoc, List.append_assoc]
  exact Path.before_append path (hst q r)

theorem pairwise_bindings {j : Json} (hj : j.Ordered) (startTime : Float32) (path : Path) :
    (bindings startTime path j).Pairwise fun a b => a.path.Before b.path := by
  induction j using Json.induction generalizing path with
  | null | bool | num | str => exact List.Pairwise.nil
  | arr xs ih =>
    have hxs := orderedItems_iff.mp hj
    simp only [bindings, bindingsOfItems_eq, List.pairwise_flatMap]
    have hmem {x : Json} {i : Nat} (hx : (x, i) ∈ xs.zipIdx) : x ∈ xs :=
      List.mem_of_getElem? (List.mk_mem_zipIdx_iff_getElem?.mp hx)
    refine ⟨fun ⟨x, i⟩ hx => ih x (hmem hx) (hxs x (hmem hx)) _,
      (pairwise_zipIdx xs 0).imp_of_mem ?_⟩
    rintro ⟨x, i⟩ ⟨y, k⟩ hx hy hlt a ha b hb
    exact before_of_mem_bindings (hxs x (hmem hx)) (hxs y (hmem hy)) path (Path.before_index hlt) ha hb
  | obj members ih =>
    have hmembers := orderedMembers_iff.mp hj.2
    unfold bindings
    split
    · split
      · exact List.pairwise_singleton _ _
      · exact List.Pairwise.nil
    · rw [bindingsOfMembers_eq, List.pairwise_flatMap]
      refine ⟨fun m hm => ih m hm (hmembers m hm) _, List.Pairwise.imp_of_mem ?_ hj.1⟩
      intro m n hm hn hlt a ha b hb
      exact before_of_mem_bindings (hmembers m hm) (hmembers n hn) path (Path.before_key hlt) ha hb

theorem get?_of_layerAt {document layer : Json} {i : Nat} (h : LayerAt document i layer) (q : Path) :
    document.get? (.key "layers" :: .index i :: q) = layer.get? q := by
  obtain ⟨layers, hlayers, hlayer⟩ := h
  obtain ⟨root, rfl, hlayers⟩ := member?_eq_some.mp hlayers
  have hroot : (obj root).child (.key "layers") = .ok (.arr layers) := child_obj_eq_ok.mpr hlayers
  have harr : (arr layers).child (.index i) = .ok layer := child_arr_eq_ok.mpr ⟨i, rfl, hlayer⟩
  simp only [get?, hroot, harr]

theorem ordered_of_layerAt {document layer : Json} {i : Nat} (hdocument : document.Ordered)
    (h : LayerAt document i layer) : layer.Ordered := by
  obtain ⟨layers, hlayers, hlayer⟩ := h
  obtain ⟨root, rfl, hlayers⟩ := member?_eq_some.mp hlayers
  have hitems : (arr layers).Ordered :=
    hdocument.child (s := .key "layers") (child_obj_eq_ok.mpr hlayers)
  exact orderedItems_iff.mp hitems layer (List.mem_of_getElem? hlayer)

/-- The binding is that of a driven object at or below a layer of the document. -/
def IsBinding (document : Json) (b : Binding) : Prop :=
  ∃ i layer, LayerAt document i layer ∧
    Binds (startTime layer) [.key "layers", .index i] layer b

theorem mem_findBindings {document : Json} (hdocument : document.Ordered) {b : Binding} :
    b ∈ findBindings document ↔ IsBinding document b := by
  unfold findBindings IsBinding
  split
  next hnone =>
    simp only [List.not_mem_nil, false_iff]
    rintro ⟨i, layer, ⟨layers, hlayers, -⟩, -⟩
    simp [hlayers, items?] at hnone
  next layers hlayers =>
    obtain ⟨root, rfl, hfind⟩ := listMember_eq_some.mp hlayers
    have hlayerAt {i : Nat} {layer : Json} :
        LayerAt (.obj root) i layer ↔ layers[i]? = some layer := by
      simp [LayerAt, member?, hfind]
    simp only [List.mem_flatMap, Prod.exists, List.mk_mem_zipIdx_iff_getElem?, hlayerAt]
    constructor
    · rintro ⟨layer, i, hlayer, hb⟩
      have hordered := ordered_of_layerAt hdocument (hlayerAt.mpr hlayer)
      exact ⟨i, layer, hlayer, (mem_bindings hordered).mp hb⟩
    · rintro ⟨i, layer, hlayer, hb⟩
      have hordered := ordered_of_layerAt hdocument (hlayerAt.mpr hlayer)
      exact ⟨layer, i, hlayer, (mem_bindings hordered).mpr hb⟩

theorem pairwise_findBindings {document : Json} (hdocument : document.Ordered) :
    (findBindings document).Pairwise fun a b => a.path.Before b.path := by
  unfold findBindings
  split
  · exact List.Pairwise.nil
  next layers hlayers =>
    obtain ⟨root, rfl, hfind⟩ := listMember_eq_some.mp hlayers
    have hordered {layer : Json} {i : Nat} (h : (layer, i) ∈ layers.zipIdx) : layer.Ordered := by
      refine ordered_of_layerAt hdocument (i := i) ⟨layers, hfind, ?_⟩
      exact List.mk_mem_zipIdx_iff_getElem?.mp h
    rw [List.pairwise_flatMap]
    refine ⟨fun ⟨layer, i⟩ h => pairwise_bindings (hordered h) _ _,
      (pairwise_zipIdx layers 0).imp_of_mem ?_⟩
    rintro ⟨layer, i⟩ ⟨layer', k⟩ hlayer hlayer' hlt a ha b hb
    exact before_of_mem_bindings (hordered hlayer) (hordered hlayer') [.key "layers"]
      (Path.before_index hlt) ha hb

structure Catalogs (document : Json) (bs : List Binding) : Prop where
  covers : ∀ b, b ∈ bs ↔ IsBinding document b
  once : (bs.map Binding.path).Nodup
  inOrder : bs.Pairwise fun a b => a.path.Before b.path
  addressed : ∀ b ∈ bs, ∃ ms, Target.get? document b.path = some (.obj ms) ∧
    SortedMap.find? ms "x" = some (.str b.source) ∧ Decoder.property .json (.obj ms) = .ok b.property
  unnested : bs.Pairwise fun a b => ¬ a.path <+: b.path ∧ ¬ b.path <+: a.path
  reparsed : ∀ b ∈ bs, b.path.Plain → Path.parse b.path.render = b.path

theorem catalogs_findBindings {document : Json} (hdocument : document.Ordered) :
    Catalogs document (findBindings document) where
  covers _ := mem_findBindings hdocument
  once := by
    refine List.pairwise_map.mpr ((pairwise_findBindings hdocument).imp fun {a b} hbefore heq => ?_)
    exact (Path.not_prefix_of_before hbefore).1 (heq ▸ List.prefix_rfl)
  inOrder := pairwise_findBindings hdocument
  addressed b hb := by
    obtain ⟨i, layer, hlayer, q, ms, houtermost, hread, hpath, -⟩ :=
      (mem_findBindings hdocument).mp hb
    refine ⟨ms, ?_, houtermost.drives.1, hread⟩
    have hget := get?_of_leads (ordered_of_layerAt hdocument hlayer) houtermost.leads
    rw [hpath]
    exact (get?_of_layerAt hlayer q).trans hget
  unnested := (pairwise_findBindings hdocument).imp Path.not_prefix_of_before
  reparsed _ _ hplain := Path.parse_render hplain

end Live

/-- The bindings of a player are those of the document that it was loaded from. -/
theorem Player.catalogs_bindings {document : Json} {p : Player} (hdocument : document.Ordered)
    (h : load document = .ok p) : Live.Catalogs document p.bindings := by
  obtain ⟨a, -, -, rfl⟩ := load_eq_ok.mp h
  exact Live.catalogs_findBindings hdocument

def Json.tangled : Json :=
  .obj [("fr", .num (.int 10)), ("h", .num (.int 8)), ("ip", .num (.int 0)),
    ("layers", .arr [
      .obj [("k", .num (.int 1)), ("x", .str "value")],
      .obj [("ks", .obj [
        ("a", .obj [("k", .obj [("k", .null), ("x", .str "inner")]), ("x", .str "outer")]),
        ("o", .obj [("a", .str "no"), ("k", .num (.int 3)), ("x", .str "lost")]),
        ("p.x", .obj [("k", .num (.int 2)), ("x", .str "dotted")])])]]),
    ("op", .num (.int 20)), ("w", .num (.int 8))]

theorem ordered_tangled : Json.tangled.Ordered :=
  have hread : (Json.Source.ofJson Json.tangled).eval? = some Json.tangled := rfl
  Json.Source.ordered_of_eval? hread

theorem Player.catalogs_bindings_of_tangled : ∃ p layer outer dotted, Json.tangled.Ordered ∧
    Player.load Json.tangled = .ok p ∧ p.bindings = [layer, outer, dotted] ∧
    layer.path = Path.parse "layers.0" ∧ outer.path = Path.parse "layers.1.ks.a" ∧
    Path.parse outer.path.render = outer.path ∧ Path.parse dotted.path.render ≠ dotted.path ∧
    ∃ ms, Target.get? Json.tangled dotted.path = some (.obj ms) ∧
      SortedMap.find? ms "x" = some (.str "dotted") := by
  obtain ⟨p, layer, outer, dotted, hload, hbindings, hlayer, houter, hdotted, hsource⟩ :
      ∃ p layer outer dotted, Player.load Json.tangled = .ok p ∧
        p.bindings = [layer, outer, dotted] ∧ layer.path = Path.parse "layers.0" ∧
        outer.path = [.key "layers", .index 1, .key "ks", .key "a"] ∧
        Path.parse dotted.path.render ≠ dotted.path ∧ dotted.source = "dotted" :=
    ⟨_, _, _, _, rfl, rfl, by decide, rfl, by decide, rfl⟩
  have hcatalog := Player.catalogs_bindings ordered_tangled hload
  have hplain : outer.path.Plain := by
    rw [houter]
    decide
  have hmem (b : Live.Binding) (hb : b ∈ [layer, outer, dotted]) : b ∈ p.bindings := hbindings ▸ hb
  obtain ⟨ms, hget, hx, -⟩ := hcatalog.addressed dotted (hmem _ (by simp))
  refine ⟨p, layer, outer, dotted, ordered_tangled, hload, hbindings, hlayer, ?_,
    hcatalog.reparsed outer (hmem _ (by simp)) hplain, hdotted, ms, hget, hsource ▸ hx⟩
  rw [houter]
  decide

end IconMotion
