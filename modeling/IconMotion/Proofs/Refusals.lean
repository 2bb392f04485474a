import Mathlib.Data.List.Basic
import Mathlib.Order.Bounds.Basic
import IconMotion.Proofs.Lenses

namespace IconMotion

open Live

namespace Json

def Receives : Json → Step → Prop
  | obj _, _ => True
  | arr xs, .index i => i ≤ xs.length
  | _, _ => False

/-- The first `k` steps of a path lead to the value `c`, and `s` is the next step, which cannot be taken
from there: a step to the end needs room, any other a child. -/
def Blocks (j : Json) (p : Path) (k : Nat) (c : Json) (s : Step) : Prop :=
  j.get? (p.take k) = some c ∧ p[k]? = some s ∧
    if k + 1 = p.length then ¬ c.Receives s else c.get? [s] = none

def obstacle : Json → Obstacle
  | obj _ | arr _ => .missing
  | c => .notIndexable c.kind

theorem obstacle_of_child {j : Json} {s : Step} {o : Obstacle} (h : j.child s = .error o) :
    o = j.obstacle := by
  cases j with
  | obj ms =>
    simp only [child] at h
    split at h
    · cases h
    · cases h
      rfl
  | arr xs =>
    cases s with
    | key name =>
      cases h
      rfl
    | index i =>
      simp only [child] at h
      split at h
      · cases h
      · cases h
        rfl
  | _ =>
    cases h
    rfl

theorem obstacle_of_put {j v : Json} {s : Step} {o : Obstacle} (h : j.put s v = .error o) :
    o = j.obstacle := by
  cases j with
  | obj ms => cases h
  | arr xs =>
    cases s with
    | key name =>
      cases h
      rfl
    | index i =>
      simp only [put] at h
      split at h
      · cases h
      · split at h
        · cases h
        · cases h
          rfl
  | _ =>
    cases h
    rfl

theorem receives_iff {j : Json} {s : Step} (v : Json) : j.Receives s ↔ ∃ j', j.put s v = .ok j' := by
  cases j with
  | obj ms => simp [Receives, put]
  | arr xs =>
    cases s with
    | key name => simp [Receives, put]
    | index i =>
      simp only [Receives, put]
      split
      next hi => simp [hi.le]
      next hi =>
        split
        next hi' => simp [hi']
        next hi' => simp; omega
  | _ => simp [Receives, put]

theorem get?_single {j : Json} {s : Step} : j.get? [s] = none ↔ ∃ o, j.child s = .error o := by
  simp only [get?]
  cases j.child s <;> simp

theorem Blocks.cons {j c d : Json} {s t : Step} {p : Path} {k : Nat} (hc : j.child s = .ok c)
    (h : c.Blocks p k d t) : j.Blocks (s :: p) (k + 1) d t := by
  obtain ⟨hd, ht, hstops⟩ := h
  refine ⟨?_, by simpa using ht, by simpa using hstops⟩
  rw [List.take_succ_cons]
  exact get?_cons_eq_some.mpr ⟨c, hc, hd⟩

theorem blocks_of_set_error {j v : Json} {p : Path} {k : Nat} {o : Obstacle}
    (h : j.set p v = .error (k, o)) : ∃ c s, j.Blocks p k c s ∧ o = c.obstacle := by
  induction p generalizing j k with
  | nil => cases h
  | cons s p ih =>
    cases p with
    | nil =>
      cases hput : j.put s v with
      | ok j' => simp [set, hput, mapError_ok] at h
      | error o' =>
        simp only [set, hput, mapError_error, Except.error.injEq, Prod.mk.injEq] at h
        obtain ⟨rfl, rfl⟩ := h
        have hroom : ¬ j.Receives s := fun hroom => by
          obtain ⟨j', hj'⟩ := (receives_iff v).mp hroom
          cases hput.symm.trans hj'
        exact ⟨j, s, ⟨rfl, rfl, hroom⟩, obstacle_of_put hput⟩
    | cons t p =>
      cases hc : j.child s with
      | error o' =>
        simp only [set, hc, Except.error.injEq, Prod.mk.injEq] at h
        obtain ⟨rfl, rfl⟩ := h
        have hnone : j.get? [s] = none := get?_single.mpr ⟨o', hc⟩
        exact ⟨j, s, ⟨rfl, rfl, by simpa using hnone⟩, obstacle_of_child hc⟩
      | ok c =>
        rw [set_cons hc (List.cons_ne_nil t p)] at h
        cases hw : c.set (t :: p) v with
        | ok w =>
          obtain ⟨j', hj'⟩ := exists_put_of_child hc w
          simp [hw, hj', mapError_ok] at h
        | error e =>
          simp only [hw, Except.error.injEq, Prod.mk.injEq] at h
          obtain ⟨rfl, rfl⟩ := h
          obtain ⟨d, u, hblocks, hobstacle⟩ := ih hw
          exact ⟨d, u, hblocks.cons hc, hobstacle⟩

/-- Where a path leads, all of its steps can be taken. -/
theorem exists_get?_take {j c : Json} {p : Path} {m k : Nat} (hmk : m ≤ k)
    (h : j.get? (p.take k) = some c) : ∃ d, j.get? (p.take m) = some d := by
  have hsplit : p.take k = p.take m ++ (p.take k).drop m := by
    conv_lhs => rw [← List.take_append_drop m (p.take k), List.take_take, Nat.min_eq_left hmk]
  rw [hsplit, get?_append] at h
  obtain ⟨d, hd, -⟩ := Option.bind_eq_some_iff.mp h
  exact ⟨d, hd⟩

theorem Blocks.isLeast {j c : Json} {p : Path} {k : Nat} {s : Step} (h : j.Blocks p k c s) :
    IsLeast {k | ∃ c s, j.Blocks p k c s} k := by
  refine ⟨⟨c, s, h⟩, fun m hm => ?_⟩
  obtain ⟨d, t, hd, ht, hstops⟩ := hm
  by_contra hlt
  have hk : k < p.length := (List.getElem?_eq_some_iff.mp h.2.1).1
  rw [if_neg (by omega)] at hstops
  -- The path goes on to the value that blocks it, so the step before can be taken.
  obtain ⟨e, he⟩ := exists_get?_take (m := m + 1) (by omega) h.1
  rw [List.take_add_one, ht, get?_append, hd] at he
  simp [hstops] at he

theorem exists_set_iff {j v : Json} {p : Path} (hp : p ≠ []) : (∃ j', j.set p v = .ok j') ↔
    ∃ c s, j.get? p.dropLast = some c ∧ p.getLast? = some s ∧ c.Receives s := by
  constructor
  · rintro ⟨j', h⟩
    induction p generalizing j j' with
    | nil => exact absurd rfl hp
    | cons s p ih =>
      obtain ⟨w, hput, ⟨rfl, rfl⟩ | ⟨hne, c, hc, hset⟩⟩ := set_cons_eq_ok.mp h
      · exact ⟨j, s, rfl, rfl, (receives_iff w).mpr ⟨j', hput⟩⟩
      · obtain ⟨d, t, hd, ht, hroom⟩ := ih hne w hset
        obtain ⟨u, r, rfl⟩ := List.exists_cons_of_ne_nil hne
        refine ⟨d, t, ?_, by rwa [List.getLast?_cons_cons], hroom⟩
        rw [List.dropLast_cons_cons]
        exact get?_cons_eq_some.mpr ⟨c, hc, hd⟩
  · rintro ⟨c, s, hc, hs, hroom⟩
    obtain ⟨w, hw⟩ := (receives_iff v).mp hroom
    have hset : c.set [s] v = .ok w := by simp only [set, hw, mapError_ok]
    obtain ⟨j', hj'⟩ := exists_set_of_get? hc w
    refine ⟨j', ?_⟩
    rw [← List.dropLast_append_getLast? s hs, set_append hc (List.cons_ne_nil s []), hset]
    exact hj'

end Json

def PathError.pathText : PathError → String
  | .notIndexable path .. | .missing path .. | .unaddressable path => path.render

theorem Obstacle.pathText_toError (o : Obstacle) (path : Path) (k : Nat) :
    (o.toError path k).pathText = path.render := by
  cases o <;> rfl

namespace Json

def refusal (c : Json) (path : Path) (k : Nat) (s : Step) : PathError :=
  match c with
  | obj _ | arr _ => .missing path k s.text
  | c => .notIndexable path k c.kind

theorem toError_obstacle (c : Json) {path : Path} {k : Nat} {s : Step} (h : path[k]? = some s) :
    c.obstacle.toError path k = c.refusal path k s := by
  cases c with
  | obj ms | arr xs =>
    simp only [obstacle, Obstacle.toError, refusal, h]
    rfl
  | _ => rfl

/-- What a write into a value answers, where `rest` are the last steps of `path` and those before them
have led to the value. -/
structure Judges {τ : Type} (j : Json) (rest path : Path) (before : Nat)
    (answer : Except PathError τ) : Prop where
  accepts : (∃ t, answer = .ok t) ↔
    ∃ c s, j.get? rest.dropLast = some c ∧ rest.getLast? = some s ∧ c.Receives s
  refuses : ∀ e, answer = .error e → ∃ k c s, IsLeast {k | ∃ c s, j.Blocks rest k c s} k ∧
    j.Blocks rest k c s ∧ e = c.refusal path (before + k) s

theorem judges {τ : Type} {j v : Json} (own : Path) {rest : Path} {answer : Except PathError τ}
    (hrest : rest ≠ []) (haccepts : ∀ w, j.set rest v = .ok w → ∃ t, answer = .ok t)
    (hrefuses : ∀ k o, j.set rest v = .error (k, o) →
      answer = .error (o.toError (own ++ rest) (own.length + k))) :
    j.Judges rest (own ++ rest) own.length answer where
  accepts := by
    rw [← exists_set_iff (v := v) hrest]
    cases hset : j.set rest v with
    | ok w => simp [haccepts w hset]
    | error stop => simp [hrefuses stop.1 stop.2 hset]
  refuses e he := by
    cases hset : j.set rest v with
    | ok w =>
      obtain ⟨t, ht⟩ := haccepts w hset
      cases ht.symm.trans he
    | error stop =>
      obtain ⟨k, o⟩ := stop
      obtain ⟨c, s, hblocks, rfl⟩ := blocks_of_set_error hset
      have hstep : (own ++ rest)[own.length + k]? = some s := by
        rw [List.getElem?_append_right (Nat.le_add_right _ _), Nat.add_sub_cancel_left]
        exact hblocks.2.1
      refine ⟨k, c, s, hblocks.isLeast, hblocks, ?_⟩
      rw [← toError_obstacle c hstep]
      exact Except.error.inj (he.symm.trans (hrefuses k _ hset))

end Json

namespace Player

structure Judges (p : Player) (path : Path) (answer : Except PathError Player) : Prop where
  unaddressable : (∀ place : Place, path ≠ place.slotPath ++ place.rest) →
    answer = .error (.unaddressable path)
  noLayer : ∀ place : Place, path = place.slotPath ++ place.rest → p.tree[place.layer]? = none →
    answer = .error (.missing path 2 (Step.index place.layer).text)
  noEffect : ∀ (place : Place) (l : Live.Layer), path = place.slotPath ++ place.rest →
    p.tree[place.layer]? = some l → l.effects[place.effect]? = none →
    answer = .error (.missing path 5 (Step.index place.effect).text)
  noChannel : ∀ (place : Place) (l : Live.Layer) (e : Live.Effect),
    path = place.slotPath ++ place.rest → p.tree[place.layer]? = some l → l.effects[place.effect]? = some e →
    e.channels[place.channel]? = none →
    answer = .error (.missing path 7 (Step.index place.channel).text)
  whole : ∀ (place : Place) (u : Json), path = place.slotPath →
    p.tree.slot? place.layer place.effect place.channel = some u → ∃ p', answer = .ok p'
  inside : ∀ (place : Place) (u : Json), path = place.slotPath ++ place.rest → place.rest ≠ [] →
    p.tree.slot? place.layer place.effect place.channel = some u →
    u.Judges place.rest path 10 answer

theorem judges (p : Player) (path : Path) (v : Json) : p.Judges path (Target.set p path v) where
  unaddressable h := by
    have hplace : Place.ofPath? path = none :=
      Option.eq_none_iff_forall_ne_some.mpr fun place hplace =>
        h place (Place.ofPath?_eq_some.mp hplace)
    simp only [Target.set, Target.locate, Tree.locate_of_no_place hplace]
  noLayer place h hl := by
    have hplace := Place.ofPath?_eq_some.mpr h
    simp only [Target.set, Target.locate, Tree.locate, hplace, hl]
    rw [h]
    rfl
  noEffect place l h hl he := by
    have hplace := Place.ofPath?_eq_some.mpr h
    simp only [Target.set, Target.locate, Tree.locate, hplace, hl, he]
    rw [h]
    rfl
  noChannel place l e h hl he hc := by
    have hplace := Place.ofPath?_eq_some.mpr h
    simp only [Target.set, Target.locate, Tree.locate, hplace, hl, he, hc]
    rw [h]
    rfl
  whole place u h hu := by
    have hplace : Place.ofPath? path = some { place with rest := [] } :=
      Place.ofPath?_eq_some.mpr (h.trans (List.append_nil _).symm)
    exact ⟨_, set_of_slot hplace hu v⟩
  inside place u h hrest hu := by
    have hset := set_of_slot (Place.ofPath?_eq_some.mpr h) hu v
    rw [h] at hset ⊢
    refine Json.judges (v := v) place.slotPath hrest (fun w hw => ?_) fun k o ho => ?_
    · rw [hset, hw]
      exact ⟨_, rfl⟩
    · rw [hset, ho]
      rfl

end Player

theorem Live.Tree.pathText_of_locate {t : Tree} {path : Path} {e : PathError}
    (h : t.locate path = .error e) : e.pathText = path.render := by
  cases hplace : Place.ofPath? path with
  | none =>
    cases (locate_of_no_place hplace).symm.trans h
    rfl
  | some place =>
    cases hc : t.channel? place.layer place.effect place.channel with
    | none =>
      obtain ⟨step, hstep⟩ := locate_of_no_channel hplace hc
      cases hstep.symm.trans h
      exact Obstacle.pathText_toError _ _ _
    | some c => cases (locate_of_channel hplace hc).symm.trans h

/-- A refused write has an error with the whole path, and changes nothing. -/
structure Target.Refuses {τ : Type} [Target τ] (t : τ) (p : Path) (v : Json) (e : PathError) :
    Prop where
  pathText : e.pathText = p.render
  unchanged : Control.putAll t [(p, v)] = (t, some e)

theorem Target.refuses {τ : Type} [Target τ] {t : τ} {p : Path} {v : Json} {e : PathError}
    (hlocate : ∀ e, locate t p = .error e → e.pathText = p.render) (h : set t p v = .error e) :
    Refuses t p v e where
  pathText := by
    unfold set at h
    split at h
    next he =>
      cases h
      exact hlocate _ he
    · split at h
      · cases h
      · cases h
        exact Obstacle.pathText_toError _ _ _
  unchanged := by simp only [Control.putAll, h]

/-- A write to a document succeeds if the value before the end of the path has room for the last step,
and otherwise its error names the first step that cannot be taken. A write to a player is refused for
steps that lead to no slot, for the first number that is out of range, or inside the slot as in a
document. A refused write changes nothing. -/
theorem refusals_name_first_step :
    (∀ (d : Json) (p : Path) (v : Json), p ≠ [] → d.Judges p p 0 (Target.set d p v) ∧
      ∀ e, Target.set d p v = .error e → Target.Refuses d p v e) ∧
    ∀ (p : Player) (path : Path) (v : Json), p.Judges path (Target.set p path v) ∧
      ∀ e, Target.set p path v = .error e → Target.Refuses p path v e := by
  refine ⟨fun d p v hp => ⟨?_, fun e => Target.refuses nofun⟩,
    fun p path v => ⟨p.judges path v, fun e => Target.refuses fun e he => ?_⟩⟩
  · have haccepts : ∀ w, d.set p v = .ok w → ∃ t, Target.set d p v = .ok t :=
      fun w hw => ⟨w, Json.target_set_eq_ok.mpr hw⟩
    refine Json.judges [] hp haccepts fun k o ho => ?_
    simp [Target.set, Target.locate, ho]
  · simp only [Target.locate] at he
    split at he
    · cases he
    next hlocate =>
      cases he
      exact Tree.pathText_of_locate hlocate

def Path.deadEnd : Path := [.key "0", .index 0, .key "x"]

theorem refusals_name_first_step_on_shelf_and_axis :
    (Path.deadEnd ≠ [] ∧ ∃ e k c s, Target.set Json.shelf Path.deadEnd .null = .error e ∧
      Json.shelf.Blocks Path.deadEnd k c s ∧ e = c.refusal Path.deadEnd (0 + k) s ∧
      Control.putAll Json.shelf [(Path.deadEnd, .null)] = (Json.shelf, some e)) ∧
    ∃ p e k c s, Player.load Json.sizeAndAxis = .ok p ∧
      Target.set p (Control.Scope.liveTree.address 0 1 ++ [.index 5]) .null = .error e ∧
      e = Json.refusal c (Control.Scope.liveTree.address 0 1 ++ [.index 5]) (10 + k) s := by
  obtain ⟨hdocument, hplayer⟩ := refusals_name_first_step
  obtain ⟨e, he⟩ : ∃ e, Target.set Json.shelf Path.deadEnd .null = .error e := ⟨_, rfl⟩
  obtain ⟨hjudges, hrefuses⟩ := hdocument Json.shelf Path.deadEnd .null (List.cons_ne_nil _ _)
  obtain ⟨k, c, s, -, hblocks, hnames⟩ := hjudges.refuses e he
  obtain ⟨p, u, e', hp, hu, he'⟩ : ∃ p u e', Player.load Json.sizeAndAxis = .ok p ∧
      p.tree.slot? 0 1 0 = some u ∧
      Target.set p (Control.Scope.liveTree.address 0 1 ++ [.index 5]) .null = .error e' :=
    ⟨_, _, _, rfl, rfl, rfl⟩
  have hinside := (hplayer p (Control.Scope.liveTree.address 0 1 ++ [.index 5]) .null).1.inside
    ⟨0, 1, 0, [.index 5]⟩ u rfl (List.cons_ne_nil _ _) hu
  obtain ⟨k', c', s', -, -, hnames'⟩ := hinside.refuses e' he'
  exact ⟨⟨List.cons_ne_nil _ _, e, k, c, s, he, hblocks, hnames, (hrefuses e he).unchanged⟩,
    p, e', k', c', s', hp, he', hnames'⟩

end IconMotion
