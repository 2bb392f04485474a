import Mathlib.Data.List.Basic
import IconMotion.Proofs.Lenses

namespace IconMotion

open Control Live

namespace Path

/-- Two paths part at a step that is the last one of neither. -/
def Forks : Path → Path → Prop
  | s :: p, t :: q => s.text ≠ t.text ∧ p ≠ [] ∧ q ≠ [] ∨ Forks p q
  | _, _ => False

variable {p q : Path}

theorem forks_append (h : p.Forks q) (r u : Path) : Forks (p ++ r) (q ++ u) := by
  induction p generalizing q with
  | nil => exact h.elim
  | cons s p ih =>
    cases q with
    | nil => exact h.elim
    | cons t q => exact h.imp (fun ⟨hne, hp, hq⟩ => ⟨hne, by simp [hp], by simp [hq]⟩) ih

theorem ne_nil_of_forks (h : p.Forks q) : p ≠ [] ∧ q ≠ [] := by
  cases p with
  | nil => exact h.elim
  | cons s p =>
    cases q with
    | nil => exact h.elim
    | cons t q => exact ⟨List.cons_ne_nil s p, List.cons_ne_nil t q⟩

theorem apart_of_forks (h : p.Forks q) : p.Apart q := by
  induction p generalizing q with
  | nil => exact h.elim
  | cons s p ih =>
    cases q with
    | nil => exact h.elim
    | cons t q => exact h.imp And.left ih

end Path

namespace Json

/-- A write of `w` at `q` answers in `j'` what it answers in `j`, and if it succeeds, its outcome with `v`
at `p` is the same as its outcome in `j'`. -/
def SetsAlike (j j' : Json) (p : Path) (v : Json) (q : Path) (w : Json) : Prop :=
  match j.set q w with
  | .error e => j'.set q w = .error e
  | .ok u => ∃ u', j'.set q w = .ok u' ∧ u.set p v = .ok u'

variable {j j' c c' v w : Json} {s t : Step} {p q : Path}

theorem SetsAlike.inside (h : c.SetsAlike c' p v q w) (hput : j.put s c' = .ok j')
    (hc : j.child s = .ok c) (hsame : j.SameChild s t) (hp : p ≠ []) (hq : q ≠ []) :
    j.SetsAlike j' (s :: p) v (t :: q) w := by
  have hold : j.child t = .ok c := (child_eq_of_sameChild hsame).symm.trans hc
  have hnew : j'.child t = .ok c' := child_put_of_sameChild hput hsame
  rw [put_eq_of_sameChild hsame] at hput
  unfold SetsAlike at h ⊢
  rw [set_cons hold hq, set_cons hnew hq]
  cases hd : c.set q w with
  | error e =>
    rw [hd] at h
    simp only [h]
  | ok d =>
    rw [hd] at h
    obtain ⟨d', hd', hdp⟩ := h
    obtain ⟨u, hu⟩ := exists_put_of_child hold d
    obtain ⟨u', hu'⟩ := exists_put_of_child hnew d'
    simp only [hu, hu', hd', mapError_ok]
    refine ⟨u', rfl, set_cons_eq_ok.mpr ⟨d', ?_, .inr ⟨hp, d, ?_, hdp⟩⟩⟩
    · rw [put_eq_of_sameChild (sameChild_put hu hsame), put_put hu, ← put_put hput, hu']
    · exact child_put_of_sameChild hu hsame.symm

theorem SetsAlike.beside (hset : c.set p v = .ok c') (hput : j.put s c' = .ok j')
    (hc : j.child s = .ok c) (hne : ¬ j.SameChild s t) (hp : p ≠ []) (hq : q ≠ []) :
    j.SetsAlike j' (s :: p) v (t :: q) w := by
  have hsee : j'.child t = j.child t := child_put_of_not_sameChild hput hne
  unfold SetsAlike
  cases hd : j.child t with
  | error o => rw [set_of_child_error hd hq, set_of_child_error (hsee.trans hd) hq]
  | ok d =>
    rw [set_cons hd hq, set_cons (hsee.trans hd) hq]
    cases hw : d.set q w with
    | error e => rfl
    | ok d' =>
      obtain ⟨u, hu⟩ := exists_put_of_child hd d'
      obtain ⟨u', hu', hcomm⟩ := exists_put_put hne hc hd hput hu
      simp only [hu, hu', mapError_ok]
      refine ⟨u', rfl, set_cons_eq_ok.mpr ⟨c', hcomm, .inr ⟨hp, c, ?_, hset⟩⟩⟩
      rw [child_put_of_not_sameChild hu fun h => hne h.symm, hc]

theorem setsAlike_of_forks (h : j.set p v = .ok j') (hpq : p.Forks q) (w : Json) :
    j.SetsAlike j' p v q w := by
  induction p generalizing j j' q with
  | nil => exact hpq.elim
  | cons s p ih =>
    cases q with
    | nil => exact hpq.elim
    | cons t q =>
      obtain ⟨hp, hq⟩ : p ≠ [] ∧ q ≠ [] := hpq.elim And.right Path.ne_nil_of_forks
      obtain ⟨c', hput, ⟨rfl, -⟩ | ⟨-, c, hc, hset⟩⟩ := set_cons_eq_ok.mp h
      · exact absurd rfl hp
      by_cases hsame : j.SameChild s t
      · have hforks : Path.Forks p q :=
          hpq.resolve_left fun hne => hne.1 (text_eq_of_sameChild hsame)
        exact (ih hset hforks).inside hput hc hsame hp hq
      · exact .beside hset hput hc hsame hp hq

end Json

/-- Writing at the first path makes no difference to the second: not to what is read there, and not to
what a write there answers and does. -/
structure Target.Independent (τ : Type) [Target τ] (p q : Path) : Prop where
  reads : ∀ (t t' : τ) (v : Json), set t p v = .ok t' → get? t' q = get? t q
  refuses : ∀ (t t' : τ) (v w : Json) (e : PathError), set t p v = .ok t' →
    set t q w = .error e → set t' q w = .error e
  commutes : ∀ (t t' u : τ) (v w : Json), set t p v = .ok t' → set t q w = .ok u →
    ∃ u', set t' q w = .ok u' ∧ set u p v = .ok u'

theorem Json.independent {p q : Path} (h : p.Forks q) : Target.Independent Json p q where
  reads _ _ _ hset := get?_set_of_apart (target_set_eq_ok.mp hset) (Path.apart_of_forks h)
  refuses j j' v w e hset he := by
    have halike := setsAlike_of_forks (target_set_eq_ok.mp hset) h w
    unfold SetsAlike at halike
    cases hw : j.set q w with
    | ok u => cases (target_set_of_ok hw).symm.trans he
    | error stop =>
      rw [hw] at halike
      simpa only [Target.set, Target.locate, hw, halike] using he
  commutes j j' u v w hset hu := by
    have halike := setsAlike_of_forks (target_set_eq_ok.mp hset) h w
    unfold SetsAlike at halike
    rw [target_set_eq_ok.mp hu] at halike
    obtain ⟨u', hq, hp⟩ := halike
    exact ⟨u', target_set_of_ok hq, target_set_of_ok hp⟩

theorem Live.Tree.locate_put_of_error {t : Tree} {path : Path} {e : PathError} (place : Place)
    (v : Json) (h : t.locate path = .error e) : (t.put place v).locate path = .error e := by
  unfold locate at h ⊢
  cases hplace : Place.ofPath? path with
  | none => simpa only [hplace] using h
  | some there =>
    simp only [hplace, put, List.getElem?_modify] at h ⊢
    cases hl : t[there.layer]? with
    | none => simpa [hl] using h
    | some l =>
      simp only [hl, Option.map_eq_map, Option.map_some] at h ⊢
      cases he : l.effects[there.effect]? with
      | none =>
        by_cases hi : place.layer = there.layer <;>
          simpa [List.getElem?_modify, hi, he] using h
      | some f =>
        -- A channel would have been a slot.
        have hc : f.channels[there.channel]? = none := by
          cases hc : f.channels[there.channel]? with
          | none => rfl
          | some c => simp [he, hc] at h
        by_cases hi : place.layer = there.layer
        · by_cases hj : place.effect = there.effect <;>
            simpa [List.getElem?_modify, hi, hj, he, hc] using h
        · simpa [hi, he, hc] using h

namespace Player

def Elsewhere (path q : Path) : Prop :=
  ∀ place there, Place.ofPath? path = some place → Place.ofPath? q = some there →
    (place.layer, place.effect, place.channel) ≠ (there.layer, there.effect, there.channel)

theorem independent {path q : Path} (h : Elsewhere path q) :
    Target.Independent Player path q where
  reads p p' v hset := by
    obtain ⟨place, u, w, hplace, hu, hw, rfl⟩ := set_eq_ok.mp hset
    cases hq : Place.ofPath? q with
    | none => rw [get?_of_no_place hq, get?_of_no_place hq]
    | some there =>
      rw [get?_of_place hq, get?_of_place hq, Tree.slot?_put_of_ne _ _ (h _ _ hplace hq)]
  refuses p p' v w e hset he := by
    obtain ⟨place, u, x, hplace, hu, hx, rfl⟩ := set_eq_ok.mp hset
    cases hlocate : p.tree.locate q with
    | error e' =>
      have hstill := Tree.locate_put_of_error place x hlocate
      simpa only [Target.set, Target.locate, hlocate, hstill] using he
    | ok slot =>
      obtain ⟨there, c, hq, hc, -⟩ := Tree.locate_eq_ok.mp hlocate
      have hslot : p.tree.slot? there.layer there.effect there.channel = some c.value := by
        rw [Tree.slot?, hc, Option.map_some]
      have hstill := (Tree.slot?_put_of_ne p.tree x (h _ _ hplace hq)).trans hslot
      rw [set_of_slot hq hslot] at he
      rw [set_of_slot hq hstill]
      cases hy : c.value.set there.rest w with
      | ok y => simp [hy] at he
      | error stop => simpa [hy] using he
  commutes p p' p₂ v w hset hset₂ := by
    obtain ⟨place, u, x, hplace, hu, hx, rfl⟩ := set_eq_ok.mp hset
    obtain ⟨there, u₂, y, hq, hu₂, hy, rfl⟩ := set_eq_ok.mp hset₂
    have hne := h _ _ hplace hq
    refine ⟨_, set_eq_ok.mpr ⟨there, u₂, y, hq, ?_, hy, rfl⟩,
      set_eq_ok.mpr ⟨place, u, x, hplace, ?_, hx, ?_⟩⟩
    · rw [Tree.slot?_put_of_ne _ _ hne, hu₂]
    · rw [Tree.slot?_put_of_ne _ _ hne.symm, hu]
    · rw [Tree.put_put_of_ne p.tree x y hne]

end Player

theorem forks_address {a b : Nat × Nat} (h : a ≠ b) (scope scope' : Scope) :
    Path.Forks (scope.address a.1 a.2) (scope'.address b.1 b.2) := by
  obtain ⟨i, j⟩ := a
  obtain ⟨i', j'⟩ := b
  have htext : (Step.index i).text ≠ (Step.index i').text ∨
      (Step.index j).text ≠ (Step.index j').text := by
    by_contra hsame
    rw [not_or, not_ne_iff, not_ne_iff, Step.text_index_inj, Step.text_index_inj] at hsame
    exact h (by rw [hsame.1, hsame.2])
  -- The two scopes have no first step in common.
  cases scope with
  | document =>
    cases scope' with
    | document => simpa [Scope.address, Path.Forks] using htext
    | liveTree => exact .inl ⟨by decide, List.cons_ne_nil _ _, List.cons_ne_nil _ _⟩
  | liveTree =>
    cases scope' with
    | document => exact .inl ⟨by decide, List.cons_ne_nil _ _, List.cons_ne_nil _ _⟩
    | liveTree => simpa [Scope.address, Path.Forks] using htext

theorem place_of_address {scope : Scope} {layer field : Nat} {r : Path} {place : Place}
    (h : Place.ofPath? (scope.address layer field ++ r) = some place) :
    scope = .liveTree ∧ place = ⟨layer, field, 0, r⟩ := by
  cases scope with
  | document => exact absurd (Place.ofPath?_eq_some.mp h) (by simp [Scope.address, Place.slotPath])
  | liveTree => exact ⟨rfl, (Option.some.inj ((ofPath?_address layer field r).symm.trans h)).symm⟩

theorem elsewhere_address {a b : Nat × Nat} (h : a ≠ b) (scope scope' : Scope) (r u : Path) :
    Player.Elsewhere (scope.address a.1 a.2 ++ r) (scope'.address b.1 b.2 ++ u) := by
  intro place there hplace hthere
  obtain ⟨-, rfl⟩ := place_of_address hplace
  obtain ⟨-, rfl⟩ := place_of_address hthere
  exact fun e => h (by simpa [Prod.ext_iff] using e)

end IconMotion
