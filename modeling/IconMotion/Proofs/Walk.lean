import IconMotion.Path.Walk
import IconMotion.Proofs.Outcomes

namespace IconMotion

namespace Step

theorem digits_injective : Function.Injective digits := by
  intro i j h
  have hi := Nat.ofDigitChars_ten_toDigits (n := i)
  have hj := Nat.ofDigitChars_ten_toDigits (n := j)
  unfold digits at h
  rw [h] at hi
  exact hi.symm.trans hj

theorem text_index_inj {i j : Nat} : (index i).text = (index j).text ↔ i = j := by
  constructor
  · intro h
    have hd : digits i = digits j := by simpa [text] using congrArg String.toList h
    exact digits_injective hd
  · rintro rfl
    rfl

end Step

namespace Path

/-- One path leaves the other for a different child: at some step they name different texts. -/
def Apart : Path → Path → Prop
  | s :: p, t :: q => s.text ≠ t.text ∨ Apart p q
  | _, _ => False

theorem apart_append_of_apart {p q : Path} (h : Apart p q) (r u : Path) : Apart (p ++ r) (q ++ u) := by
  induction p generalizing q with
  | nil => exact h.elim
  | cons s p ih =>
    cases q with
    | nil => exact h.elim
    | cons t q => exact h.imp id ih

end Path

namespace Json

theorem child_obj_eq_ok {ms : List (String × Json)} {s : Step} {c : Json} :
    (obj ms).child s = .ok c ↔ SortedMap.find? ms s.text = some c := by
  cases h : SortedMap.find? ms s.text <;> simp [child, h]

theorem child_arr_eq_ok {xs : List Json} {s : Step} {c : Json} :
    (arr xs).child s = .ok c ↔ ∃ i, s = .index i ∧ xs[i]? = some c := by
  cases s with
  | key name => simp [child]
  | index i => cases h : xs[i]? <;> simp [child, h]

theorem put_arr_eq_ok {xs : List Json} {j' : Json} {s : Step} {v : Json}
    (h : (arr xs).put s v = .ok j') :
    ∃ i ys, s = .index i ∧ j' = arr ys ∧ ys[i]? = some v ∧ ∀ k, i ≠ k → ys[k]? = xs[k]? := by
  cases s with
  | key name => simp [put] at h
  | index i =>
    simp only [put] at h
    split at h
    next hi =>
      cases h
      exact ⟨i, _, rfl, rfl, by simp [hi], fun k hik => List.getElem?_set_ne hik⟩
    · split at h
      next hi =>
        cases h
        exact ⟨i, _, rfl, rfl, by simp [hi], fun k hik => by grind⟩
      · cases h

theorem child_put_self {j j' : Json} {s : Step} {v : Json} (h : j.put s v = .ok j') :
    j'.child s = .ok v := by
  cases j with
  | obj ms =>
    simp only [put, Except.ok.injEq] at h
    subst h
    simp [child, SortedMap.find?_insert_self]
  | arr xs =>
    obtain ⟨i, ys, rfl, rfl, hself, -⟩ := put_arr_eq_ok h
    simp only [child, hself]
  | _ => simp [put] at h

/-- Two steps into a value that name one child. Members of an object go by their text. -/
def SameChild : Json → Step → Step → Prop
  | obj _, s, t => s.text = t.text
  | _, s, t => s = t

theorem SameChild.symm {j : Json} {s t : Step} (h : j.SameChild s t) : j.SameChild t s := by
  cases j with
  | obj ms => exact Eq.symm (show s.text = t.text from h)
  | _ => exact Eq.symm (show s = t from h)

theorem text_eq_of_sameChild {j : Json} {s t : Step} (h : j.SameChild s t) : s.text = t.text := by
  cases j with
  | obj ms => exact h
  | _ => exact congrArg Step.text h

theorem child_eq_of_sameChild {j : Json} {s t : Step} (h : j.SameChild s t) :
    j.child s = j.child t := by
  cases j with
  | obj ms => simp only [child, show s.text = t.text from h]
  | _ => rw [show s = t from h]

theorem put_eq_of_sameChild {j : Json} {s t : Step} (h : j.SameChild s t) (v : Json) :
    j.put s v = j.put t v := by
  cases j with
  | obj ms => simp only [put, show s.text = t.text from h]
  | _ => rw [show s = t from h]

theorem sameChild_put {j j' v : Json} {r s t : Step} (hput : j.put r v = .ok j')
    (h : j.SameChild s t) : j'.SameChild s t := by
  cases j with
  | obj ms =>
    cases hput
    exact h
  | arr xs =>
    obtain ⟨i, ys, -, rfl, -⟩ := put_arr_eq_ok hput
    exact h
  | _ => cases hput

theorem child_put_of_sameChild {j j' : Json} {s t : Step} {v : Json} (h : j.put s v = .ok j')
    (hsame : j.SameChild s t) : j'.child t = .ok v := by
  cases j with
  | obj ms =>
    cases h
    simp only [child, ← show s.text = t.text from hsame, SortedMap.find?_insert_self]
  | _ =>
    obtain rfl : s = t := hsame
    exact child_put_self h

theorem child_put_of_not_sameChild {j j' : Json} {s t : Step} {v : Json} (h : j.put s v = .ok j')
    (hne : ¬ j.SameChild s t) : j'.child t = j.child t := by
  cases j with
  | obj ms =>
    simp only [put, Except.ok.injEq] at h
    subst h
    simp only [child, SortedMap.find?_insert_of_ne ms v hne]
  | arr xs =>
    obtain ⟨i, ys, rfl, rfl, -, hother⟩ := put_arr_eq_ok h
    cases t with
    | key name => rfl
    | index k =>
      have hik : i ≠ k := fun e => hne (congrArg Step.index e)
      simp only [child, hother k hik]
  | _ => simp [put] at h

/-- The second path leaves the first for another child of a value that both reach. -/
def Parts : Json → Path → Path → Prop
  | j, s :: p, t :: q => ¬ j.SameChild s t ∨ ∃ c, j.child s = .ok c ∧ Parts c p q
  | _, _, _ => False

theorem exists_put_of_child {j c : Json} {s : Step} (h : j.child s = .ok c) (v : Json) :
    ∃ j', j.put s v = .ok j' := by
  cases j with
  | obj ms => exact ⟨_, rfl⟩
  | arr xs =>
    cases s with
    | key name => simp [child] at h
    | index i =>
      by_cases hi : i < xs.length
      · exact ⟨_, by simp only [put, if_pos hi]; rfl⟩
      · simp [child, hi] at h
  | _ => simp [child] at h

theorem put_put {j j' : Json} {s : Step} {v : Json} (h : j.put s v = .ok j') (w : Json) :
    j'.put s w = j.put s w := by
  cases j with
  | obj ms =>
    cases h
    simp only [put, SortedMap.insert_insert]
  | arr xs =>
    cases s with
    | key name => simp [put] at h
    | index i =>
      simp only [put] at h
      split at h
      · cases h
        simp [put, *]
      · split at h
        · cases h
          simp [put, *]
        · cases h
  | _ => simp [put] at h

theorem exists_put_put {j j₁ j₂ c d v w : Json} {s t : Step} (hne : ¬ j.SameChild s t)
    (hc : j.child s = .ok c) (hd : j.child t = .ok d) (h₁ : j.put s v = .ok j₁)
    (h₂ : j.put t w = .ok j₂) : ∃ j₃, j₁.put t w = .ok j₃ ∧ j₂.put s v = .ok j₃ := by
  cases j with
  | obj ms =>
    cases h₁
    cases h₂
    exact ⟨_, rfl, by simp only [put, SortedMap.insert_comm ms v w hne]⟩
  | arr xs =>
    obtain ⟨i, rfl, hxi⟩ := child_arr_eq_ok.mp hc
    obtain ⟨k, rfl, hxk⟩ := child_arr_eq_ok.mp hd
    obtain ⟨hi, -⟩ := List.getElem?_eq_some_iff.mp hxi
    obtain ⟨hk, -⟩ := List.getElem?_eq_some_iff.mp hxk
    have hik : i ≠ k := fun e => hne (congrArg Step.index e)
    simp only [put, if_pos hi, if_pos hk, Except.ok.injEq] at h₁ h₂
    subst h₁ h₂
    refine ⟨arr ((xs.set i v).set k w), ?_, ?_⟩
    · simp only [put, List.length_set, if_pos hk]
    · simp only [put, List.length_set, if_pos hi, List.set_comm v w hik]
  | _ => cases hc

theorem get?_cons_eq_some {j w : Json} {s : Step} {p : Path} :
    j.get? (s :: p) = some w ↔ ∃ c, j.child s = .ok c ∧ c.get? p = some w := by
  cases h : j.child s with
  | ok c => simp [get?, h]
  | error o => simp [get?, h]

theorem get?_append (j : Json) (p q : Path) : j.get? (p ++ q) = (j.get? p).bind (·.get? q) := by
  induction p generalizing j with
  | nil => rfl
  | cons s p ih =>
    cases h : j.child s with
    | ok c => simp [get?, h, ih]
    | error o => simp [get?, h]

theorem set_cons_eq_ok {j j' v : Json} {s : Step} {p : Path} :
    j.set (s :: p) v = .ok j' ↔
      ∃ w, j.put s w = .ok j' ∧
        (p = [] ∧ w = v ∨ p ≠ [] ∧ ∃ c, j.child s = .ok c ∧ c.set p v = .ok w) := by
  cases p with
  | nil =>
    cases h : j.put s v with
    | ok c => simp [set, h, mapError_ok]
    | error o => simp [set, h, mapError_error]
  | cons t p =>
    cases h : j.child s with
    | error o => simp [set, h]
    | ok c =>
      cases hc : c.set (t :: p) v with
      | error e => simp [set, h, hc]
      | ok w => cases hw : j.put s w <;> simp [set, h, hc, hw, mapError_ok, mapError_error]

theorem exists_set_of_get? {j c : Json} {p : Path} (h : j.get? p = some c) (v : Json) :
    ∃ j', j.set p v = .ok j' := by
  induction p generalizing j with
  | nil => exact ⟨v, rfl⟩
  | cons s p ih =>
    rw [get?_cons_eq_some] at h
    obtain ⟨d, hd, hp⟩ := h
    obtain ⟨w, hw⟩ := ih hp
    cases p with
    | nil =>
      obtain ⟨j', hj⟩ := exists_put_of_child hd v
      refine ⟨j', ?_⟩
      rw [set_cons_eq_ok]
      exact ⟨v, hj, Or.inl ⟨rfl, rfl⟩⟩
    | cons t p =>
      obtain ⟨j', hj⟩ := exists_put_of_child hd w
      refine ⟨j', ?_⟩
      rw [set_cons_eq_ok]
      exact ⟨w, hj, Or.inr ⟨by simp, d, hd, hw⟩⟩

theorem get?_set_self {j j' v : Json} {p : Path} (h : j.set p v = .ok j') : j'.get? p = some v := by
  induction p generalizing j j' with
  | nil =>
    cases h
    rfl
  | cons s p ih =>
    rw [set_cons_eq_ok] at h
    obtain ⟨w, hput, hw⟩ := h
    rw [get?_cons_eq_some]
    refine ⟨w, child_put_self hput, ?_⟩
    rcases hw with ⟨rfl, rfl⟩ | ⟨_, c, _, hc⟩
    · rfl
    · exact ih hc

theorem get?_set_of_parts {j j' v : Json} {p q : Path} (h : j.set p v = .ok j')
    (hpq : j.Parts p q) : j'.get? q = j.get? q := by
  induction p generalizing j j' q with
  | nil => exact hpq.elim
  | cons s p ih =>
    cases q with
    | nil => exact hpq.elim
    | cons t q =>
      rw [set_cons_eq_ok] at h
      obtain ⟨w, hput, hw⟩ := h
      by_cases hsame : j.SameChild s t
      · obtain ⟨c, hc, hq⟩ := hpq.resolve_left (not_not_intro hsame)
        rcases hw with ⟨rfl, rfl⟩ | ⟨_, d, hd, hset⟩
        · exact hq.elim
        · cases hc.symm.trans hd
          have hnew := child_put_of_sameChild hput hsame
          have hold := (child_eq_of_sameChild hsame).symm.trans hc
          simp only [get?, hnew, hold, ih hset hq]
      · simp only [get?, child_put_of_not_sameChild hput hsame]

/-- Paths of other texts part wherever the first one can be written to. -/
theorem parts_of_apart {j j' v : Json} {p q : Path} (h : j.set p v = .ok j') (hpq : p.Apart q) :
    j.Parts p q := by
  induction p generalizing j j' q with
  | nil => exact hpq.elim
  | cons s p ih =>
    cases q with
    | nil => exact hpq.elim
    | cons t q =>
      rcases hpq with hne | hq
      · exact .inl fun hsame => hne (text_eq_of_sameChild hsame)
      · rw [set_cons_eq_ok] at h
        obtain ⟨w, -, ⟨rfl, rfl⟩ | ⟨-, c, hc, hset⟩⟩ := h
        · exact hq.elim
        · exact .inr ⟨c, hc, ih hset hq⟩

theorem get?_set_of_apart {j j' v : Json} {p q : Path} (h : j.set p v = .ok j') (hpq : p.Apart q) :
    j'.get? q = j.get? q :=
  get?_set_of_parts h (parts_of_apart h hpq)

theorem set_set {j j' v w : Json} {p : Path} (h : j.set p v = .ok j') {j'' : Json}
    (h' : j'.set p w = .ok j'') : j.set p w = .ok j'' := by
  induction p generalizing j j' j'' with
  | nil => exact h'
  | cons s p ih =>
    rw [set_cons_eq_ok] at h h'
    obtain ⟨v', hput, hv⟩ := h
    obtain ⟨w', hput', hw⟩ := h'
    rw [put_put hput] at hput'
    rw [set_cons_eq_ok]
    refine ⟨w', hput', ?_⟩
    rcases hv with ⟨rfl, rfl⟩ | ⟨hne, c, hc, hset⟩
    · exact Or.inl (hw.resolve_right fun e => e.1 rfl)
    · obtain ⟨_, d, hd, hset'⟩ := hw.resolve_left fun e => hne e.1
      have hdv : d = v' := by
        rw [child_put_self hput] at hd
        exact (Except.ok.inj hd).symm
      subst hdv
      exact Or.inr ⟨hne, c, hc, ih hset hset'⟩

/-- The steps of an error are counted from the outermost value. -/
theorem set_cons {j d : Json} {s : Step} {p : Path} (hd : j.child s = .ok d) (hp : p ≠ []) (v : Json) :
    j.set (s :: p) v = match d.set p v with
      | .error (n, o) => .error (n + 1, o)
      | .ok w => (j.put s w).mapError fun o => (0, o) := by
  obtain ⟨t, r, rfl⟩ := List.exists_cons_of_ne_nil hp
  cases hs : d.set (t :: r) v <;> simp only [set, hd, hs]

theorem set_of_child_error {j : Json} {s : Step} {p : Path} {o : Obstacle}
    (h : j.child s = .error o) (hp : p ≠ []) (v : Json) : j.set (s :: p) v = .error (0, o) := by
  obtain ⟨t, r, rfl⟩ := List.exists_cons_of_ne_nil hp
  simp only [set, h]

theorem set_append {j c : Json} {p q : Path} (hp : j.get? p = some c) (hq : q ≠ []) (v : Json) :
    j.set (p ++ q) v = match c.set q v with
      | .ok w => j.set p w
      | .error (n, o) => .error (p.length + n, o) := by
  induction p generalizing j with
  | nil =>
    cases hp
    cases h : c.set q v <;> simp [set, h]
  | cons s p ih =>
    obtain ⟨d, hd, hdp⟩ := get?_cons_eq_some.mp hp
    rw [List.cons_append, set_cons hd (by simp [hq]), ih hdp]
    cases hc : c.set q v with
    | error e =>
      simp only [List.length_cons]
      congr 2
      omega
    | ok w =>
      cases p with
      | nil =>
        cases hdp
        rfl
      | cons u p => exact (set_cons hd (List.cons_ne_nil u p) w).symm

end Json

end IconMotion
