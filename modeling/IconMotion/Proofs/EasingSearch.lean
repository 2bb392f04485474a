import IconMotion.Proofs.EasingCurve

namespace IconMotion.Easing

open Set

variable {a b c t x : Rat} {n : Nat}

def newton (a b x t : Rat) : Rat := t - (curve a b t - x) / slope a b t

theorem newton_le_iff (h : 0 < slope a b t) :
    newton a b x t ≤ c ↔ x ≤ curve a b t + slope a b t * (c - t) := by
  rw [newton, sub_le_comm, le_div_iff₀ h]
  constructor <;> intro h <;> linarith

theorem le_newton_iff (h : 0 < slope a b t) :
    c ≤ newton a b x t ↔ curve a b t + slope a b t * (c - t) ≤ x := by
  rw [newton, le_sub_comm, div_le_iff₀ h]
  constructor <;> intro h <;> linarith

theorem newton_mirror (a b x t : Rat) :
    newton (1 - b) (1 - a) (1 - x) (1 - t) = 1 - newton a b x t := by
  rw [newton, newton, curve_mirror, slope_mirror]
  ring

theorem refine_mirror (a b x : Rat) (n : Nat) (t : Rat) :
    refine (1 - b) (1 - a) (1 - x) n (1 - t) = 1 - refine a b x n t := by
  induction n generalizing t with
  | zero => rfl
  | succ n ih =>
    have herr : |1 - curve a b t - (1 - x)| = |curve a b t - x| := by
      rw [sub_sub_sub_cancel_left, abs_sub_comm]
    have hstep := newton_mirror a b x t
    rw [newton, newton, curve_mirror, slope_mirror] at hstep
    simp only [refine, Scalar.abs_eq, curve_mirror, slope_mirror, herr, hstep, ih]
    split
    · rfl
    · split <;> rfl

theorem refine_induction {P : Rat → Prop} (hslope : ∀ t, P t → 0 ≤ slope a b t)
    (hstep : ∀ t, P t → 0 < slope a b t → P (newton a b x t)) (h : P t) : P (refine a b x n t) := by
  induction n generalizing t with
  | zero => exact h
  | succ n ih =>
    rw [refine]
    by_cases hnear : Scalar.abs (curve a b t - x) < 1e-4
    · rwa [if_pos hnear]
    · by_cases hlevel : Scalar.abs (slope a b t) < 1e-6
      · rwa [if_neg hnear, if_pos hlevel]
      · rw [if_neg hnear, if_neg hlevel]
        refine ih (hstep t h ((hslope t h).lt_of_ne fun hzero => hlevel ?_))
        rw [← hzero, Scalar.abs_eq, abs_zero]
        norm_num

/-- From the time itself, where the search starts, one step leads to a parameter of the curve. -/
def StartsInside (a b : Rat) : Prop :=
  ∀ x ∈ Icc (0 : Rat) 1, 0 < slope a b x → newton a b x x ∈ Icc (0 : Rat) 1

theorem StartsInside.mirror (h : StartsInside a b) : StartsInside (1 - b) (1 - a) := by
  intro x hx hslope
  have hself := slope_mirror a b (1 - x)
  have hstep := newton_mirror a b (1 - x) (1 - x)
  rw [sub_sub_cancel] at hself hstep
  rw [hstep]
  rw [hself] at hslope
  exact mirror_mem (h (1 - x) (mirror_mem hx) hslope)

theorem newton_mono {y : Rat} (h : 0 < slope a b t) (hxy : x ≤ y) :
    newton a b x t ≤ newton a b y t := by
  rw [newton_le_iff h]
  have hle := (newton_le_iff (x := y) (c := newton a b y t) h).mp le_rfl
  linarith

theorem StartsInside.zero_le (h : StartsInside a b) (ht : t ∈ Icc 0 1) (hx : t ≤ x)
    (hslope : 0 < slope a b t) : 0 ≤ newton a b x t :=
  (h t ht hslope).1.trans (newton_mono hslope hx)

variable (ha : a ∈ Icc (0 : Rat) 1) (hb : b ∈ Icc (0 : Rat) 1)

include ha hb

theorem refine_mem_of_invariant {P : Rat → Prop} (hmem : ∀ t, P t → t ∈ Icc (0 : Rat) 1)
    (hstep : ∀ t, P t → 0 < slope a b t → P (newton a b x t)) (h : P t) :
    refine a b x n t ∈ Icc (0 : Rat) 1 :=
  hmem _ (refine_induction (fun t ht => slope_nonneg ha hb (hmem t ht)) hstep h)

variable (hx : x ∈ Icc (0 : Rat) 1)

include hx

theorem half_le_newton_of_gentle (ha' : a ≤ 1 / 3) (hb' : 2 / 3 ≤ b) (hlow : x / 2 ≤ t)
    (hhigh : t ≤ (1 + x) / 2) (h : 0 < slope a b t) : x / 2 ≤ newton a b x t := by
  obtain ⟨hx0, hx1⟩ := hx
  rw [le_newton_iff h, ← sub_nonneg]
  -- With the handles at the thirds the curve is the diagonal; `p` and `q` are the distances from there.
  obtain ⟨p, hp⟩ : ∃ p, a = (1 - p) / 3 := ⟨1 - 3 * a, by ring⟩
  obtain ⟨q, hq⟩ : ∃ q, b = (2 + q) / 3 := ⟨3 * b - 2, by ring⟩
  subst hp hq
  have hp : 0 ≤ p := by linarith
  have hq : q ∈ Icc (0 : Rat) 1 := ⟨by linarith, by linarith [hb.2]⟩
  have hu : 0 ≤ 1 - t := by linarith
  have hleft : 0 ≤ (1 - t) * (t * (2 * t - x) + x * (1 - t) / 2) := by
    have ht : 0 ≤ t := by linarith
    have htx : 0 ≤ 2 * t - x := by linarith
    positivity
  have hright : 0 ≤ x / 2 + (t ^ 2 * (1 - 2 * t) - x * (1 - t) * t + x * t ^ 2 / 2) := by
    have hsquare : 0 ≤ x * (1 - t) ^ 2 / 2 := by positivity
    have hrest : 0 ≤ t ^ 2 * (1 + x - 2 * t) := mul_nonneg (sq_nonneg t) (by linarith)
    linarith
  have hsplit : x - (curve ((1 - p) / 3) ((2 + q) / 3) t +
      slope ((1 - p) / 3) ((2 + q) / 3) t * (x / 2 - t)) =
      (1 - q) * (x / 2) +
        q * (x / 2 + (t ^ 2 * (1 - 2 * t) - x * (1 - t) * t + x * t ^ 2 / 2)) +
        p * ((1 - t) * (t * (2 * t - x) + x * (1 - t) / 2)) := by
    rw [curve_eq, slope_eq]
    ring
  rw [hsplit]
  have hq' : 0 ≤ 1 - q := sub_nonneg.mpr hq.2
  have hq := hq.1
  positivity

theorem refine_mem_of_gentle (ha' : a ≤ 1 / 3) (hb' : 2 / 3 ≤ b) :
    refine a b x n x ∈ Icc (0 : Rat) 1 := by
  obtain ⟨hx0, hx1⟩ := hx
  refine refine_mem_of_invariant ha hb (P := (· ∈ Icc (x / 2) ((1 + x) / 2)))
    (fun t ht => ⟨by linarith [ht.1], by linarith [ht.2]⟩) ?_ ⟨by linarith, by linarith⟩
  intro t ht h
  refine ⟨half_le_newton_of_gentle ha hb ⟨hx0, hx1⟩ ha' hb' ht.1 ht.2 h, ?_⟩
  have hmirror := half_le_newton_of_gentle (mirror_mem hb) (mirror_mem ha)
    (mirror_mem ⟨hx0, hx1⟩) (t := 1 - t) (by linarith) (by linarith) (by linarith [ht.2])
    (by linarith [ht.1]) (by rwa [slope_mirror])
  rw [newton_mirror] at hmirror
  linarith

theorem refine_mem_of_reaching (h : StartsInside a b)
    (hreach : ∀ t ∈ Icc 0 x, x ≤ curve a b t + slope a b t * (x - t)) :
    refine a b x n x ∈ Icc (0 : Rat) 1 := by
  have hmem : ∀ t, t ∈ Icc 0 x → t ∈ Icc (0 : Rat) 1 := fun t ht => ⟨ht.1, ht.2.trans hx.2⟩
  refine refine_mem_of_invariant ha hb hmem (fun t ht hslope => ?_) ⟨hx.1, le_rfl⟩
  exact ⟨h.zero_le (hmem t ht) ht.2 hslope, (newton_le_iff hslope).mpr (hreach t ht)⟩

theorem refine_mem_of_above (h : StartsInside a b) (ha' : 1 / 3 ≤ a) (hb' : 1 + a ≤ 2 * b) :
    refine a b x n x ∈ Icc (0 : Rat) 1 := by
  refine refine_mem_of_reaching ha hb hx h fun t ht => ?_
  obtain ⟨p, hp⟩ : ∃ p, a = (1 + p) / 3 := ⟨3 * a - 1, by ring⟩
  obtain ⟨r, hr⟩ : ∃ r, b = (2 + r) / 3 := ⟨3 * b - 2, by ring⟩
  subst hp hr
  have hp : 0 ≤ p := by linarith
  have hr : 0 ≤ 2 * r - p := by linarith
  have hr' : 0 ≤ r := by linarith
  have ht0 : 0 ≤ t := ht.1
  have hxt : 0 ≤ x - t := sub_nonneg.mpr ht.2
  have hx1 : 0 ≤ 1 - x := sub_nonneg.mpr hx.2
  have hu : 0 ≤ 1 - t := by linarith
  have hsplit : curve ((1 + p) / 3) ((2 + r) / 3) t +
      slope ((1 + p) / 3) ((2 + r) / 3) t * (x - t) - x =
      (1 - x) * (t * (p * (1 - t) + r * t)) +
        (x - t) * ((1 - t) * (p * (1 - t) + (2 * r - p) * t)) := by
    rw [curve_eq, slope_eq]
    ring
  rw [← sub_nonneg, hsplit]
  positivity

/-- Before the turning point tangents are above the curve. If the curve has come to the time there, they
come to it no later than the curve does. -/
theorem refine_mem_of_turn_above {r : Rat} (h : StartsInside a b) (hr : 0 ≤ r)
    (hbefore : ∀ t ≤ r, bend a b t ≤ 0) (hturn : x ≤ curve a b r) (hover : x ≤ curve a b x) :
    refine a b x n x ∈ Icc (0 : Rat) 1 := by
  refine refine_mem_of_reaching ha hb hx h fun t ht => ?_
  have ht1 : t ≤ 1 := ht.2.trans hx.2
  have hslope : 0 ≤ slope a b t := slope_nonneg ha hb ⟨ht.1, ht1⟩
  by_cases hcurve : x ≤ curve a b t
  · have hgrowth : 0 ≤ slope a b t * (x - t) := mul_nonneg hslope (sub_nonneg.mpr ht.2)
    linarith
  · have htr : t ≤ r := by
      by_contra hrt
      exact hcurve (hturn.trans (curve_mono ha hb hr (not_le.mp hrt).le ht1))
    have hmin : x ≤ curve a b (min r x) := by
      rcases min_choice r x with hchoice | hchoice
      · rwa [hchoice]
      · rwa [hchoice]
    have htangent := curve_le_tangent (hbefore t htr) (hbefore _ (min_le_left r x))
    have hgrowth : 0 ≤ slope a b t * (x - min r x) :=
      mul_nonneg hslope (sub_nonneg.mpr (min_le_right r x))
    linarith

/-- After the turning point tangents are below the curve. If the curve comes to the time only there, the
search keeps to the part from there on where the curve has come to it. -/
theorem refine_mem_of_turn_below {r : Rat} (hr : r ∈ Icc (0 : Rat) 1)
    (hafter : ∀ t, r ≤ t → 0 ≤ bend a b t) (hturn : curve a b r < x) (hover : x ≤ curve a b x) :
    refine a b x n x ∈ Icc (0 : Rat) 1 := by
  have hrx : r ≤ x := by
    by_contra hxr
    exact hturn.not_ge (hover.trans (curve_mono ha hb hx.1 (not_le.mp hxr).le hr.2))
  refine refine_mem_of_invariant ha hb (P := fun t => r ≤ t ∧ t ≤ x ∧ x ≤ curve a b t)
    (fun t ht => ⟨hr.1.trans ht.1, ht.2.1.trans hx.2⟩) ?_ ⟨hrx, le_rfl, hover⟩
  rintro t ⟨hrt, htx, hcurve⟩ hslope
  have hlow : r ≤ newton a b x t :=
    (le_newton_iff hslope).mpr
      ((tangent_le_curve (hafter t hrt) (hafter r le_rfl)).trans hturn.le)
  refine ⟨hlow, (newton_le_iff hslope).mpr ?_, ?_⟩
  · have hgrowth : 0 ≤ slope a b t * (x - t) := mul_nonneg hslope.le (sub_nonneg.mpr htx)
    linarith
  · exact ((newton_le_iff hslope).mp le_rfl).trans
      (tangent_le_curve (hafter t hrt) (hafter _ hlow))

theorem refine_mem_of_turn (h : StartsInside a b) (ha' : b ≤ 2 * a) (hb' : 2 * b ≤ 1 + a)
    (hover : x ≤ curve a b x) : refine a b x n x ∈ Icc (0 : Rat) 1 := by
  obtain ⟨r, hr, hbefore, hafter⟩ := exists_turn ha' hb'
  rcases le_or_gt x (curve a b r) with hturn | hturn
  · exact refine_mem_of_turn_above ha hb hx h hr.1 hbefore hturn hover
  · exact refine_mem_of_turn_below ha hb hx hr hafter hturn hover

/-- If the first step stays inside from every time, then so does the search. -/
theorem refine_mem (h : StartsInside a b) : refine a b x n x ∈ Icc (0 : Rat) 1 := by
  have hmirror : refine (1 - b) (1 - a) (1 - x) n (1 - x) ∈ Icc (0 : Rat) 1 →
      refine a b x n x ∈ Icc (0 : Rat) 1 := by
    intro hmem
    have hback := mirror_mem hmem
    rwa [refine_mirror, sub_sub_cancel] at hback
  -- The mirror image of a curve above the diagonal is below it. What is left turns from one side to the
  -- other or is gentle.
  by_cases habove : 1 / 3 ≤ a ∧ 1 + a ≤ 2 * b
  · exact refine_mem_of_above ha hb hx h habove.1 habove.2
  by_cases hbelow : b ≤ 2 / 3 ∧ 2 * a ≤ b
  · exact hmirror (refine_mem_of_above (mirror_mem hb) (mirror_mem ha) (mirror_mem hx) h.mirror
      (by linarith) (by linarith))
  by_cases hgentle : a ≤ 1 / 3 ∧ 2 / 3 ≤ b
  · exact refine_mem_of_gentle ha hb hx hgentle.1 hgentle.2
  have hfirst : b ≤ 2 * a := by grind
  have hlast : 2 * b ≤ 1 + a := by grind
  rcases le_total x (curve a b x) with hover | hunder
  · exact refine_mem_of_turn ha hb hx h hfirst hlast hover
  · refine hmirror (refine_mem_of_turn (mirror_mem hb) (mirror_mem ha) (mirror_mem hx) h.mirror
      (by linarith) (by linarith) ?_)
    rw [curve_mirror]
    linarith

end IconMotion.Easing
