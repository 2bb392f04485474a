import IconMotion.Proofs.Scanning

namespace IconMotion

namespace Json

variable {a b : Json}

def isNum : Json → Bool
  | num _ => true
  | _ => false

def width? : Json → Option Nat
  | num _ => some 1
  | arr xs => if xs.all isNum then some xs.length else none
  | _ => none

/-- Two values that are not made of the same number of numbers. -/
def Rigid (a b : Json) : Prop := ∀ n, a.width? = some n → b.width? ≠ some n

theorem map_length_mapM {α β : Type} (f : α → Option β) (xs : List α) :
    (xs.mapM f).map List.length =
      if xs.all fun x => (f x).isSome then some xs.length else none := by
  induction xs with
  | nil => rfl
  | cons x xs ih =>
    cases hx : f x with
    | none => simp [hx]
    | some y =>
      have hcons : ((x :: xs).mapM f).map List.length =
          ((xs.mapM f).map List.length).map (· + 1) := by
        rw [List.mapM_cons, hx]
        cases xs.mapM f <;> rfl
      rw [hcons, ih, List.all_cons, hx, Option.isSome_some, Bool.true_and]
      split <;> rfl

theorem width?_eq (v : Json) : v.width? = v.components?.map List.length := by
  cases v with
  | arr xs =>
    have hnum : isNum = fun x => (x.toFloat?.map Precision.narrow).isSome := by
      funext x
      cases x <;> rfl
    rw [width?, components?, map_length_mapM, hnum]
  | null | bool _ | num _ | str _ | obj _ => rfl

theorem mixAlong_of_rigid (h : Rigid a b) (t : Float32) (tangentIn tangentOut : Option (List Float32)) :
    mixAlong a b t tangentIn tangentOut = stay a b t := by
  simp only [Rigid, width?_eq] at h
  rw [mixAlong]
  split
  next xs ys hxs hys =>
    have hlength : xs.length ≠ ys.length := by
      intro hlength
      refine h xs.length ?_ ?_
      · rw [hxs, Option.map_some]
      · rw [hys, Option.map_some, hlength]
    rw [if_pos (.inl hlength)]
  next => rfl

theorem stay_eq_left_iff {t : Float32} : stay a b t = a ↔ t < 1.0 ∨ b = a := by
  rw [stay]
  split
  next ht => simp [ht]
  next ht => simp [ht]

end Json

namespace Track

open Precision

section Ends

variable {α τ : Type}

def origin (a : Keyframe α τ) (fallback : τ) : τ := a.start.getD fallback

def goal (a b : Keyframe α τ) (fallback : τ) : τ := (a.stop.or b.start).getD (origin a fallback)

def share [Scalar α] (a b : Keyframe α τ) (frame : α) : α :=
  Easing.solve (a.easeOut.getD ⟨0.0, 0.0⟩) (b.easeIn.getD ⟨1.0, 1.0⟩)
    ((frame - a.time) / (b.time - a.time))

end Ends

section Between

variable {τ : Type} [Mix Float32 τ] {ks : List (Keyframe Float32 τ)} {a b : Keyframe Float32 τ}
  {frame : Float32} {i : Nat}

omit [Mix Float32 τ] in
theorem Sorted.since_between (h : Sorted ks) (ha : ks[i]? = some a) (hb : ks[i + 1]? = some b)
    (hcome : a.time ≤ frame) (hahead : frame < b.time) :
    since frame ks = a :: b :: ks.drop (i + 2) := by
  obtain ⟨hi, rfl⟩ := List.getElem?_eq_some_iff.mp ha
  obtain ⟨hnext, rfl⟩ := List.getElem?_eq_some_iff.mp hb
  have hdrop : since frame ks = ks.drop i := by
    refine since_eq_drop ha hcome fun j k hij hk htime => not_le_of_lt_single hahead ?_
    rcases Nat.lt_or_eq_of_le (Nat.succ_le_of_lt hij) with hlt | rfl
    · exact le_trans_single (h.le hlt hb hk) htime
    · obtain rfl := Option.some.inj (hb.symm.trans hk)
      exact htime
  rw [hdrop, List.drop_eq_getElem_cons hi, List.drop_eq_getElem_cons hnext]

theorem Sorted.sampleKeys_between (h : Sorted ks) (ha : ks[i]? = some a)
    (hb : ks[i + 1]? = some b) (hcome : a.time ≤ frame) (hahead : frame < b.time) (fallback : τ) :
    sampleKeys ks frame id fallback =
      if a.hold = some 1 then origin a fallback
      else Mix.mixAlong (origin a fallback) (goal a b fallback) (share a b frame)
        b.tangentIn a.tangentOut := by
  rw [h.sampleKeys_eq_scan, scan, h.since_between ha hb hcome hahead]
  simp only [Option.map_id, id_eq, origin, goal, share]

end Between

section Rigid

variable {ks : List (Keyframe Float32 Json)} {a b : Keyframe Float32 Json} {frame : Float32}
  {fallback : Json} {i : Nat}

/-- Between two keyframes whose values cannot be mixed, the first value holds for as long as the share of
change is not complete, with a hold for the whole time, and no longer if the values differ. -/
theorem sample_of_rigid (h : Sorted ks) (ha : ks[i]? = some a) (hb : ks[i + 1]? = some b)
    (hcome : a.time ≤ frame) (hahead : frame < b.time)
    (hrigid : (origin a fallback).Rigid (goal a b fallback)) :
    (keyed ks).sample frame id fallback =
      (if a.hold = some 1 ∨ share a b frame < 1.0 then origin a fallback else goal a b fallback) ∧
    ((keyed ks).sample frame id fallback = origin a fallback ↔
      a.hold = some 1 ∨ share a b frame < 1.0 ∨ goal a b fallback = origin a fallback) := by
  have hsample : (keyed ks).sample frame id fallback =
      if a.hold = some 1 then origin a fallback
      else Json.stay (origin a fallback) (goal a b fallback) (share a b frame) :=
    (h.sampleKeys_between ha hb hcome hahead fallback).trans
      (if_congr Iff.rfl rfl (Json.mixAlong_of_rigid hrigid _ _ _))
  rw [hsample]
  by_cases hhold : a.hold = some 1
  · simp [hhold]
  · refine ⟨?_, ?_⟩
    · simp only [hhold, if_false, false_or, Json.stay]
    · simp only [hhold, if_false, false_or, Json.stay_eq_left_iff]

def word (height : Float32) : Keyframe Float32 Json :=
  ⟨0.0, some (.str "a"), some (.str "b"), none, some ⟨0.5, height⟩, none, none, none⟩

def nextWord : Keyframe Float32 Json := ⟨10.0, none, none, some ⟨0.5, 1.0⟩, none, none, none, none⟩

theorem rigid_words (height : Float32) :
    (origin (word height) .null).Rigid (goal (word height) nextWord .null) := nofun

theorem sample_of_rigid_on_words :
    Sorted [word 0.5, nextWord] ∧
    (origin (word 0.5) .null).Rigid (goal (word 0.5) nextWord .null) ∧
    share (word 0.5) nextWord 5.0 < 1.0 ∧
    (keyed [word 0.5, nextWord]).sample 5.0 id .null = Json.str "a" := by
  have hsorted : Sorted [word 0.5, nextWord] := by decide +kernel
  have hshare : share (word 0.5) nextWord 5.0 < 1.0 := by decide +kernel
  have hcome : (word 0.5).time ≤ 5.0 := by decide +kernel
  have hahead : 5.0 < nextWord.time := by decide +kernel
  obtain ⟨hsample, -⟩ := sample_of_rigid (i := 0) hsorted rfl rfl hcome hahead (rigid_words 0.5)
  exact ⟨hsorted, rigid_words 0.5, hshare, hsample.trans (if_pos (.inr hshare))⟩

theorem word_gives_way_early :
    Sorted [word 2.0, nextWord] ∧ (word 2.0).time ≤ 5.0 ∧ 5.0 < nextWord.time ∧
    (origin (word 2.0) .null).Rigid (goal (word 2.0) nextWord .null) ∧
    (keyed [word 2.0, nextWord]).sample 5.0 id .null ≠ origin (word 2.0) .null := by
  refine ⟨by decide +kernel, by decide +kernel, by decide +kernel, rigid_words 2.0, fun h => ?_⟩
  have htext := congrArg Json.text? h
  revert htext
  decide +kernel

end Rigid

end Track

end IconMotion
