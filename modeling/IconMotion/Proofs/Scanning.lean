import IconMotion.Proofs.Differences
import IconMotion.Proofs.Sampling

namespace IconMotion

theorem bisect_spec {p : Nat → Bool} (hp : ∀ i j, i ≤ j → p j = true → p i = true) (base : Nat)
    {size : Nat} (h : 0 < size) :
    (bisect p base size = base ∨ p (bisect p base size) = true) ∧
    ∀ i, bisect p base size < i → i < base + size → p i = false := by
  induction size using Nat.strongRecOn generalizing base with
  | ind size ih =>
    rw [bisect]
    by_cases hsize : size ≤ 1
    · rw [if_pos hsize]
      exact ⟨.inl rfl, fun i hlow hhigh => by omega⟩
    · simp only [if_neg hsize]
      cases hhalf : p (base + size / 2) with
      | true =>
        rw [if_pos rfl]
        obtain ⟨hlast, hbehind⟩ := ih (size - size / 2) (by omega) (base + size / 2) (by omega)
        refine ⟨.inr ?_, fun i hlow hhigh => hbehind i hlow (by omega)⟩
        rcases hlast with hlast | hlast
        · rwa [hlast]
        · exact hlast
      | false =>
        rw [if_neg Bool.false_ne_true]
        obtain ⟨hlast, hbehind⟩ := ih (size - size / 2) (by omega) base (by omega)
        refine ⟨hlast, fun i hlow hhigh => ?_⟩
        by_cases hi : i < base + (size - size / 2)
        · exact hbehind i hlow hi
        · rw [← Bool.not_eq_true]
          intro hpi
          rw [hp _ i (by omega) hpi] at hhalf
          cases hhalf

theorem lt_partitionPoint_iff {p : Nat → Bool} (hp : ∀ i j, i ≤ j → p j = true → p i = true)
    {size i : Nat} (hi : i < size) : i < partitionPoint p size ↔ p i = true := by
  obtain ⟨hlast, hbehind⟩ := bisect_spec hp 0 (Nat.zero_lt_of_lt hi)
  have hnone : ∀ j, bisect p 0 size < j → j < size → p j = false := by simpa using hbehind
  simp only [partitionPoint, if_neg (Nat.ne_zero_of_lt hi)]
  cases hp' : p (bisect p 0 size) with
  | true =>
    rw [if_pos rfl]
    refine ⟨fun hlt => hp _ _ (by omega) hp', fun hpi => ?_⟩
    by_contra hge
    rw [hnone i (by omega) hi] at hpi
    cases hpi
  | false =>
    rw [if_neg Bool.false_ne_true]
    have hzero : bisect p 0 size = 0 := by
      rcases hlast with hzero | hp''
      · exact hzero
      · rw [hp'] at hp''
        cases hp''
    rw [hzero] at hp' ⊢
    refine ⟨nofun, fun hpi => ?_⟩
    rw [hp 0 i (Nat.zero_le i) hpi] at hp'
    cases hp'

namespace Track

section Scan

variable {α τ υ : Type} [Scalar α] [Mix α υ] {ks later : List (Keyframe α τ)} {frame : α}
  {k : Keyframe α τ} {i : Nat}

def since (frame : α) : List (Keyframe α τ) → List (Keyframe α τ)
  | [] => []
  | k :: ks => match since frame ks with
    | [] => if k.time ≤ frame then k :: ks else []
    | later => later

/-- The value that the keyframe gives whose time came last: with the next one, as a mixture of their
values, and on its own if there is none. -/
def scan (ks : List (Keyframe α τ)) (frame : α) (convert : τ → υ) (fallback : υ) : υ :=
  match since frame ks with
  | [] => ((ks.head?.bind (·.start)).map convert).getD fallback
  | [k] => ((k.stop.or k.start).map convert).getD fallback
  | a :: b :: _ =>
    let start := (a.start.map convert).getD fallback
    let stop := ((a.stop.or b.start).map convert).getD start
    if a.hold = some 1 then start
    else Mix.mixAlong start stop
      (Easing.solve (a.easeOut.getD ⟨0.0, 0.0⟩) (b.easeIn.getD ⟨1.0, 1.0⟩)
        ((frame - a.time) / (b.time - a.time)))
      b.tangentIn a.tangentOut

omit [Mix α υ]

theorem since_cons_of_nil (h : since frame ks = []) :
    since frame (k :: ks) = if k.time ≤ frame then k :: ks else [] := by
  simp only [since, h]

theorem since_cons_of_ne_nil (h : since frame ks ≠ []) : since frame (k :: ks) = since frame ks := by
  cases hks : since frame ks with
  | nil => exact absurd hks h
  | cons a later => simp only [since, hks]

theorem since_eq_nil (h : ∀ k ∈ ks, ¬ k.time ≤ frame) : since frame ks = [] := by
  induction ks with
  | nil => rfl
  | cons k ks ih =>
    obtain ⟨hk, hks⟩ := List.forall_mem_cons.mp h
    rw [since_cons_of_nil (ih hks), if_neg hk]

theorem since_eq_drop (hk : ks[i]? = some k) (hreached : k.time ≤ frame)
    (hlater : ∀ j b, i < j → ks[j]? = some b → ¬ b.time ≤ frame) : since frame ks = ks.drop i := by
  induction ks generalizing i with
  | nil => simp at hk
  | cons a ks ih =>
    cases i with
    | zero =>
      obtain rfl : a = k := by simpa using hk
      have hnil : since frame ks = [] := by
        refine since_eq_nil fun b hb => ?_
        obtain ⟨j, hj⟩ := List.mem_iff_getElem?.mp hb
        exact hlater (j + 1) b (Nat.succ_pos j) hj
      rw [since_cons_of_nil hnil, if_pos hreached, List.drop_zero]
    | succ i =>
      have hdrop : since frame ks = ks.drop i :=
        ih hk fun j b hj hb => hlater (j + 1) b (Nat.succ_lt_succ hj) hb
      have hne : since frame ks ≠ [] := by
        have hlength : i + 1 < (a :: ks).length := (List.getElem?_eq_some_iff.mp hk).1
        simpa [hdrop] using hlength
      rw [since_cons_of_ne_nil hne, hdrop, List.drop_succ_cons]

end Scan

section Sorted

open Precision

variable {τ υ : Type} [Mix Float32 υ] {ks ks' later : List (Keyframe Float32 τ)}
  {a b k : Keyframe Float32 τ} {frame : Float32} {i j : Nat}

def Sorted (ks : List (Keyframe Float32 τ)) : Prop := ks.Pairwise fun a b => a.time ≤ b.time

instance (ks : List (Keyframe Float32 τ)) : Decidable (Sorted ks) :=
  inferInstanceAs (Decidable (ks.Pairwise _))

theorem Sorted.le (h : Sorted ks) (hij : i < j) (ha : ks[i]? = some a) (hb : ks[j]? = some b) :
    a.time ≤ b.time := by
  obtain ⟨hi, rfl⟩ := List.getElem?_eq_some_iff.mp ha
  obtain ⟨hj, rfl⟩ := List.getElem?_eq_some_iff.mp hb
  exact List.pairwise_iff_getElem.mp h i j hi hj hij

/-- A keyframe's time has come before those of the keyframes in front of it have. -/
theorem Sorted.lt_reached_iff (h : Sorted ks) (hk : ks[i]? = some k) :
    i < reached ks frame ↔ k.time ≤ frame := by
  have hi : i < ks.length := (List.getElem?_eq_some_iff.mp hk).1
  rw [reached, lt_partitionPoint_iff ?_ hi, hk, Option.any_some, decide_eq_true_eq]
  intro i j hij hj
  obtain ⟨b, hb, htime⟩ := (Option.any_eq_true _ _).mp hj
  rcases hij.lt_or_eq with hlt | rfl
  · have hlength : j < ks.length := (List.getElem?_eq_some_iff.mp hb).1
    have ha : ks[i]? = some ks[i] := List.getElem?_eq_getElem (by omega)
    rw [ha, Option.any_some, decide_eq_true_eq]
    exact le_trans_single (h.le hlt ha hb) (of_decide_eq_true htime)
  · exact hj

theorem Sorted.since_of_reached_zero (h : Sorted ks) (hreached : reached ks frame = 0) :
    since frame ks = [] := by
  refine since_eq_nil fun k hk htime => ?_
  obtain ⟨i, hi⟩ := List.mem_iff_getElem?.mp hk
  rw [← h.lt_reached_iff hi, hreached] at htime
  exact Nat.not_lt_zero i htime

theorem Sorted.since_of_reached_succ (h : Sorted ks) (hreached : reached ks frame = i + 1) :
    ∃ k later, since frame ks = k :: later ∧ ks[i]? = some k ∧ ks[i + 1]? = later[0]? := by
  have hle : reached ks frame ≤ ks.length := partitionPoint_le _ _
  have hi : ks[i]? = some ks[i] := List.getElem?_eq_getElem (by omega)
  have hdrop : since frame ks = ks.drop i := by
    refine since_eq_drop hi ((h.lt_reached_iff hi).mp (by omega)) fun j b hij hb htime => ?_
    rw [← h.lt_reached_iff hb] at htime
    omega
  refine ⟨ks[i], ks.drop (i + 1), ?_, hi, ?_⟩
  · rw [hdrop, List.drop_eq_getElem_cons]
  · rw [List.getElem?_drop, Nat.add_zero]

/-- Two keyframes between which a frame lies are apart in time. -/
theorem Sorted.zero_lt_duration (h : Sorted ks) (ha : ks[i]? = some a) (hb : ks[i + 1]? = some b)
    (hcome : a.time ≤ frame) (hahead : ¬ b.time ≤ frame) : 0.0 < b.time - a.time := by
  obtain ⟨hanumber, hbnumber, -⟩ := le_iff_numbers.mp (h.le (Nat.lt_succ_self i) ha hb)
  exact zero_lt_sub hbnumber hanumber fun hle => hahead (le_trans_single hle hcome)

theorem Sorted.zero_lt_duration_since (h : Sorted ks) (hsince : since frame ks = a :: b :: later) :
    0.0 < b.time - a.time := by
  cases hreached : reached ks frame with
  | zero =>
    rw [h.since_of_reached_zero hreached] at hsince
    cases hsince
  | succ i =>
    obtain ⟨k, rest, hrest, ha, hb⟩ := h.since_of_reached_succ hreached
    obtain ⟨rfl, rfl⟩ := List.cons.inj (hrest.symm.trans hsince)
    have hcome : k.time ≤ frame := (h.lt_reached_iff ha).mp (by omega)
    refine h.zero_lt_duration ha hb hcome fun htime => ?_
    rw [← h.lt_reached_iff hb] at htime
    omega

theorem segment_of_duration (h : 0.0 < b.time - a.time) (convert : τ → υ) (fallback : υ) :
    segment a b frame convert fallback =
      let start := (a.start.map convert).getD fallback
      let stop := ((a.stop.or b.start).map convert).getD start
      if a.hold = some 1 then start
      else Mix.mixAlong start stop
        (Easing.solve (a.easeOut.getD ⟨0.0, 0.0⟩) (b.easeIn.getD ⟨1.0, 1.0⟩)
          ((frame - a.time) / (b.time - a.time)))
        b.tangentIn a.tangentOut := by
  simp only [segment, if_neg (not_le_of_lt_single h), Option.map_or]

theorem Sorted.sampleKeys_eq_scan (h : Sorted ks) (frame : Float32) (convert : τ → υ)
    (fallback : υ) : sampleKeys ks frame convert fallback = scan ks frame convert fallback := by
  rw [sampleKeys_eq, scan]
  cases hreached : reached ks frame with
  | zero => rw [h.since_of_reached_zero hreached]
  | succ i =>
    obtain ⟨a, later, hsince, ha, hnext⟩ := h.since_of_reached_succ hreached
    rw [hsince]
    cases later with
    | nil => simp only [ha, hnext, tail, List.getElem?_nil]
    | cons b later =>
      simp only [ha, hnext, List.getElem?_cons_zero,
        segment_of_duration (h.zero_lt_duration_since hsince)]

theorem scan_congr (hnow : (since frame ks').take 2 = (since frame ks).take 2)
    (hfirst : since frame ks = [] → ks'.head? = ks.head?) (convert : τ → υ) (fallback : υ) :
    scan ks' frame convert fallback = scan ks frame convert fallback := by
  rw [scan, scan]
  cases h : since frame ks with
  | nil =>
    have hnil : since frame ks' = [] := by simpa [h] using hnow
    rw [hnil, hfirst h]
  | cons a later =>
    cases h' : since frame ks' with
    | nil => simp [h, h'] at hnow
    | cons a' later' =>
      rw [h, h', List.take_succ_cons, List.take_succ_cons, List.cons.injEq] at hnow
      obtain ⟨rfl, hnext⟩ := hnow
      cases later with
      | nil =>
        obtain rfl : later' = [] := by simpa using hnext
        rfl
      | cons b later =>
        cases later' with
        | nil => simp at hnext
        | cons b' later' =>
          obtain rfl : b' = b := by simpa using hnext
          rfl

/-- The value at a frame is what a scan of the keyframes gives; the two it is made of are apart in time,
and other keyframes, before them or after them, could be any that are in order. -/
theorem sample_scans (h : Sorted ks) (frame : Float32) (convert : τ → υ) (fallback : υ) :
    (keyed ks).sample frame convert fallback = scan ks frame convert fallback ∧
    (∀ a b later, since frame ks = a :: b :: later →
      0.0 < b.time - a.time ∧ ¬ b.time - a.time ≤ 0.0) ∧
    ∀ ks', Sorted ks' → (since frame ks').take 2 = (since frame ks).take 2 →
      (since frame ks = [] → ks'.head? = ks.head?) →
      (keyed ks').sample frame convert fallback = (keyed ks).sample frame convert fallback := by
  refine ⟨h.sampleKeys_eq_scan frame convert fallback, fun a b later hsince => ?_,
    fun ks' h' hnow hfirst => ?_⟩
  · have hpos := h.zero_lt_duration_since hsince
    exact ⟨hpos, not_le_of_lt_single hpos⟩
  · rw [sample, sample, h.sampleKeys_eq_scan, h'.sampleKeys_eq_scan,
      scan_congr hnow hfirst convert fallback]

def doubled : List (Keyframe Float32 Float32) :=
  [⟨0.0, some 0.0, none, none, none, none, none, none⟩,
    ⟨5.0, some 1.0, none, none, none, none, none, none⟩,
    ⟨5.0, some 3.0, none, none, some ⟨0.5, 0.5⟩, none, none, none⟩,
    ⟨10.0, some 7.0, none, none, none, none, none, none⟩]

theorem doubled_scans :
    Sorted doubled ∧ ((keyed doubled).sample 5.0 id 0.0 : Float32) = 3.0 ∧
      ∀ ks', Sorted ks' → (since 5.0 ks').take 2 = doubled.drop 2 →
        ((keyed ks').sample 5.0 id 0.0 : Float32) = 3.0 := by
  have hsorted : Sorted doubled := by decide +kernel
  have hsince : since 5.0 doubled = doubled.drop 2 := since_eq_drop rfl (by decide +kernel)
    fun j b hj hb => by
      obtain rfl : j = 3 := by
        have hlength : j < 4 := (List.getElem?_eq_some_iff.mp hb).1
        omega
      obtain rfl := Option.some.inj hb
      decide +kernel
  obtain ⟨-, -, halone⟩ := sample_scans hsorted 5.0 (id : Float32 → Float32) 0.0
  have hvalue : ((keyed doubled).sample 5.0 id 0.0 : Float32) = 3.0 := by decide +kernel
  refine ⟨hsorted, hvalue, fun ks' h' hnow => ?_⟩
  rw [halone ks' h' (by rw [hnow, hsince]; rfl) (by rw [hsince]; nofun), hvalue]

end Sorted

end Track

end IconMotion
