import IconMotion.Proofs.ControlValues
import IconMotion.Proofs.Following
import IconMotion.Proofs.HexColors
import IconMotion.Proofs.Holding

namespace IconMotion

open Control

namespace Color

/-- The channels in place: the first three items of an array, if these are numbers. -/
def channels? : List Json → Option (Unit3 Float)
  | .num r :: .num g :: .num b :: _ => some ⟨r.toFloat, g.toFloat, b.toFloat⟩
  | _ => none

theorem exists_numbers (xs : List Json) : ∃ ns : List Number,
    xs.filter Json.isNum = ns.map .num ∧ xs.filterMap Json.toFloat? = ns.map Number.toFloat := by
  induction xs with
  | nil => exact ⟨[], rfl, rfl⟩
  | cons x xs ih =>
    obtain ⟨ns, hnum, hfloat⟩ := ih
    cases x with
    | num n => exact ⟨n :: ns, congrArg (Json.num n :: ·) hnum, congrArg (n.toFloat :: ·) hfloat⟩
    | _ => exact ⟨ns, hnum, hfloat⟩

theorem channels?_filter_isNum (xs : List Json) :
    channels? (xs.filter Json.isNum) = match xs.filterMap Json.toFloat? with
      | r :: g :: b :: _ => some ⟨r, g, b⟩
      | _ => none := by
  obtain ⟨ns, hnum, hfloat⟩ := exists_numbers xs
  rw [hnum, hfloat]
  rcases ns with _ | ⟨r, _ | ⟨g, _ | ⟨b, ns⟩⟩⟩ <;> rfl

theorem isSome_channels?_filter_isNum (xs : List Json) :
    (channels? (xs.filter Json.isNum)).isSome ↔ 3 ≤ xs.countP Json.isNum := by
  obtain ⟨ns, hnum, -⟩ := exists_numbers xs
  rw [List.countP_eq_length_filter, hnum]
  rcases ns with _ | ⟨r, _ | ⟨g, _ | ⟨b, ns⟩⟩⟩ <;> simp [channels?]

theorem channels?_filter_of_in_place {xs : List Json} {u : Unit3 Float} (h : channels? xs = some u) :
    channels? (xs.filter Json.isNum) = some u := by
  unfold channels? at h
  split at h
  next => exact h
  next => cases h

theorem ofFloat_toUnit {n : Nat} (hn : n < 256) :
    Json.ofFloat (toUnit (ofNat n)) = .num (.float (toUnit (ofNat n))) :=
  if_pos (isFinite_toUnit hn)

theorem unitJson_unitOfHex (hex : String) :
    ∃ xs, unitJson (unitOfHex hex) = .arr xs ∧ channels? xs = some (unitOfHex hex) := by
  refine ⟨_, rfl, ?_⟩
  simp only [unitOfHex, ofHex, normalize, List.map_cons, ofFloat_toUnit (Nat.mod_lt _ (by norm_num))]
  rfl

end Color

open Color

namespace Icon

def HoldsColor (icon : Icon) (name : String) (xs : List Json) : Prop :=
  ∃ i d, IsFirst (fun d => d.name = Text.lower name ∧ d.kind = .color) icon.controls i d ∧
    Target.get? icon.player d.path = some (.arr xs)

/-- The color that is read is that of the channels in place, and without these there is none. -/
def ReadsInPlace (icon : Icon) (name : String) : Prop :=
  ∀ c, icon.color? name = some c ↔
    ∃ xs u, icon.HoldsColor name xs ∧ channels? xs = some u ∧ c = toHex u

variable {icon icon' : Icon} {name name' hex : String} {xs ys : List Json}

theorem head?_colorsNamed (icon : Icon) (name : String) : (icon.colorsNamed name).head? =
    icon.controls.find? fun d => d.name = Text.lower name ∧ d.kind = .color := by
  simp only [colorsNamed, named, List.filter_filter, List.head?_filter]
  congr 1
  funext d
  rw [Bool.decide_and, Bool.and_comm]

theorem holdsColor_iff : icon.HoldsColor name xs ↔
    ((icon.colorsNamed name).head?.bind fun d => Target.get? icon.player d.path) =
      some (.arr xs) := by
  simp only [HoldsColor, head?_colorsNamed, Option.bind_eq_some_iff, find?_eq_some_iff_isFirst]
  tauto

theorem HoldsColor.unique (h : icon.HoldsColor name xs) (h' : icon.HoldsColor name ys) : xs = ys :=
  Json.arr.inj (Option.some.inj ((holdsColor_iff.mp h).symm.trans (holdsColor_iff.mp h')))

theorem color?_eq (icon : Icon) (name : String) : icon.color? name =
    ((icon.colorsNamed name).head?.bind fun d => Target.get? icon.player d.path).bind fun v =>
      v.items?.bind fun xs => (channels? (xs.filter Json.isNum)).map toHex := by
  have hread (xs : List Json) : (channels? (xs.filter Json.isNum)).map toHex =
      match xs.filterMap Json.toFloat? with
        | r :: g :: b :: _ => some (toHex (⟨r, g, b⟩ : Unit3 Float))
        | _ => none := by
    rw [channels?_filter_isNum]
    split <;> rfl
  simp only [hread, Option.bind_assoc]
  rfl

theorem color?_eq_some_iff {c : String} : icon.color? name = some c ↔
    ∃ xs u, icon.HoldsColor name xs ∧ channels? (xs.filter Json.isNum) = some u ∧ c = toHex u := by
  rw [color?_eq, Option.bind_eq_some_iff]
  constructor
  · rintro ⟨v, hv, hread⟩
    obtain ⟨xs, hxs, hread⟩ := Option.bind_eq_some_iff.mp hread
    obtain ⟨u, hu, rfl⟩ := Option.map_eq_some_iff.mp hread
    cases v with
    | arr ys =>
      cases hxs
      exact ⟨xs, u, holdsColor_iff.mpr hv, hu, rfl⟩
    | _ => cases hxs
  · rintro ⟨xs, u, hxs, hu, rfl⟩
    refine ⟨.arr xs, holdsColor_iff.mp hxs, ?_⟩
    simp only [Json.items?, Option.bind_some, hu, Option.map_some]

theorem readsInPlace_iff : icon.ReadsInPlace name ↔
    ∀ xs, icon.HoldsColor name xs → 3 ≤ xs.countP Json.isNum → (channels? xs).isSome := by
  constructor
  · intro h xs hxs hcount
    obtain ⟨u, hu⟩ := Option.isSome_iff_exists.mp ((isSome_channels?_filter_isNum xs).mpr hcount)
    obtain ⟨ys, v, hys, hv, -⟩ := (h _).mp (color?_eq_some_iff.mpr ⟨xs, u, hxs, hu, rfl⟩)
    rw [hxs.unique hys, hv]
    rfl
  · intro h c
    rw [color?_eq_some_iff]
    constructor
    · rintro ⟨xs, u, hxs, hu, rfl⟩
      have hcount := (isSome_channels?_filter_isNum xs).mp (hu ▸ rfl)
      obtain ⟨v, hv⟩ := Option.isSome_iff_exists.mp (h xs hxs hcount)
      cases hu.symm.trans (channels?_filter_of_in_place hv)
      exact ⟨xs, u, hxs, hv, rfl⟩
    · rintro ⟨xs, u, hxs, hu, rfl⟩
      exact ⟨xs, u, hxs, channels?_filter_of_in_place hu, rfl⟩

theorem color?_congr (h : Text.lower name = Text.lower name') :
    icon.color? name = icon.color? name' := by
  simp only [color?, colorsNamed, named, h]

theorem holdsColor_setColor (hw : icon.Wired) (h : 0 < (icon.setColor name hex).count) :
    ∃ xs, (icon.setColor name hex).icon.HoldsColor name xs ∧
      channels? xs = some (unitOfHex hex) := by
  obtain ⟨xs, hjson, hxs⟩ := unitJson_unitOfHex hex
  refine ⟨xs, holdsColor_iff.mpr ?_, hxs⟩
  obtain ⟨d, ds, hcolors⟩ := List.exists_cons_of_length_pos h
  have hmem : d ∈ icon.colorsNamed name := hcolors ▸ List.mem_cons_self
  obtain ⟨hnamed, hkind⟩ := List.mem_filter.mp hmem
  obtain ⟨hd, hname⟩ := List.mem_filter.mp hnamed
  have hname := of_decide_eq_true hname
  have hkind := of_decide_eq_true hkind
  obtain ⟨u, hu⟩ := hw.exists_held hd
  have hselects : (colorRequest name hex).selects d = true := by
    simp [colorRequest, Request.selects, hname, hkind]
  have hheld := held?_answer hw hd hu (colorRequest name hex)
  rw [if_pos hselects, hkind] at hheld
  have hsame : (icon.setColor name hex).icon.colorsNamed name = d :: ds := hcolors
  rw [hsame, List.head?_cons, Option.bind_some, hw.get?_path hd, setColor_eq_answer, hheld, ← hjson]
  rfl

theorem color?_setColor (hw : icon.Wired) (h : 0 < (icon.setColor name hex).count)
    (hlower : Text.lower name' = Text.lower name) :
    (icon.setColor name hex).icon.color? name' = some (sixDigitForm hex) := by
  obtain ⟨xs, hxs, hu⟩ := holdsColor_setColor hw h
  rw [color?_congr hlower, color?_eq_some_iff]
  exact ⟨xs, _, hxs, channels?_filter_of_in_place hu, (toHex_unitOfHex keepsBytes_double hex).symm⟩

theorem readsInPlace_setColor (hw : icon.Wired) (h : 0 < (icon.setColor name hex).count) :
    (icon.setColor name hex).icon.ReadsInPlace name := by
  obtain ⟨xs, hxs, hu⟩ := holdsColor_setColor hw h
  refine readsInPlace_iff.mpr fun ys hys _ => ?_
  rw [hys.unique hxs, hu]
  rfl

/-- At any time in a run, the color of a name is that of the first three numbers in the array that the
first color control of that name holds, and there is none without these. This reads the array in place
exactly if its first three items are numbers or it has fewer than three numbers at all. A color that has
been set is read in place, as it was set. -/
theorem color_is_first_numbers {document : Json} {calls : List Call}
    (h : Icon.ofDocument document = .ok icon) (hrun : icon.run calls = some icon') (name : String) :
    (∀ c, icon'.color? name = some c ↔ ∃ xs u, icon'.HoldsColor name xs ∧
      channels? (xs.filter Json.isNum) = some u ∧ c = toHex u) ∧
    (icon'.ReadsInPlace name ↔
      ∀ xs, icon'.HoldsColor name xs → 3 ≤ xs.countP Json.isNum → (channels? xs).isSome) ∧
    ∀ hex, 0 < (icon'.setColor name hex).count →
      (icon'.setColor name hex).icon.ReadsInPlace name ∧
      ∀ name', Text.lower name' = Text.lower name →
        (icon'.setColor name hex).icon.color? name' = some (sixDigitForm hex) := by
  have hw := wired_of_ofDocument h
  have hw' := hw.of_sameFrame (sameFrame_run hw hrun)
  refine ⟨fun c => color?_eq_some_iff, readsInPlace_iff, fun hex hcount => ?_⟩
  exact ⟨readsInPlace_setColor hw' hcount, fun name' hlower => color?_setColor hw' hcount hlower⟩

def onlyTint : Json :=
  .rig [.rigField "Tint" "ADBE Color Control"
    (.arr [.num (.int 0), .num (.int 1), .num (.int 0)])]

def shifted : List Json := [.null, .num (.float 0.2), .num (.float 0.4), .num (.float 0.6)]

theorem color_is_first_numbers_of_tint : ∃ icon icon', Icon.ofDocument onlyTint = .ok icon ∧
    icon.run [.setProperty "tint" (.arr shifted), .sampleAt 5.0] = some icon' ∧
    icon'.color? "TINT" = some "#336699" ∧
    (icon'.setColor "Tint" "#1A2B3C").icon.color? "tint" = some "#1a2b3c" := by
  obtain ⟨icon, icon', h, hrun, hheld, hcount⟩ : ∃ icon icon',
      Icon.ofDocument onlyTint = .ok icon ∧
      icon.run [.setProperty "tint" (.arr shifted), .sampleAt 5.0] = some icon' ∧
      icon'.HoldsColor "TINT" shifted ∧ 0 < (icon'.setColor "Tint" "#1A2B3C").count :=
    ⟨_, _, rfl, rfl, ⟨0, _, ⟨rfl, ⟨by decide +kernel, rfl⟩, nofun⟩, rfl⟩, by decide +kernel⟩
  obtain ⟨hread, -, -⟩ := color_is_first_numbers h hrun "TINT"
  obtain ⟨-, -, hset⟩ := color_is_first_numbers h hrun "Tint"
  refine ⟨icon, icon', h, hrun, (hread _).mpr ⟨shifted, _, hheld, rfl, by decide +kernel⟩, ?_⟩
  rw [(hset _ hcount).2 "tint" (by decide +kernel)]
  decide +kernel

/-- Something in front of the numbers moves each of them to another channel. -/
theorem shifted_is_not_in_place : ∃ icon icon', Icon.ofDocument onlyTint = .ok icon ∧
    icon.run [.setProperty "tint" (.arr shifted)] = some icon' ∧
    icon'.color? "tint" = some "#336699" ∧ ¬ icon'.ReadsInPlace "tint" := by
  obtain ⟨icon, icon', h, hrun, hheld⟩ : ∃ icon icon', Icon.ofDocument onlyTint = .ok icon ∧
      icon.run [.setProperty "tint" (.arr shifted)] = some icon' ∧
      icon'.HoldsColor "tint" shifted :=
    ⟨_, _, rfl, rfl, 0, _, ⟨rfl, ⟨by decide +kernel, rfl⟩, nofun⟩, rfl⟩
  refine ⟨icon, icon', h, hrun, ?_, fun hplace => ?_⟩
  · exact color?_eq_some_iff.mpr ⟨shifted, _, hheld, rfl, by decide +kernel⟩
  · exact absurd (readsInPlace_iff.mp hplace shifted hheld (by decide)) (by decide)

end Icon

end IconMotion
