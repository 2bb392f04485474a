import IconMotion.Proofs.ControlValues

namespace IconMotion

open Control Live

namespace Icon

variable {icon icon' : Icon} {d : Descriptor} {u : Json}

def heldFrom (d : Descriptor) (u : Json) (rs : List Request) : Json :=
  rs.foldl (fun u r => if r.selects d then d.kind.after u r.value else u) u

theorem heldFrom_of_not_selects {rs : List Request} (h : ∀ r ∈ rs, r.selects d = false) (u : Json) :
    heldFrom d u rs = u := by
  induction rs with
  | nil => rfl
  | cons r rs ih =>
    have hr : ¬ r.selects d = true := by simp [h r (by simp)]
    simp only [heldFrom, List.foldl_cons, if_neg hr]
    exact ih fun r hr => h r (List.mem_cons_of_mem _ hr)

theorem held?_answers (hw : icon.Wired) (hd : d ∈ icon.controls)
    (hu : icon.player.held? d.layer d.field = some u) (rs : List Request) :
    (rs.foldl answer icon).player.held? d.layer d.field = some (heldFrom d u rs) := by
  induction rs generalizing icon u with
  | nil => exact hu
  | cons r rs ih =>
    have hframe : SameFrame icon (icon.answer r) := sameFrame_react (e := .write r) hw rfl
    exact ih (hw.of_sameFrame hframe) (hframe.controls ▸ hd) (held?_answer hw hd hu r)

theorem heldFrom_of_last {earlier later : List Request} {name hex : String} (hkind : d.kind = .color)
    (hname : d.name = Text.lower name) (hlater : ∀ r ∈ later, r.selects d = false) (u : Json) :
    heldFrom d u (earlier ++ colorRequest name hex :: later) = unitJson (Color.unitOfHex hex) := by
  have hselects : (colorRequest name hex).selects d = true := by
    simp [Request.selects, colorRequest, hkind, hname]
  have hsplit : heldFrom d u (earlier ++ colorRequest name hex :: later) =
      heldFrom d (d.kind.after (heldFrom d u earlier) (.str hex)) later := by
    simp only [heldFrom, List.foldl_append, List.foldl_cons, if_pos hselects]
    rfl
  rw [hsplit, heldFrom_of_not_selects hlater, hkind]
  rfl

theorem selects_colorRequest {c : String × String} (h : (colorRequest c.1 c.2).selects d = true) :
    Text.lower c.1 = d.name := by
  simp only [Request.selects, colorRequest, Bool.and_eq_true] at h
  exact (of_decide_eq_true h.1).symm

theorem held?_apply {o : Options} {name hex : String} (hw : icon.Wired) (hsorted : o.colors.Sorted)
    (hd : d ∈ icon.controls) (hkind : d.kind = .color) (hname : d.name = Text.lower name)
    (hmem : (name, hex) ∈ o.colors)
    (hgreatest : ∀ c ∈ o.colors, Text.lower c.1 = Text.lower name → ¬ name < c.1) :
    (icon.apply o).1.player.held? d.layer d.field = some (unitJson (Color.unitOfHex hex)) := by
  obtain ⟨earlier, later, hcolors⟩ := List.append_of_mem hmem
  have hlater : ∀ r ∈ later.map (fun c => colorRequest c.1 c.2), r.selects d = false := by
    rintro r hr
    obtain ⟨c, hc, rfl⟩ := List.mem_map.mp hr
    rw [← Bool.not_eq_true]
    intro hselects
    have hafter : name < c.1 := by
      rw [hcolors] at hsorted
      obtain ⟨-, hsorted, -⟩ := List.pairwise_append.mp hsorted
      exact (List.pairwise_cons.mp hsorted).1 c hc
    refine hgreatest c ?_ ((selects_colorRequest hselects).trans hname) hafter
    simp [hcolors, hc]
  have hrequests : optionRequests o =
      (o.stroke.toList.map strokeRequest ++ earlier.map fun c => colorRequest c.1 c.2) ++
        colorRequest name hex :: later.map fun c => colorRequest c.1 c.2 := by
    simp [optionRequests, hcolors]
  obtain ⟨u, hu⟩ := hw.exists_held hd
  have hheld := held?_answers hw hd hu (optionRequests o)
  rw [hrequests, heldFrom_of_last hkind hname hlater, ← hrequests] at hheld
  rw [apply_eq]
  cases o.autoplay <;> exact hheld

end Icon

/-- A color for the same control, under a spelling that comes after `name`. -/
def Options.Outspells (o : Options) (name : String) (c : String × String) : Prop :=
  c ∈ o.colors ∧ Text.lower c.1 = Text.lower name ∧ name < c.1

namespace Icon

/-- A color given on top stays where no other color has a greater spelling of the name; otherwise the
greatest such spelling stays. -/
theorem override_stays_unless_outspelled {document : Json} {calls : List Call} {icon₀ icon : Icon}
    {o : Options} {overrides : List (String × String)} {stroke : Option Float} {name hex : String}
    {d : Descriptor} (h : Icon.ofDocument document = .ok icon₀) (hrun : icon₀.run calls = some icon)
    (hsorted : o.colors.Sorted) (hnodup : (overrides.map fun c => Text.lower c.1).Nodup)
    (hmem : (name, hex) ∈ overrides) (hd : d ∈ icon.controls) (hkind : d.kind = .color)
    (hname : d.name = Text.lower name) :
    ((∀ c, ¬ o.Outspells name c) →
      Target.get? (icon.apply (o.withOverrides overrides stroke)).1.player d.path =
        some (unitJson (Color.unitOfHex hex))) ∧
    ∀ c, o.Outspells name c → (∀ c', o.Outspells name c' → ¬ c.1 < c'.1) →
      Target.get? (icon.apply (o.withOverrides overrides stroke)).1.player d.path =
        some (unitJson (Color.unitOfHex c.2)) := by
  have hw₀ := wired_of_ofDocument h
  have hw := hw₀.of_sameFrame (sameFrame_run hw₀ hrun)
  have hmerged : (o.withOverrides overrides stroke).colors.Sorted :=
    SortedMap.sorted_extend hsorted overrides
  have hsame {c : String × String} (hc : c ∈ overrides) (hlower : Text.lower c.1 = Text.lower name) :
      c = (name, hex) :=
    List.inj_on_of_nodup_map hnodup hc hmem hlower
  rw [hw.get?_path hd]
  refine ⟨fun hnone => ?_, fun c hc hgreatest => ?_⟩
  · have hspellings : (overrides.map (·.1)).Nodup := by
      refine List.Nodup.of_map Text.lower ?_
      rwa [List.map_map]
    refine held?_apply hw hmerged hd hkind hname (SortedMap.mem_extend_of_mem hspellings hmem) ?_
    intro c hc hlower hlt
    rcases SortedMap.mem_extend hc with hc | hc
    · exact hnone c ⟨hc, hlower, hlt⟩
    · rw [hsame hc hlower] at hlt
      exact String.lt_irrefl name hlt
  · obtain ⟨hbase, hlower, hlt⟩ := hc
    have hnew : c.1 ∉ overrides.map (·.1) := by
      intro hkey
      obtain ⟨c', hc', hspelling⟩ := List.mem_map.mp hkey
      have hc' := hsame hc' (by rw [hspelling, hlower])
      rw [← hspelling, hc'] at hlt
      exact String.lt_irrefl name hlt
    refine held?_apply hw hmerged hd hkind (hname.trans hlower.symm)
      (SortedMap.mem_extend_of_not_mem hbase hnew) ?_
    intro c' hc' hlower' hlt'
    have hlower' := hlower'.trans hlower
    rcases SortedMap.mem_extend hc' with hc' | hc'
    · exact hgreatest c' ⟨hc', hlower', String.lt_trans hlt hlt'⟩ hlt'
    · rw [hsame hc' hlower'] at hlt'
      exact String.lt_irrefl name (String.lt_trans hlt hlt')

def onlyPrimary : Json :=
  .rig [.rigField "Primary" "ADBE Color Control"
    (.arr [.num (.int 1), .num (.int 0), .num (.int 0)])]

theorem override_stays_unless_outspelled_for_primary : ∃ icon d,
    Icon.ofDocument onlyPrimary = .ok icon ∧ d ∈ icon.controls ∧ d.kind = .color ∧
    d.name = Text.lower "Primary" ∧
    Target.get? (icon.apply (Options.withOverrides { colors := [("PRIMARY", "#000000")] }
      [("Primary", "#ffffff")] none)).1.player d.path = some (unitJson (Color.unitOfHex "#ffffff")) ∧
    Target.get? (icon.apply (Options.withOverrides { colors := [("primary", "#000000")] }
      [("Primary", "#ffffff")] none)).1.player d.path =
        some (unitJson (Color.unitOfHex "#000000")) := by
  obtain ⟨icon, d, h, hd, hkind, hname⟩ : ∃ icon d, Icon.ofDocument onlyPrimary = .ok icon ∧
      d ∈ icon.controls ∧ d.kind = .color ∧ d.name = Text.lower "Primary" :=
    ⟨_, _, rfl, .head _, rfl, by decide +kernel⟩
  have hrun : icon.run [] = some icon := rfl
  have hupper := @override_stays_unless_outspelled _ _ _ _ { colors := [("PRIMARY", "#000000")] }
    [("Primary", "#ffffff")] none _ _ _ h hrun (List.pairwise_singleton _ _)
    (List.nodup_singleton _) (.head _) hd hkind hname
  have hlower := @override_stays_unless_outspelled _ _ _ _ { colors := [("primary", "#000000")] }
    [("Primary", "#ffffff")] none _ _ _ h hrun (List.pairwise_singleton _ _)
    (List.nodup_singleton _) (.head _) hd hkind hname
  refine ⟨icon, d, h, hd, hkind, hname, hupper.1 ?_, hlower.2 ("primary", "#000000") ?_ ?_⟩
  · rintro c ⟨hc, -, hlt⟩
    rw [List.mem_singleton.mp hc] at hlt
    exact absurd hlt (by decide +kernel)
  · exact ⟨.head _, by decide +kernel, by decide +kernel⟩
  · rintro c ⟨hc, -⟩ hlt
    rw [List.mem_singleton.mp hc] at hlt
    exact absurd hlt (by decide +kernel)

/-- The color from below stays when its name is spelled in lower case. -/
theorem override_lost_to_lower_case : ∃ icon d,
    Icon.ofDocument onlyPrimary = .ok icon ∧ d ∈ icon.controls ∧ d.kind = .color ∧
    d.name = Text.lower "Primary" ∧
    Target.get? (icon.apply (Options.withOverrides { colors := [("primary", "#000000")] }
      [("Primary", "#ffffff")] none)).1.player d.path ≠
        some (unitJson (Color.unitOfHex "#ffffff")) := by
  refine ⟨_, _, rfl, .head _, rfl, by decide +kernel, fun h => ?_⟩
  have hwhite := congrArg (·.any (Json.same (unitJson (Color.unitOfHex "#ffffff")))) h
  revert hwhite
  decide +kernel

end Icon

end IconMotion
