import IconMotion.Proofs.Export

namespace IconMotion

open Control Live Decoder

namespace Control

def Descriptor.bare (d : Descriptor) : Descriptor := { d with value := .null }

@[simp] theorem Descriptor.bare_withValue (d : Descriptor) (key : Nat × Nat) (v : Json) :
    (d.withValue key v).bare = d.bare := by
  unfold withValue
  split <;> rfl

@[simp] theorem Descriptor.key_withValue (d : Descriptor) (key : Nat × Nat) (v : Json) :
    (d.withValue key v).key = d.key := by
  unfold withValue
  split <;> rfl

variable {document : Json} {d d' : Descriptor} {v : Json}

theorem Still.replace_self (hd : d ∈ discover document .liveTree) (h : Still document d)
    (hv : isKeyframeList v = false) :
    Still (document.replace d.documentPath v) { d with value := v } := by
  refine ⟨?_, hv⟩
  obtain ⟨j, q, hj, hq⟩ := h.readable
  have hvalue : document.get? d.documentPath = some d.value := get?_of_mem_discover hd
  have hpath : d.documentPath = propertyPath d.layer d.field ++ [.key "k"] := rfl
  have hk := hvalue
  rw [hpath, Json.get?_append, hj, Option.bind_some] at hk
  obtain ⟨ms, -, rfl, -, -⟩ := Json.exists_members hk
  have hset := Json.set_append hj (List.cons_ne_nil (.key "k") []) v
  rw [← hpath, Json.set_eq_replace hvalue] at hset
  exact ⟨_, _, Json.get?_set_self hset.symm, propertyOfMembers_insert v hq⟩

theorem Still.replace_of_ne (h : Still document d') (hkey : d.key ≠ d'.key) (v : Json) :
    Still (document.replace d.documentPath v) d' := by
  refine ⟨?_, h.unkeyed⟩
  rw [Json.get?_replace_of_apart (documentPath_apart_propertyPath hkey)]
  exact h.readable

end Control

namespace Json

/-- A document that can be played, in which every control can be read and none has keyframes. -/
structure AllStill (document : Json) : Prop where
  loads : ∃ p, Player.load document = .ok p
  still : ∀ d ∈ discover document .liveTree, Still document d

variable {document : Json} {d : Descriptor} {v : Json}

theorem AllStill.replace (h : document.AllStill) (hd : d ∈ discover document .liveTree)
    (hv : isKeyframeList v = false) : (document.replace d.documentPath v).AllStill := by
  constructor
  · obtain ⟨p, hp⟩ := h.loads
    obtain ⟨_, _, -, -, -, hset⟩ := load_replace hp (get?_of_mem_discover hd)
    obtain ⟨p', hp', -⟩ := hset v
    exact ⟨p', hp'⟩
  · intro x hx
    rw [Descriptor.documentPath, discover_replace hd] at hx
    obtain ⟨d', hd', rfl⟩ := List.mem_map.mp hx
    by_cases hkey : d'.key = d.key
    · rw [Descriptor.withValue, if_pos hkey, ← documentPath_eq hkey]
      exact (h.still d' hd').replace_self hd' hv
    · rw [Descriptor.withValue, if_neg hkey]
      exact (h.still d' hd').replace_of_ne (Ne.symm hkey) v

/-- Filling in values without keyframes keeps a document playable and its controls the same. -/
theorem AllStill.fill (h : document.AllStill) (value : Descriptor → Json) (ds : List Descriptor)
    (hds : ∀ d ∈ ds, ∃ d' ∈ discover document .liveTree, d'.key = d.key)
    (hvalue : ∀ d ∈ ds, isKeyframeList (value d) = false) :
    (document.fill value ds).AllStill ∧
      (discover (document.fill value ds) .liveTree).map Descriptor.bare =
        (discover document .liveTree).map Descriptor.bare := by
  induction ds generalizing document with
  | nil => exact ⟨h, rfl⟩
  | cons d ds ih =>
    obtain ⟨d', hd', hkey⟩ := hds d (by simp)
    have hdiscover : discover (document.replace d'.documentPath (value d)) .liveTree =
        (discover document .liveTree).map (·.withValue d'.key (value d)) := discover_replace hd' _
    have hnext := h.replace hd' (hvalue d (by simp))
    rw [documentPath_eq hkey] at hdiscover hnext
    have hds' : ∀ e ∈ ds, ∃ e' ∈ discover (document.replace d.documentPath (value d)) .liveTree,
        e'.key = e.key := by
      intro e he
      obtain ⟨e', he', hkey'⟩ := hds e (by simp [he])
      refine ⟨e'.withValue d'.key (value d), ?_, by simpa using hkey'⟩
      rw [hdiscover]
      exact List.mem_map_of_mem he'
    obtain ⟨hstill, hbare⟩ := ih hnext hds' fun e he => hvalue e (by simp [he])
    refine ⟨hstill, hbare.trans ?_⟩
    rw [hdiscover, List.map_map]
    exact List.map_congr_left fun e _ => e.bare_withValue _ _

end Json

namespace Icon

variable {document : Json} {icon icon' : Icon} {calls : List Call} {d : Descriptor}

theorem allStill_of_ofDocument (h : Icon.ofDocument document = .ok icon)
    (hstill : ∀ d ∈ icon.controls, Still document d) : document.AllStill := by
  obtain ⟨player, hp, rfl⟩ := ofDocument_eq_ok.mp h
  exact ⟨⟨player, hp⟩, hstill⟩

theorem get?_exportDocument_of_still (h : Icon.ofDocument document = .ok icon)
    (hrun : icon.run calls = some icon') (hd : d ∈ icon.controls) (hstill : Still document d) :
    icon'.exportDocument.1.get? d.documentPath = some (icon'.current d) := by
  have hw := wired_of_ofDocument h
  have hframe := sameFrame_run hw hrun
  have hw' := hw.of_sameFrame hframe
  have hd' : d ∈ icon'.controls := hframe.controls ▸ hd
  rw [get?_exportDocument hw' hd', ← hw'.get?_path_eq_current hd']
  by_cases hc : icon'.isCustomized d = true
  · rw [if_pos hc]
  · have hheld := held?_of_not_customized h hrun hd hstill (Bool.eq_false_iff.mpr hc)
    rw [if_neg hc, ← hheld, hw'.get?_path hd']

theorem reload_of_current (hw : icon.Wired) (hall : icon.document.AllStill)
    (hunkeyed : ∀ d ∈ icon.controls, isKeyframeList (icon.current d) = false)
    (hcurrent : ∀ d ∈ icon.controls,
      icon.exportDocument.1.get? d.documentPath = some (icon.current d)) :
    ∃ again, Icon.ofDocument icon.exportDocument.1 = .ok again ∧
      again.controls.map Descriptor.bare = icon.controls.map Descriptor.bare ∧
      ∀ d ∈ icon.controls, Target.get? again.player d.path = Target.get? icon.player d.path := by
  have hfill : icon.exportDocument.1 =
      icon.document.fill icon.current (icon.controls.filter icon.isCustomized) :=
    congrArg Prod.fst (exportDocument_eq hw)
  obtain ⟨hexport, hbare⟩ := hall.fill icon.current (icon.controls.filter icon.isCustomized)
    (fun d hd => ⟨d, hw.controls ▸ (List.mem_filter.mp hd).1, rfl⟩)
    (fun d hd => hunkeyed d (List.mem_filter.mp hd).1)
  rw [← hfill] at hexport hbare
  rw [← hw.controls] at hbare
  obtain ⟨player, hp⟩ := hexport.loads
  refine ⟨_, ofDocument_eq_ok.mpr ⟨player, hp, rfl⟩, hbare, fun d hd => ?_⟩
  -- The control as it is found again, with the value that was put in its place.
  obtain ⟨x, hx, hxd⟩ := List.mem_map.mp (hbare ▸ List.mem_map_of_mem (f := Descriptor.bare) hd)
  have hkey : x.key = d.key := show x.bare.key = d.bare.key by rw [hxd]
  have hvalue : some x.value = some (icon.current d) := by
    rw [← hcurrent d hd, ← documentPath_eq hkey]
    exact (get?_of_mem_discover hx).symm
  have hheld := (loaded_of_still hp hx (hexport.still x hx)).1
  obtain ⟨hlayer, hfield⟩ : x.layer = d.layer ∧ x.field = d.field := by
    simpa [Descriptor.key] using hkey
  rw [hw.get?_path_eq_current hd, hw.get?_path hd, ← hlayer, ← hfield, hheld, hvalue]

/-- What a loaded icon exports, if that leaves keyframes in none of its controls, loads to the same
controls, and each of them holds what it held. -/
theorem export_reloads (h : Icon.ofDocument document = .ok icon)
    (hends : icon.player.playhead.inPoint ≤ icon.player.playhead.outPoint)
    (hstill : ∀ d ∈ icon.controls, Still document d) (calls : List Call) :
    ∃ icon', icon.run calls = some icon' ∧
      ((∀ d ∈ icon'.controls, ∀ v, Target.get? icon'.player d.path = some v →
          isKeyframeList v = false) →
        ∃ again, Icon.ofDocument icon'.exportDocument.1 = .ok again ∧
          again.controls.map Descriptor.bare = icon'.controls.map Descriptor.bare ∧
          ∀ d ∈ icon'.controls, Target.get? again.player d.path = Target.get? icon'.player d.path) := by
  have hw := wired_of_ofDocument h
  obtain ⟨icon', hrun⟩ := exists_run hw hends calls
  have hframe := sameFrame_run hw hrun
  have hw' := hw.of_sameFrame hframe
  have hall : icon'.document.AllStill := by
    rw [hframe.document, document_of_ofDocument h]
    exact allStill_of_ofDocument h hstill
  refine ⟨icon', hrun, fun hunkeyed => reload_of_current hw' hall ?_ ?_⟩
  · exact fun d hd => hunkeyed d hd _ (hw'.get?_path_eq_current hd)
  · intro d hd
    have hd₀ : d ∈ icon.controls := hframe.controls ▸ hd
    exact get?_exportDocument_of_still h hrun hd₀ (hstill d hd₀)

theorem export_reloads_axis : ∃ icon, Icon.ofDocument onlyAxis = .ok icon ∧
    icon.player.playhead.inPoint ≤ icon.player.playhead.outPoint ∧
    (∀ d ∈ icon.controls, Still onlyAxis d) ∧
    ∃ icon', icon.run [.setProperty "AXIS" (.arr [.num (.int 7), .num (.int 8)]), .sampleAt 5.0] =
        some icon' ∧
      ∃ again, Icon.ofDocument icon'.exportDocument.1 = .ok again ∧
        ∀ d ∈ icon'.controls,
          Target.get? again.player d.path = some (.arr [.num (.int 7), .num (.int 8)]) := by
  obtain ⟨icon, icon₁, d, h, hends, hcontrols, hstill, hrun, hcontrols₁, hheld⟩ : ∃ icon icon₁ d,
      Icon.ofDocument onlyAxis = .ok icon ∧
      icon.player.playhead.inPoint ≤ icon.player.playhead.outPoint ∧ icon.controls = [d] ∧
      Still onlyAxis d ∧
      icon.run [.setProperty "AXIS" (.arr [.num (.int 7), .num (.int 8)]), .sampleAt 5.0] =
        some icon₁ ∧
      icon₁.controls = [d] ∧
      Target.get? icon₁.player d.path = some (.arr [.num (.int 7), .num (.int 8)]) :=
    ⟨_, _, _, rfl, by decide +kernel, rfl, ⟨⟨_, _, rfl, rfl⟩, rfl⟩, rfl, rfl, rfl⟩
  have hall : ∀ d ∈ icon.controls, Still onlyAxis d := by
    rw [hcontrols]
    exact fun d' hd' => List.mem_singleton.mp hd' ▸ hstill
  have hheld' : ∀ d ∈ icon₁.controls,
      Target.get? icon₁.player d.path = some (.arr [.num (.int 7), .num (.int 8)]) := by
    rw [hcontrols₁]
    exact fun d' hd' => List.mem_singleton.mp hd' ▸ hheld
  obtain ⟨icon', hrun', hreload⟩ := export_reloads h hends hall
    [.setProperty "AXIS" (.arr [.num (.int 7), .num (.int 8)]), .sampleAt 5.0]
  cases hrun.symm.trans hrun'
  obtain ⟨again, hagain, -, hslots⟩ := hreload fun d hd v hv => by
    rw [hheld' d hd] at hv
    cases hv
    rfl
  exact ⟨icon, h, hends, hall, icon₁, hrun, again, hagain, fun d hd =>
    (hslots d hd).trans (hheld' d hd)⟩

end Icon

end IconMotion
