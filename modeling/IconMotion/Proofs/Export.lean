import IconMotion.Proofs.ControlValues

namespace IconMotion

open Control Live

namespace Control

def Descriptor.documentPath (d : Descriptor) : Path := Scope.document.address d.layer d.field

theorem field_apart {i j i' j' : Nat} (h : (i, j) ≠ (i', j')) :
    Path.Apart [.key "layers", .index i, .key "ef", .index j]
      [.key "layers", .index i', .key "ef", .index j'] := by
  by_cases hi : i = i'
  · have hj : j ≠ j' := fun hj => h (by rw [hi, hj])
    exact .inr (.inr (.inr (.inl fun e => hj (Step.text_index_inj.mp e))))
  · exact .inr (.inl fun e => hi (Step.text_index_inj.mp e))

theorem documentPath_eq {d d' : Descriptor} (h : d.key = d'.key) :
    d.documentPath = d'.documentPath :=
  congrArg (fun key : Nat × Nat => Scope.document.address key.1 key.2) h

theorem documentPath_apart {d d' : Descriptor} (h : d.key ≠ d'.key) :
    d.documentPath.Apart d'.documentPath :=
  Path.apart_append_of_apart (field_apart h) valuePath valuePath

theorem documentPath_apart_propertyPath {d d' : Descriptor} (h : d.key ≠ d'.key) :
    d.documentPath.Apart (propertyPath d'.layer d'.field) :=
  Path.apart_append_of_apart (field_apart h) valuePath valuePath.dropLast

end Control

namespace Json

/-- A document with values of some controls put in their places. -/
def fill (value : Descriptor → Json) (document : Json) (ds : List Descriptor) : Json :=
  ds.foldl (fun document d => document.replace d.documentPath (value d)) document

variable {value : Descriptor → Json} {document : Json} {ds : List Descriptor} {d : Descriptor}

theorem get?_fill_of_apart {q : Path} (h : ∀ d ∈ ds, d.documentPath.Apart q) :
    (document.fill value ds).get? q = document.get? q := by
  induction ds generalizing document with
  | nil => rfl
  | cons d ds ih =>
    exact (ih fun d' hd' => h d' (by simp [hd'])).trans (get?_replace_of_apart (h d (by simp)) _)

theorem get?_fill_of_key_ne (h : ∀ d' ∈ ds, d'.key ≠ d.key) :
    (document.fill value ds).get? d.documentPath = document.get? d.documentPath :=
  get?_fill_of_apart fun d' hd' => documentPath_apart (h d' hd')

theorem isSome_get?_replace {u : Json} {d' : Descriptor}
    (hu : document.get? d.documentPath = some u) (v : Json)
    (h : (document.get? d'.documentPath).isSome) :
    ((document.replace d.documentPath v).get? d'.documentPath).isSome := by
  by_cases hkey : d.key = d'.key
  · rw [← documentPath_eq hkey, get?_replace_self hu]
    rfl
  · rw [get?_replace_of_apart (documentPath_apart hkey)]
    exact h

theorem get?_fill_of_mem (hnodup : (ds.map Descriptor.key).Nodup) (hd : d ∈ ds)
    (h : (document.get? d.documentPath).isSome) :
    (document.fill value ds).get? d.documentPath = some (value d) := by
  induction ds generalizing document with
  | nil => cases hd
  | cons e ds ih =>
    obtain ⟨he, hds⟩ := List.nodup_cons.mp hnodup
    have hne : ∀ d' ∈ ds, d'.key ≠ e.key := fun d' hd' h' => he (h' ▸ List.mem_map_of_mem hd')
    rcases List.mem_cons.mp hd with rfl | hd
    · obtain ⟨u, hu⟩ := Option.isSome_iff_exists.mp h
      exact (get?_fill_of_key_ne hne).trans (get?_replace_self hu _)
    · refine ih hds hd ?_
      rw [get?_replace_of_apart (documentPath_apart fun e' => hne d hd e'.symm)]
      exact h

end Json

namespace Icon

variable {icon : Icon} {d : Descriptor}

def current (icon : Icon) (d : Descriptor) : Json := Target.getD icon.player d.path d.value

/-- Nothing fails as long as all controls are in the document and in the live tree. -/
theorem bake_eq_fill {player : Player} {document : Json} {ds : List Descriptor}
    {value : Descriptor → Json} (hheld : ∀ d ∈ ds, Target.get? player d.path = some (value d))
    (hdocument : ∀ d ∈ ds, (document.get? d.documentPath).isSome) :
    bake player document ds = (document.fill value ds, []) := by
  induction ds generalizing document with
  | nil => rfl
  | cons d ds ih =>
    obtain ⟨u, hu⟩ := Option.isSome_iff_exists.mp (hdocument d (by simp))
    have hset : Target.set document (d.inScope .document).path (value d) =
        .ok (document.replace d.documentPath (value d)) :=
      Json.target_set_of_ok (Json.set_eq_replace hu (value d))
    simp only [bake, hheld d (by simp), hset]
    exact ih (fun d' hd' => hheld d' (by simp [hd'])) fun d' hd' =>
      Json.isSome_get?_replace hu _ (hdocument d' (by simp [hd']))

theorem Wired.get?_path_eq_current (hw : icon.Wired) (hd : d ∈ icon.controls) :
    Target.get? icon.player d.path = some (icon.current d) := by
  obtain ⟨u, hu⟩ := hw.exists_held hd
  have hget := (hw.get?_path hd icon.player).trans hu
  rw [current, Target.getD, hget, Option.getD_some]

theorem exportDocument_eq (hw : icon.Wired) :
    icon.exportDocument =
      (icon.document.fill icon.current (icon.controls.filter icon.isCustomized), []) :=
  bake_eq_fill (fun d hd => hw.get?_path_eq_current (List.mem_filter.mp hd).1) fun d hd => by
    rw [Descriptor.documentPath, hw.source (List.mem_filter.mp hd).1]
    rfl

theorem get?_exportDocument_of_apart (hw : icon.Wired) {q : Path}
    (h : ∀ d ∈ icon.controls, d.documentPath.Apart q) :
    icon.exportDocument.1.get? q = icon.document.get? q := by
  rw [exportDocument_eq hw]
  exact Json.get?_fill_of_apart fun d hd => h d (List.mem_filter.mp hd).1

theorem get?_exportDocument (hw : icon.Wired) (hd : d ∈ icon.controls) :
    icon.exportDocument.1.get? d.documentPath =
      if icon.isCustomized d then Target.get? icon.player d.path else some d.value := by
  rw [exportDocument_eq hw]
  have hsource : icon.document.get? d.documentPath = some d.value := hw.source hd
  by_cases hc : icon.isCustomized d = true
  · rw [if_pos hc, hw.get?_path_eq_current hd]
    refine Json.get?_fill_of_mem (hw.nodup_filter icon.isCustomized)
      (List.mem_filter.mpr ⟨hd, hc⟩) ?_
    rw [hsource]
    rfl
  · rw [if_neg hc, ← hsource]
    refine Json.get?_fill_of_key_ne fun d' hd' hkey => hc ?_
    obtain ⟨hmem, hc'⟩ := List.mem_filter.mp hd'
    rwa [hw.eq_of_key hmem hd hkey] at hc'

variable {icon' : Icon} {e : Event}

theorem isCustomized_answer (hw : icon.Wired) (hd : d ∈ icon.controls) (r : Request) :
    (icon.answer r).isCustomized d = (icon.isCustomized d || r.selects d) := by
  have hselected : ((icon.controls.filter r.selects).map fun d => (d.layer, d.field)).contains
      (d.layer, d.field) = r.selects d := by
    rw [Bool.eq_iff_iff, List.contains_iff_mem, List.mem_map]
    constructor
    · rintro ⟨d', hd', hkey⟩
      obtain ⟨hmem, hr⟩ := List.mem_filter.mp hd'
      rwa [hw.eq_of_key hmem hd hkey] at hr
    · exact fun hr => ⟨d, List.mem_filter.mpr ⟨hd, hr⟩, rfl⟩
  simp only [isCustomized, answer, writeTo, List.contains_append, hselected]

theorem isCustomized_move {move : Player.Move} (h : icon.react (.move move) = some icon')
    (d : Descriptor) : icon'.isCustomized d = icon.isCustomized d := by
  obtain ⟨player, -, rfl⟩ := react_move_eq_some h
  rfl

theorem held?_of_not_customized {document : Json} {calls : List Call}
    (h : Icon.ofDocument document = .ok icon) (hrun : icon.run calls = some icon')
    (hd : d ∈ icon.controls) (hstill : Still document d) (hc : icon'.isCustomized d = false) :
    icon'.player.held? d.layer d.field = some d.value := by
  have hw := wired_of_ofDocument h
  obtain ⟨player, hp, rfl⟩ := ofDocument_eq_ok.mp h
  obtain ⟨hheld, hkeyed⟩ := loaded_of_still hp hd hstill
  -- Only a write that selects the control can move it, and such a write customizes it.
  refine (run_induction (P := fun icon₁ => SameFrame _ icon₁ ∧ (icon₁.isCustomized d = false →
    icon₁.player.held? d.layer d.field = some d.value)) ?_ ⟨.refl _, fun _ => hheld⟩ hrun).2 hc
  rintro icon₁ icon₂ e ⟨hframe, hinv⟩ he
  have hw₁ := hw.of_sameFrame hframe
  have hd₁ : d ∈ icon₁.controls := hframe.controls ▸ hd
  refine ⟨hframe.trans (sameFrame_react hw₁ he), fun hc => ?_⟩
  cases e with
  | write r =>
    cases he
    rw [isCustomized_answer hw₁ hd₁, Bool.or_eq_false_iff] at hc
    rw [held?_answer hw₁ hd₁ (hinv hc.1), hc.2]
    rfl
  | reset =>
    cases he
    exact held?_resetControls hw₁ hd₁
  | move move =>
    rw [held?_move he (.inr (hframe.unkeyed_iff.mpr hkeyed))]
    exact hinv (isCustomized_move he d ▸ hc)
  | sample =>
    cases he
    exact hinv hc

end Icon

end IconMotion
