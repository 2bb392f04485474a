import IconMotion.Proofs.Export
import IconMotion.Proofs.Independence
import IconMotion.Proofs.Ordering

namespace IconMotion

open Control

theorem Control.forks_documentPath {d e : Descriptor} (h : d.key ≠ e.key) :
    Path.Forks d.documentPath e.documentPath :=
  forks_address h .document .document

namespace Json

theorem replace_of_ok {j j' v : Json} {p : Path} (h : j.set p v = .ok j') : j.replace p v = j' := by
  simp only [replace, h]

theorem replace_comm {j u w : Json} {p q : Path} (hp : j.get? p = some u) (hq : j.get? q = some w)
    (h : p.Forks q) (v x : Json) : (j.replace p v).replace q x = (j.replace q x).replace p v := by
  have halike := setsAlike_of_forks (set_eq_replace hp v) h x
  unfold SetsAlike at halike
  rw [set_eq_replace hq x] at halike
  obtain ⟨j', hpq, hqp⟩ := halike
  rw [replace_of_ok hpq, replace_of_ok hqp]

variable {value : Descriptor → Json} {document : Json} {ds : List Descriptor} {d : Descriptor}

theorem exists_get?_replace {e : Descriptor} (hd : ∃ u, document.get? d.documentPath = some u)
    (he : ∃ w, document.get? e.documentPath = some w) (v : Json) :
    ∃ w, (document.replace d.documentPath v).get? e.documentPath = some w := by
  obtain ⟨u, hu⟩ := hd
  exact Option.isSome_iff_exists.mp
    (isSome_get?_replace hu v (Option.isSome_iff_exists.mpr he))

theorem fill_replace (hd : d ∈ ds) (hds : ∀ e ∈ ds, ∃ u, document.get? e.documentPath = some u)
    (v : Json) : (document.replace d.documentPath v).fill value ds = document.fill value ds := by
  induction ds generalizing document with
  | nil => cases hd
  | cons e ds ih =>
    obtain ⟨u, hu⟩ := hds d hd
    obtain ⟨w, hw⟩ := hds e List.mem_cons_self
    change ((document.replace d.documentPath v).replace e.documentPath (value e)).fill value ds =
      (document.replace e.documentPath (value e)).fill value ds
    by_cases hkey : e.key = d.key
    · rw [documentPath_eq hkey, replace_replace hu]
    · -- The value goes in behind that of the other control, and `d` is still to be filled in.
      rw [replace_comm hu hw (forks_documentPath fun h => hkey h.symm)]
      have hmem : d ∈ ds := (List.mem_cons.mp hd).resolve_left fun h => hkey (by rw [h])
      exact ih hmem fun e' he' =>
        exists_get?_replace ⟨w, hw⟩ (hds e' (List.mem_cons_of_mem _ he')) _

theorem fill_of_held (hdocument : document.Ordered)
    (h : ∀ d ∈ ds, document.get? d.documentPath = some (value d)) :
    document.fill value ds = document := by
  induction ds with
  | nil => rfl
  | cons d ds ih =>
    have hself := replace_get? hdocument (h d List.mem_cons_self)
    change (document.replace d.documentPath (value d)).fill value ds = document
    rw [hself, ih fun e he => h e (List.mem_cons_of_mem _ he)]

end Json

namespace Control

variable {document copy : Json} {ds ds' : List Descriptor} {d : Descriptor}

def writeAll {τ : Type} [Target τ] (t : τ) (writes : List (List Descriptor × Json)) : τ :=
  writes.foldl (fun t w => (write t w.1 w.2).1) t

theorem reset_eq_fill (hpath : ∀ d ∈ ds, d.path = d.documentPath)
    (h : ∀ d ∈ ds, ∃ u, copy.get? d.documentPath = some u) :
    reset copy ds = (copy.fill Descriptor.value ds, []) := by
  induction ds generalizing copy with
  | nil => rfl
  | cons d ds ih =>
    obtain ⟨u, hu⟩ := h d List.mem_cons_self
    have hset : Target.set copy d.path d.value = .ok (copy.replace d.documentPath d.value) := by
      rw [hpath d List.mem_cons_self]
      exact Json.target_set_of_ok (Json.set_eq_replace hu d.value)
    have hrest : ∀ e ∈ ds, ∃ w,
        (copy.replace d.documentPath d.value).get? e.documentPath = some w := fun e he =>
      Json.exists_get?_replace ⟨u, hu⟩ (h e (List.mem_cons_of_mem _ he)) d.value
    simp only [reset, putAll, hset, ih (fun e he => hpath e (List.mem_cons_of_mem _ he)) hrest]
    rfl

/-- All controls are in the copy, and filling in the values they were found with gives the document. -/
structure Restorable (document : Json) (ds : List Descriptor) (copy : Json) : Prop where
  reached : ∀ d ∈ ds, ∃ u, copy.get? d.documentPath = some u
  restored : copy.fill Descriptor.value ds = document

theorem Restorable.replace (h : Restorable document ds copy) (hd : d ∈ ds) (v : Json) :
    Restorable document ds (copy.replace d.documentPath v) where
  reached e he := Json.exists_get?_replace (h.reached d hd) (h.reached e he) v
  restored := (Json.fill_replace hd h.reached v).trans h.restored

theorem Restorable.write (h : Restorable document ds copy)
    (hpath : ∀ d ∈ ds, d.path = d.documentPath) (hsub : ds' ⊆ ds) (v : Json) :
    Restorable document ds (write copy ds' v).1 := by
  induction ds' generalizing copy with
  | nil => exact h
  | cons d ds' ih =>
    obtain ⟨hd, hsub⟩ := List.cons_subset.mp hsub
    refine ih ?_ hsub
    obtain ⟨u, hu⟩ := h.reached d hd
    rw [Json.putAll_eq (by rw [hpath d hd, hu])]
    cases d.kind.written? u v with
    | none => exact h
    | some w => exact hpath d hd ▸ h.replace hd w

theorem Restorable.writeAll {writes : List (List Descriptor × Json)}
    (h : Restorable document ds copy) (hpath : ∀ d ∈ ds, d.path = d.documentPath)
    (hsub : ∀ w ∈ writes, w.1 ⊆ ds) : Restorable document ds (writeAll copy writes) := by
  induction writes generalizing copy with
  | nil => exact h
  | cons w writes ih =>
    exact ih (h.write hpath (hsub w List.mem_cons_self) w.2) fun w' hw' =>
      hsub w' (List.mem_cons_of_mem _ hw')

theorem restorable_discover (hdocument : document.Ordered) :
    Restorable document (discover document .document) document where
  reached d hd := ⟨d.value, get?_of_mem_discover hd⟩
  restored := Json.fill_of_held hdocument fun _ hd => get?_of_mem_discover hd

end Control

/-- Whatever is written into a copy of a document by way of the document's controls, a reset of the
controls makes the copy the document again. -/
theorem reset_undoes_writes {document : Json} (hdocument : document.Ordered)
    {writes : List (List Descriptor × Json)}
    (hsub : ∀ w ∈ writes, w.1 ⊆ discover document .document) :
    reset (writeAll document writes) (discover document .document) = (document, []) := by
  have hpath : ∀ d ∈ discover document .document, d.path = d.documentPath :=
    fun d hd => path_of_mem_discover hd
  have hrest := (restorable_discover hdocument).writeAll hpath hsub
  rw [reset_eq_fill hpath hrest.reached, hrest.restored]

theorem ordered_sizeAndAxis : Json.sizeAndAxis.Ordered :=
  have hread : (Json.Source.ofJson Json.sizeAndAxis).eval? = some Json.sizeAndAxis := rfl
  Json.Source.ordered_of_eval? hread

theorem reset_undoes_writes_on_sizeAndAxis : ∃ size axis copy,
    discover Json.sizeAndAxis .document = [size, axis] ∧ Json.sizeAndAxis.Ordered ∧
    copy = writeAll Json.sizeAndAxis [([size, axis], .obj [("x", .null), ("y", .bool true)]),
      ([size], .arr [.num (.int 7)]), ([axis], .num (.int 9))] ∧
    copy.get? size.path = some (.arr [.num (.int 7)]) ∧
    copy.get? axis.path = some (.arr [.null, .bool true]) ∧
    reset copy [size, axis] = (Json.sizeAndAxis, []) := by
  obtain ⟨size, axis, copy, hfound, hcopy, hsize, haxis⟩ : ∃ size axis copy,
      discover Json.sizeAndAxis .document = [size, axis] ∧
      copy = writeAll Json.sizeAndAxis [([size, axis], .obj [("x", .null), ("y", .bool true)]),
        ([size], .arr [.num (.int 7)]), ([axis], .num (.int 9))] ∧
      copy.get? size.path = some (.arr [.num (.int 7)]) ∧
      copy.get? axis.path = some (.arr [.null, .bool true]) :=
    ⟨_, _, _, rfl, rfl, rfl, rfl⟩
  refine ⟨size, axis, copy, hfound, ordered_sizeAndAxis, hcopy, hsize, haxis, ?_⟩
  rw [hcopy, ← hfound]
  refine reset_undoes_writes ordered_sizeAndAxis ?_
  simp [hfound]

end IconMotion
