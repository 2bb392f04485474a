import IconMotion.Proofs.Channels

namespace IconMotion

theorem bisect_lt (p : Nat → Bool) (base : Nat) {size : Nat} (h : 0 < size) :
    bisect p base size < base + size := by
  induction size using Nat.strongRecOn generalizing base with
  | ind size ih =>
    rw [bisect]
    by_cases hsize : size ≤ 1
    · simp only [if_pos hsize]
      omega
    · have hhigh := ih (size - size / 2) (by omega) (base + size / 2) (by omega)
      have hlow := ih (size - size / 2) (by omega) base (by omega)
      simp only [if_neg hsize]
      split <;> omega

theorem partitionPoint_le (p : Nat → Bool) (size : Nat) : partitionPoint p size ≤ size := by
  unfold partitionPoint
  by_cases hsize : size = 0
  · simp [hsize]
  · have hlt := bisect_lt p 0 (Nat.pos_of_ne_zero hsize)
    simp only [if_neg hsize]
    split <;> omega

namespace Json

section Mixing

variable {P : Json → Prop} {a b : Json}

theorem holds_stay (ha : P a) (hb : P b) (t : Float32) : P (stay a b t) := by
  unfold stay
  split
  · exact ha
  · exact hb

theorem holds_mixAlong (ha : P a) (hb : P b) (hmixed : ∀ cs, P (ofComponents a cs)) (t : Float32)
    (tangentIn tangentOut : Option (List Float32)) : P (mixAlong a b t tangentIn tangentOut) := by
  have hstay : P (stay a b t) := holds_stay ha hb t
  unfold mixAlong
  split
  · split
    · exact hstay
    · split
      · split
        · exact hmixed _
        · exact hmixed _
      · exact hmixed _
  · exact hstay

end Mixing

end Json

namespace Track

section Keys

variable {α τ υ : Type} [Scalar α] [Mix α υ] {ks : List (Keyframe α τ)} {frame : α}

def reached (ks : List (Keyframe α τ)) (frame : α) : Nat :=
  partitionPoint (fun i => ks[i]?.any fun k => decide (k.time ≤ frame)) ks.length

/-- The keyframe that governs a frame has a value of its own: its start, or its stop if it is the last
and its time has come. -/
def decides (ks : List (Keyframe α τ)) (frame : α) : Bool :=
  ks[reached ks frame - 1]?.any fun k =>
    k.start.isSome || (reached ks frame == ks.length && k.stop.isSome)

/-- Every keyframe has a start; the last one may have a stop instead, if it is not the first as well. -/
def Complete (ks : List (Keyframe α τ)) : Prop :=
  ks ≠ [] ∧ ∀ i k, ks[i]? = some k →
    k.start.isSome ∨ (0 < i ∧ i + 1 = ks.length ∧ k.stop.isSome)

omit [Scalar α] [Mix α υ] in
theorem complete_of_starts (hne : ks ≠ []) (h : ∀ k ∈ ks, k.start.isSome) : Complete ks :=
  ⟨hne, fun _ k hk => .inl (h k (List.mem_of_getElem? hk))⟩

theorem decides_of_complete (h : Complete ks) (frame : α) : decides ks frame = true := by
  have hle : reached ks frame ≤ ks.length := partitionPoint_le _ _
  have hpos : 0 < ks.length := List.length_pos_iff.mpr h.1
  have hk : ks[reached ks frame - 1]? = some ks[reached ks frame - 1] :=
    List.getElem?_eq_getElem (by omega)
  rw [decides, hk, Option.any_some, Bool.or_eq_true, Bool.and_eq_true, beq_iff_eq]
  rcases h.2 _ _ hk with hstart | ⟨hfirst, hlast, hstop⟩
  · exact .inl hstart
  · exact .inr ⟨by omega, hstop⟩

theorem segment_congr {a b : Keyframe α τ} (h : a.start.isSome) (convert : τ → υ) (f g : υ) :
    segment a b frame convert f = segment a b frame convert g := by
  obtain ⟨v, hv⟩ := Option.isSome_iff_exists.mp h
  simp only [segment, hv, Option.map_some, Option.getD_some]

omit [Scalar α] [Mix α υ] in
theorem tail_congr {a : Keyframe α τ} (h : a.start.isSome ∨ a.stop.isSome) (convert : τ → υ)
    (f g : υ) : tail a convert f = tail a convert g := by
  have hsome : (a.stop.or a.start).isSome := by simpa [Or.comm] using h
  obtain ⟨v, hv⟩ := Option.isSome_iff_exists.mp hsome
  simp only [tail, hv, Option.map_some, Option.getD_some]

theorem sampleKeys_eq (ks : List (Keyframe α τ)) (frame : α) (convert : τ → υ) (fallback : υ) :
    sampleKeys ks frame convert fallback = match reached ks frame with
      | 0 => ((ks.head?.bind (·.start)).map convert).getD fallback
      | i + 1 => match ks[i]?, ks[i + 1]? with
        | some a, some b => segment a b frame convert fallback
        | some a, none => tail a convert fallback
        | none, _ => fallback := rfl

theorem sampleKeys_congr (h : decides ks frame = true) (convert : τ → υ) (f g : υ) :
    sampleKeys ks frame convert f = sampleKeys ks frame convert g := by
  obtain ⟨a, ha, hvalue⟩ := (Option.any_eq_true _ _).mp h
  have hlength : reached ks frame - 1 < ks.length := (List.getElem?_eq_some_iff.mp ha).1
  rw [Bool.or_eq_true, Bool.and_eq_true, beq_iff_eq] at hvalue
  rw [sampleKeys_eq, sampleKeys_eq]
  cases hreached : reached ks frame with
  | zero =>
    rw [hreached] at ha hvalue hlength
    have hstart : a.start.isSome := hvalue.resolve_right (by omega)
    obtain ⟨v, hv⟩ := Option.isSome_iff_exists.mp hstart
    simp only [List.head?_eq_getElem?, ha, Option.bind_some, hv, Option.map_some, Option.getD_some]
  | succ i =>
    rw [hreached] at ha hvalue
    rw [Nat.add_sub_cancel] at ha
    cases hnext : ks[i + 1]? with
    | some b =>
      have hmore : i + 1 < ks.length := (List.getElem?_eq_some_iff.mp hnext).1
      have hstart : a.start.isSome := hvalue.resolve_right (by omega)
      simp only [ha, hnext, segment_congr hstart convert f g]
    | none => simp only [ha, hnext, tail_congr (hvalue.imp id And.right) convert f g]

end Keys

section Induction

variable {P : Json → Prop} {frame : Float32} {fallback : Json}

theorem holds_getD {o : Option Json} (h : ∀ v, o = some v → P v) (hfallback : P fallback) :
    P (o.getD fallback) := by
  cases o with
  | none => exact hfallback
  | some v => exact h v rfl

theorem holds_segment {a b : Keyframe Float32 Json}
    (ha : ∀ v, a.start = some v ∨ a.stop = some v → P v) (hb : ∀ v, b.start = some v → P v)
    (hfallback : P fallback) (hmixed : ∀ u cs, P (Json.ofComponents u cs)) :
    P (segment a b frame id fallback) := by
  have hstart : P (a.start.getD fallback) := holds_getD (fun v hv => ha v (.inl hv)) hfallback
  have hstop : P ((a.stop.or b.start).getD (a.start.getD fallback)) := by
    refine holds_getD (fun v hv => ?_) hstart
    rcases Option.or_eq_some_iff.mp hv with hv | ⟨-, hv⟩
    · exact ha v (.inr hv)
    · exact hb v hv
  simp only [segment, Option.map_id, id_eq]
  split
  · exact hstart
  · split
    · exact hstart
    · exact Json.holds_mixAlong hstart hstop (hmixed _) _ _ _

theorem holds_tail {a : Keyframe Float32 Json}
    (ha : ∀ v, a.start = some v ∨ a.stop = some v → P v) (hfallback : P fallback) :
    P (tail a id fallback) := by
  simp only [tail, Option.map_id, id_eq]
  refine holds_getD (fun v hv => ha v ?_) hfallback
  exact (Option.or_eq_some_iff.mp hv).symm.imp And.right id

theorem holds_sampleKeys {ks : List (Keyframe Float32 Json)}
    (hkeys : ∀ k ∈ ks, ∀ v, k.start = some v ∨ k.stop = some v → P v) (hfallback : P fallback)
    (hmixed : ∀ u cs, P (Json.ofComponents u cs)) : P (sampleKeys ks frame id fallback) := by
  rw [sampleKeys_eq]
  cases reached ks frame with
  | zero =>
    simp only [Option.map_id, id_eq]
    refine holds_getD (fun v hv => ?_) hfallback
    obtain ⟨k, hk, hv⟩ := Option.bind_eq_some_iff.mp hv
    exact hkeys k (List.mem_of_mem_head? hk) v (.inl hv)
  | succ i =>
    cases ha : ks[i]? with
    | none => simpa only [ha] using hfallback
    | some a =>
      have hvalues := hkeys a (List.mem_of_getElem? ha)
      cases hb : ks[i + 1]? with
      | none => simpa only [ha, hb] using holds_tail hvalues hfallback
      | some b =>
        have hstart : ∀ v, b.start = some v → P v := fun v hv =>
          hkeys b (List.mem_of_getElem? hb) v (.inl hv)
        simpa only [ha, hb] using holds_segment hvalues hstart hfallback hmixed

end Induction

/-- The keyframes of a track decide its value at a frame. A track without keyframes is not sampled anew. -/
def Decides (track : Track Float32 Json) (frame : Float32) : Prop :=
  ∀ ks, track = keyed ks → decides ks frame = true

theorem sample_congr {track : Track Float32 Json} {frame : Float32} (hkeyed : track.isKeyed = true)
    (h : track.Decides frame) (f g : Json) : track.sample frame id f = track.sample frame id g := by
  cases track with
  | keyed ks => exact sampleKeys_congr (h ks rfl) id f g
  | empty | fixed => cases hkeyed

end Track

namespace Live

namespace Channel

def unsampled (c : Channel) : Channel := if c.isKeyed then { c with value := .null } else c

variable {c c' : Channel} {frame : Float32}

theorem unsampled_of_keyed (h : c.isKeyed = true) : c.unsampled = { c with value := .null } := if_pos h

theorem unsampled_of_not_keyed (h : c.isKeyed = false) : c.unsampled = c := by
  simp [unsampled, h]

@[simp] theorem source_unsampled (c : Channel) : c.unsampled.source = c.source := by
  unfold unsampled
  split <;> rfl

theorem unsampled_update (c : Channel) (frame : Float32) : (c.update frame).unsampled = c.unsampled := by
  unfold update
  split
  next h =>
    rw [unsampled_of_keyed h]
    exact unsampled_of_keyed (c := { c with value := _ }) h
  next => rfl

theorem update_of_keyed (h : c.isKeyed = true) : c.update frame =
    { c.unsampled with value := c.source.track.sample frame id c.value } := by
  simp only [update, h, unsampled, if_true]

theorem update_of_not_keyed (h : c.isKeyed = false) : c.update frame = c := by
  simp [update, h]

/-- A new sample forgets what was there, where the keyframes decide. -/
theorem update_congr (h : c.unsampled = c'.unsampled)
    (hdecides : c.source.track.Decides frame ∨ c.value = c'.value) : c.update frame = c'.update frame := by
  have hsource : c.source = c'.source := by rw [← source_unsampled c, h, source_unsampled]
  have hkeyed : c'.isKeyed = c.isKeyed := by rw [isKeyed, ← hsource, isKeyed]
  cases hc : c.isKeyed with
  | false =>
    rw [hc] at hkeyed
    rwa [unsampled_of_not_keyed hc, unsampled_of_not_keyed hkeyed, ← update_of_not_keyed hc,
      ← update_of_not_keyed hkeyed] at h
  | true =>
    rw [hc] at hkeyed
    have hvalue : c.source.track.sample frame id c.value = c'.source.track.sample frame id c'.value := by
      rw [← hsource]
      rcases hdecides with hdecides | hvalue
      · exact Track.sample_congr hc hdecides _ _
      · rw [hvalue]
    rw [update_of_keyed hc, update_of_keyed hkeyed, h, hvalue]

end Channel

namespace Tree

def unsampled (t : Tree) : Tree :=
  t.map fun l => { l with effects := l.effects.map fun e =>
    { e with channels := e.channels.map Channel.unsampled } }

theorem unsampled_update (t : Tree) (frame : Float32) : (t.update frame).unsampled = t.unsampled := by
  simp [unsampled, update, Layer.update, Effect.update, Function.comp_def, Channel.unsampled_update]

variable {t t' : Tree} {i j k : Nat} {frame : Float32}

theorem channel?_unsampled (t : Tree) (i j k : Nat) :
    t.unsampled.channel? i j k = (t.channel? i j k).map Channel.unsampled := by
  cases hl : t[i]? with
  | none => simp [channel?, unsampled, hl]
  | some l => cases he : l.effects[j]? <;> simp [channel?, unsampled, hl, he]

def start? (t : Tree) (i : Nat) : Option Float32 := t[i]?.map (·.startTime)

theorem start?_unsampled (t : Tree) (i : Nat) : t.unsampled.start? i = t.start? i := by
  simp [start?, unsampled, Function.comp_def]

theorem track?_unsampled (t : Tree) (i j k : Nat) : t.unsampled.track? i j k = t.track? i j k := by
  simp [track?, channel?_unsampled, Function.comp_def]

def Decided (t : Tree) (frame : Float32) (i j k : Nat) : Prop :=
  ∀ start track, t.start? i = some start → t.track? i j k = some track → track.Decides (frame - start)

def Complete (t : Tree) (i j k : Nat) : Prop :=
  ∀ ks, t.track? i j k = some (.keyed ks) → Track.Complete ks

theorem Complete.decided (h : t.Complete i j k) (frame : Float32) : t.Decided frame i j k := by
  rintro start track - htrack ks rfl
  exact Track.decides_of_complete (h ks htrack) _

theorem Decided.of_unsampled (h : t.Decided frame i j k) (ht : t'.unsampled = t.unsampled) :
    t'.Decided frame i j k := by
  intro start track hstart htrack
  rw [← start?_unsampled, ht, start?_unsampled] at hstart
  rw [← track?_unsampled, ht, track?_unsampled] at htrack
  exact h start track hstart htrack

/-- Trees that differ in sampled values only agree, after a new sample, in every slot that is decided
or was the same. -/
theorem slot?_update_congr (ht : t.unsampled = t'.unsampled)
    (h : t.Decided frame i j k ∨ t.slot? i j k = t'.slot? i j k) :
    (t.update frame).slot? i j k = (t'.update frame).slot? i j k := by
  have hchannel : (t.channel? i j k).map Channel.unsampled =
      (t'.channel? i j k).map Channel.unsampled := by
    rw [← channel?_unsampled, ht, channel?_unsampled]
  cases hc : t.channel? i j k with
  | none =>
    rw [hc] at hchannel
    have hc' : t'.channel? i j k = none := Option.map_eq_none_iff.mp hchannel.symm
    simp only [slot?, channel?_update_eq_none frame hc, channel?_update_eq_none frame hc']
  | some c =>
    rw [hc] at hchannel
    obtain ⟨c', hc', hunsampled⟩ := Option.map_eq_some_iff.mp hchannel.symm
    obtain ⟨l, hl, hupdate⟩ := channel?_update frame hc
    obtain ⟨l', hl', hupdate'⟩ := channel?_update frame hc'
    have hstart : l'.startTime = l.startTime := by
      have hstart := start?_unsampled t' i
      rw [← ht, start?_unsampled] at hstart
      simpa [start?, hl, hl'] using hstart.symm
    have hvalue : c.source.track.Decides (frame - l.startTime) ∨ c.value = c'.value := by
      refine h.imp (fun h => ?_) fun h => ?_
      · exact h _ _ (by simp [start?, hl]) (by simp [track?, hc])
      · simpa [slot?, hc, hc'] using h
    simp only [slot?, hupdate, hupdate', hstart, Option.map_some,
      Channel.update_congr hunsampled.symm hvalue]

end Tree

end Live

end IconMotion
