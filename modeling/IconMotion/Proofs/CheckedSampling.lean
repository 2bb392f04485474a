import IconMotion.Proofs.Hosting
import IconMotion.Proofs.Sampling

namespace IconMotion

def sub? (m n : Nat) : Option Nat := if n ≤ m then some (m - n) else none

theorem sub?_of_le {m n : Nat} (h : n ≤ m) : sub? m n = some (m - n) := if_pos h

theorem mapM_some {α β : Type} (f : α → β) (l : List α) :
    l.mapM (fun x => some (f x)) = some (l.map f) := List.mapM_pure

namespace Mix

variable {α : Type} [Scalar α]

/-- A position that does not exist would stop the program. Each definition here that ends in `?` and has
a namesake without it checks its accesses, and has no answer in place of that. -/
def tangent? : Option (List α) → Option (Pair α)
  | some xs => if 2 ≤ xs.length then do
      let x ← xs[0]?
      let y ← xs[1]?
      return ⟨x, y⟩
    else some ⟨0.0, 0.0⟩
  | none => some ⟨0.0, 0.0⟩

def alongPath? (a b : Pair α) (t : α) (tangentIn tangentOut : Option (List α)) :
    Option (Pair α) := do
  let leave ← tangent? tangentOut
  let arrive ← tangent? tangentIn
  return ⟨cubic a.x (a.x + leave.x) (b.x + arrive.x) b.x t,
    cubic a.y (a.y + leave.y) (b.y + arrive.y) b.y t⟩

theorem tangent?_eq (v : Option (List α)) : tangent? v = some (tangent v) := by
  match v with
  | none | some [] | some [_] | some (_ :: _ :: _) => rfl

theorem alongPath?_eq (a b : Pair α) (t : α) (tangentIn tangentOut : Option (List α)) :
    alongPath? a b t tangentIn tangentOut = some (alongPath a b t tangentIn tangentOut) := by
  simp only [alongPath?, tangent?_eq]
  rfl

end Mix

namespace Json

def ofComponents? : Json → List Float32 → Option Json
  | num _, cs => cs[0]?.map ofFloat32
  | _, cs => some (arr (cs.map ofFloat32))

def mixAlong? (a b : Json) (t : Float32) (tangentIn tangentOut : Option (List Float32)) :
    Option Json :=
  match a.components?, b.components? with
  | some xs, some ys =>
    if xs.length ≠ ys.length ∨ xs.isEmpty then some (stay a b t)
    else if xs.length = 2 ∧ (tangentIn.isSome || tangentOut.isSome) then do
      let from₀ ← xs[0]?
      let from₁ ← xs[1]?
      let to₀ ← ys[0]?
      let to₁ ← ys[1]?
      let p ← Mix.alongPath? ⟨from₀, from₁⟩ ⟨to₀, to₁⟩ t tangentIn tangentOut
      a.ofComponents? [p.x, p.y]
    else a.ofComponents? (List.zipWith (Mix.even · · t) xs ys)
  | _, _ => some (stay a b t)

theorem ofComponents?_eq (u : Json) {cs : List Float32} (h : cs ≠ []) :
    u.ofComponents? cs = some (u.ofComponents cs) := by
  obtain ⟨c, cs, rfl⟩ := List.exists_cons_of_ne_nil h
  cases u with
  | _ => rfl

theorem mixAlong?_eq (a b : Json) (t : Float32) (tangentIn tangentOut : Option (List Float32)) :
    mixAlong? a b t tangentIn tangentOut = some (mixAlong a b t tangentIn tangentOut) := by
  unfold mixAlong? mixAlong
  cases a.components? with
  | none => rfl
  | some xs =>
    cases b.components? with
    | none => rfl
    | some ys =>
      by_cases hform : xs.length ≠ ys.length ∨ xs.isEmpty
      · simp only [if_pos hform]
      · simp only [if_neg hform]
        obtain ⟨hlength, hne⟩ := not_or.mp hform
        have hlength := Decidable.not_not.mp hlength
        match xs, ys with
        | [], _ => exact absurd rfl hne
        | [x], [y] => exact ofComponents?_eq a (List.cons_ne_nil _ _)
        | [x, y], [z, w] =>
          by_cases htangent : (tangentIn.isSome || tangentOut.isSome) = true
          · rw [if_pos ⟨rfl, htangent⟩]
            simp only [if_pos htangent, List.getElem?_cons_zero, List.getElem?_cons_succ,
              Mix.alongPath?_eq]
            exact ofComponents?_eq a (List.cons_ne_nil _ _)
          · rw [if_neg fun h => htangent h.2]
            simp only [if_neg htangent]
            exact ofComponents?_eq a (List.cons_ne_nil _ _)
        | x :: y :: z :: xs, z' :: ys =>
          rw [if_neg fun h => by simp at h]
          match ys with
          | _ :: _ :: _ => exact ofComponents?_eq a (List.cons_ne_nil _ _)

end Json

namespace Track

open Decoder

def segment? (a b : Keyframe Float32 Json) (frame : Float32) (fallback : Json) : Option Json :=
  let start := a.start.getD fallback
  let stop := (a.stop.or b.start).getD start
  let duration := b.time - a.time
  if duration ≤ 0.0 then some start
  else if a.hold = some 1 then some start
  else
    let share := Easing.solve (a.easeOut.getD ⟨0.0, 0.0⟩) (b.easeIn.getD ⟨1.0, 1.0⟩)
      ((frame - a.time) / duration)
    Json.mixAlong? start stop share b.tangentIn a.tangentOut

def sampleKeys? (ks : List (Keyframe Float32 Json)) (frame : Float32) (fallback : Json) :
    Option Json :=
  if ks.isEmpty then some fallback
  else if reached ks frame = 0 then do
    let first ← ks[0]?
    return first.start.getD fallback
  else if ks.length ≤ reached ks frame then do
    let last ← ks[← sub? ks.length 1]?
    return (last.stop.or last.start).getD fallback
  else do
    let a ← ks[← sub? (reached ks frame) 1]?
    let b ← ks[reached ks frame]?
    segment? a b frame fallback

def sample? (track : Track Float32 Json) (frame : Float32) (fallback : Json) : Option Json :=
  match track with
  | empty => some fallback
  | fixed v => some v
  | keyed ks => sampleKeys? ks frame fallback

theorem segment?_eq (a b : Keyframe Float32 Json) (frame : Float32) (fallback : Json) :
    segment? a b frame fallback = some (segment a b frame id fallback) := by
  simp only [segment?, segment, Option.map_id, id_eq, Json.mixAlong?_eq]
  split
  · rfl
  · split <;> rfl

theorem sampleKeys?_eq (ks : List (Keyframe Float32 Json)) (frame : Float32) (fallback : Json) :
    sampleKeys? ks frame fallback = some (sampleKeys ks frame id fallback) := by
  have hle : reached ks frame ≤ ks.length := partitionPoint_le _ _
  rw [sampleKeys_eq, sampleKeys?]
  cases hreached : reached ks frame with
  | zero =>
    cases ks with
    | nil => rfl
    | cons k ks => simp
  | succ i =>
    rw [hreached] at hle
    have hne : ks.isEmpty = false :=
      List.isEmpty_eq_false_iff.mpr (List.ne_nil_of_length_pos (by omega))
    have hi : ks[i]? = some ks[i] := List.getElem?_eq_getElem (by omega)
    rw [if_neg (by simp [hne]), if_neg (Nat.succ_ne_zero i)]
    by_cases hlast : ks.length ≤ i + 1
    · have hlength : ks.length = i + 1 := by omega
      have hnext : ks[i + 1]? = none := List.getElem?_eq_none hlast
      have hbefore : sub? ks.length 1 = some i := by rw [hlength, sub?_of_le (by omega)]; rfl
      rw [if_pos hlast, hbefore]
      simp only [Option.bind_eq_bind, Option.bind_some, hi, hnext, tail, Option.map_id]
      rfl
    · have hnext : ks[i + 1]? = some ks[i + 1] := List.getElem?_eq_getElem (by omega)
      have hbefore : sub? (i + 1) 1 = some i := sub?_of_le (by omega)
      rw [if_neg hlast, hbefore]
      simp only [Option.bind_eq_bind, Option.bind_some, hi, hnext]
      exact segment?_eq _ _ _ _

theorem sample?_eq (track : Track Float32 Json) (frame : Float32) (fallback : Json) :
    track.sample? frame fallback = some (track.sample frame id fallback) := by
  cases track with
  | empty | fixed => rfl
  | keyed ks => exact sampleKeys?_eq ks frame fallback

end Track

namespace Live

def Channel.update? (c : Channel) (frame : Float32) : Option Channel :=
  if c.isKeyed then
    (c.source.track.sample? frame c.value).map fun value => { c with value }
  else some c

def Effect.update? (e : Effect) (frame : Float32) : Option Effect :=
  (e.channels.mapM (Channel.update? · frame)).map fun channels => { e with channels }

def Layer.update? (l : Layer) (frame : Float32) : Option Layer :=
  (l.effects.mapM (Effect.update? · (frame - l.startTime))).map fun effects => { l with effects }

def Tree.update? (t : Tree) (frame : Float32) : Option Tree := t.mapM (Layer.update? · frame)

theorem Channel.update?_eq (c : Channel) (frame : Float32) :
    c.update? frame = some (c.update frame) := by
  simp only [Channel.update?, Channel.update, Track.sample?_eq]
  split <;> rfl

theorem Tree.update?_eq (t : Tree) (frame : Float32) : t.update? frame = some (t.update frame) := by
  simp only [Tree.update?, Layer.update?, Effect.update?, Channel.update?_eq, mapM_some,
    Option.map_some]
  rfl

/-- The sample of a binding, whose value before the expression is a sample of its own keyframes. -/
def Binding.sample? (b : Binding) (names : Names) (frame : Float32)
    (compiled : Option Expression.Compiled) : Option (Sample × List Remark) := do
  let base ← b.property.track.sample? (frame - b.startTime) .null
  match compiled with
  | none => return (⟨b.path, none, base⟩, [])
  | some compiled => match compiled.evaluate (names.context base) with
    | .ok v => return (⟨b.path, some compiled.idiom, v.toJson⟩, [])
    | .error e => return (⟨b.path, some compiled.idiom, base⟩, [.failed b.path e])

def Binding.sampleAll? (names : Names) (frame : Float32) (cache : Expression.Cache) :
    List Binding → Option (List Sample × List Remark × Expression.Cache)
  | [] => some ([], [], cache)
  | b :: bs => do
    let (compiled, refusals, cache) := cache.get b.source
    let (s, failures) ← b.sample? names frame compiled
    let (samples, remarks, cache) ← sampleAll? names frame cache bs
    return (s :: samples, refusals.map .refused ++ failures ++ remarks, cache)

theorem Binding.sample?_eq (b : Binding) (names : Names) (frame : Float32)
    (compiled : Option Expression.Compiled) :
    b.sample? names frame compiled = some (b.sample names frame compiled) := by
  have hbase : b.property.track.sample? (frame - b.startTime) .null = some (b.base frame) :=
    Track.sample?_eq _ _ _
  unfold Binding.sample? Binding.sample
  rw [hbase]
  cases compiled with
  | none => rfl
  | some compiled =>
    simp only [Option.bind_eq_bind, Option.bind_some]
    cases compiled.evaluate (names.context (b.base frame)) with
    | ok v | error e => rfl

theorem Binding.sampleAll?_eq (names : Names) (frame : Float32) (cache : Expression.Cache)
    (bs : List Binding) :
    sampleAll? names frame cache bs = some (sampleAll names frame cache bs) := by
  induction bs generalizing cache with
  | nil => rfl
  | cons b bs ih =>
    simp only [sampleAll?, Binding.sample?_eq, ih]
    rfl

end Live

end IconMotion
