import IconMotion.Proofs.CheckedSampling
import IconMotion.Proofs.Refusals

namespace IconMotion

open Control Live

/-- The step that is missing is the one at its place in the path. -/
def Obstacle.toError? (path : Path) (step : Nat) : Obstacle → Option PathError
  | notIndexable found => some (.notIndexable path step found)
  | missing => path[step]?.map fun s => .missing path step s.text

theorem Obstacle.toError?_eq {path : Path} {step : Nat} (h : step < path.length) (o : Obstacle) :
    o.toError? path step = some (o.toError path step) := by
  cases o with
  | notIndexable found => rfl
  | missing =>
    simp only [toError?, toError, List.getElem?_eq_getElem h, Option.map_some, Option.getD_some]

namespace Json

def assign? (xs : List Json) (i : Nat) (v : Json) : Option (List Json) :=
  if i < xs.length then some (xs.set i v) else none

def put? : Json → Step → Json → Option (Except Obstacle Json)
  | obj ms, s, v => some (.ok (obj (SortedMap.insert ms s.text v)))
  | arr xs, .index i, v =>
    if i < xs.length then (assign? xs i v).map fun xs => .ok (arr xs)
    else if i = xs.length then some (.ok (arr (xs ++ [v])))
    else some (.error .missing)
  | arr _, .key _, _ => some (.error .missing)
  | j, _, _ => some (.error (.notIndexable j.kind))

def set? : Json → Path → Json → Option (Except (Nat × Obstacle) Json)
  | _, [], v => some (.ok v)
  | j, [s], v => (j.put? s v).map (·.mapError fun o => (0, o))
  | j, s :: t :: p, v => match j.child s with
    | .error o => some (.error (0, o))
    | .ok c => do match ← set? c (t :: p) v with
      | .error (n, o) => return .error (n + 1, o)
      | .ok c => (j.put? s c).map (·.mapError fun o => (0, o))

theorem put?_eq (j : Json) (s : Step) (v : Json) : j.put? s v = some (j.put s v) := by
  cases j with
  | arr xs =>
    cases s with
    | key name => rfl
    | index i =>
      by_cases hi : i < xs.length
      · simp only [put?, put, assign?, if_pos hi, Option.map_some]
      · simp only [put?, put, if_neg hi]
        split <;> rfl
  | _ => rfl

theorem set?_eq (j : Json) (p : Path) (v : Json) : j.set? p v = some (j.set p v) := by
  induction p generalizing j with
  | nil => rfl
  | cons s p ih =>
    cases p with
    | nil => simp only [set?, set, put?_eq, Option.map_some]
    | cons t p =>
      cases hc : j.child s with
      | error o => simp only [set?, set, hc]
      | ok c =>
        simp only [set?, set, hc, ih, put?_eq, Option.bind_eq_bind, Option.bind_some, Option.map_some]
        cases c.set (t :: p) v with
        | ok w | error e => rfl

theorem lt_length_of_set {j : Json} {p : Path} {v : Json} {n : Nat} {o : Obstacle}
    (h : j.set p v = .error (n, o)) : n < p.length := by
  obtain ⟨c, s, ⟨-, hs, -⟩, -⟩ := blocks_of_set_error h
  exact (List.getElem?_eq_some_iff.mp hs).1

end Json

namespace Live

def Tree.locate? (t : Tree) (p : Path) : Option (Except PathError (Slot Tree)) :=
  match Place.ofPath? p with
  | none => some (.error (.unaddressable p))
  | some place => match t[place.layer]? with
    | none => (Obstacle.missing.toError? p 2).map .error
    | some l => match l.effects[place.effect]? with
      | none => (Obstacle.missing.toError? p 5).map .error
      | some e => match e.channels[place.channel]? with
        | none => (Obstacle.missing.toError? p 7).map .error
        | some c => some (.ok ⟨c.value, t.put place, place.rest⟩)

theorem Tree.locate?_eq (t : Tree) (p : Path) : t.locate? p = some (t.locate p) := by
  unfold Tree.locate? Tree.locate
  cases hplace : Place.ofPath? p with
  | none => rfl
  | some place =>
    have hlength := Place.length_of_ofPath? hplace
    have herror {step : Nat} (hstep : step < 10) (o : Obstacle) :
        o.toError? p step = some (o.toError p step) := o.toError?_eq (by omega)
    simp only [herror, Nat.reduceLT, Option.map_some]
    cases t[place.layer]? with
    | none => rfl
    | some l =>
      cases hl : l.effects[place.effect]? with
      | none => simp only [hl]
      | some e => cases he : e.channels[place.channel]? <;> simp only [hl, he]

end Live

namespace Player

def set? (p : Player) (path : Path) (v : Json) : Option (Except PathError Player) := do
  match ← p.tree.locate? path with
  | .error e => return .error e
  | .ok slot =>
    let offset ← sub? path.length slot.rest.length
    match ← slot.value.set? slot.rest v with
    | .ok j => return .ok { p with tree := slot.put j }
    | .error (n, o) => (o.toError? path (offset + n)).map .error

theorem set?_eq (p : Player) (path : Path) (v : Json) :
    p.set? path v = some (Target.set p path v) := by
  simp only [set?, Tree.locate?_eq, Json.set?_eq, Target.set, Target.locate, Option.bind_eq_bind,
    Option.bind_some]
  cases hlocate : p.tree.locate path with
  | error e => rfl
  | ok slot =>
    obtain ⟨place, c, hplace, -, rfl⟩ := Tree.locate_eq_ok.mp hlocate
    have hlength := Place.length_of_ofPath? hplace
    simp only [sub?_of_le (show place.rest.length ≤ path.length by omega), Option.bind_some]
    cases hset : c.value.set place.rest v with
    | ok j => rfl
    | error e =>
      have hlt := Json.lt_length_of_set hset
      have hstep : path.length - place.rest.length + e.1 < path.length := by omega
      simp only [Obstacle.toError?_eq hstep]
      rfl

end Player

namespace Control

/-- The two coordinates of a pair are taken by their places. -/
def Descriptor.slots? (d : Descriptor) (value : Json) : Option (List (Path × Json)) :=
  match d.kind, value with
  | .point, .arr xs => if xs.length = 2 then do
      let x ← xs[0]?
      let y ← xs[1]?
      return [(d.path ++ [.index 0], x), (d.path ++ [.index 1], y)]
    else some []
  | _, _ => some (d.slots value)

def putAll? (p : Player) : List (Path × Json) → Option (Player × Option PathError)
  | [] => some (p, none)
  | (path, v) :: slots => do match ← p.set? path v with
    | .ok p => putAll? p slots
    | .error e => return (p, some e)

def write? (p : Player) (ds : List Descriptor) (value : Json) : Option (Player × List Skip) :=
  match ds with
  | [] => some (p, [])
  | d :: ds => do
    let (p, error) ← putAll? p (← d.slots? value)
    let (p, later) ← write? p ds value
    return (p, skips .write d error ++ later)

def reset? (p : Player) (ds : List Descriptor) : Option (Player × List Skip) :=
  match ds with
  | [] => some (p, [])
  | d :: ds => do
    let (p, error) ← putAll? p [(d.path, d.value)]
    let (p, later) ← reset? p ds
    return (p, skips .reset d error ++ later)

theorem Descriptor.slots?_eq (d : Descriptor) (value : Json) :
    d.slots? value = some (d.slots value) := by
  unfold slots? slots
  cases d.kind with
  | point =>
    match value with
    | .arr [] | .arr [_] | .arr [_, _] => rfl
    | .arr (_ :: _ :: _ :: _) => simp [pointValues?]
    | .null | .bool _ | .num _ | .str _ | .obj _ => rfl
  | color | slider | checkbox | feature => rfl

theorem putAll?_eq (p : Player) (slots : List (Path × Json)) :
    putAll? p slots = some (putAll p slots) := by
  induction slots generalizing p with
  | nil => rfl
  | cons slot slots ih =>
    simp only [putAll?, putAll, Player.set?_eq, Option.bind_eq_bind, Option.bind_some, ih]
    cases Target.set p slot.1 slot.2 with
    | ok p' | error e => rfl

theorem write?_eq (p : Player) (ds : List Descriptor) (value : Json) :
    write? p ds value = some (write p ds value) := by
  induction ds generalizing p with
  | nil => rfl
  | cons d ds ih =>
    simp only [write?, Descriptor.slots?_eq, putAll?_eq, ih, Option.bind_eq_bind, Option.bind_some]
    rfl

theorem reset?_eq (p : Player) (ds : List Descriptor) : reset? p ds = some (reset p ds) := by
  induction ds generalizing p with
  | nil => rfl
  | cons d ds ih =>
    simp only [reset?, putAll?_eq, ih, Option.bind_eq_bind, Option.bind_some]
    rfl

end Control

end IconMotion
