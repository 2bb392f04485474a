import IconMotion.Proofs.CheckedWriting
import IconMotion.Proofs.Parts
import IconMotion.Proofs.Signs

namespace IconMotion

open Control Live Precision

namespace Json

mutual

/-- Every double of the value is finite. A number that is written down always is. -/
def isFinite : Json → Bool
  | num (.float x) => x.isFinite
  | arr xs => isFiniteItems xs
  | obj ms => isFiniteMembers ms
  | _ => true

def isFiniteItems : List Json → Bool
  | [] => true
  | x :: xs => isFinite x && isFiniteItems xs

def isFiniteMembers : List (String × Json) → Bool
  | [] => true
  | (_, x) :: ms => isFinite x && isFiniteMembers ms

end

theorem isFinite_of_getElem? {xs : List Json} {i : Nat} {x : Json} (h : isFiniteItems xs = true)
    (hx : xs[i]? = some x) : x.isFinite = true := by
  induction xs generalizing i with
  | nil => simp at hx
  | cons y xs ih =>
    obtain ⟨hy, hxs⟩ := (Bool.and_eq_true _ _).mp h
    cases i with
    | zero =>
      obtain rfl : y = x := by simpa using hx
      exact hy
    | succ i => exact ih hxs (by simpa using hx)

theorem isFinite_of_find? {ms : List (String × Json)} {key : String} {x : Json}
    (h : isFiniteMembers ms = true) (hx : SortedMap.find? ms key = some x) : x.isFinite = true := by
  induction ms with
  | nil => cases hx
  | cons m ms ih =>
    obtain ⟨k, y⟩ := m
    obtain ⟨hy, hms⟩ := (Bool.and_eq_true _ _).mp h
    by_cases hk : k = key
    · obtain rfl : y = x := by simpa [SortedMap.find?, hk] using hx
      exact hy
    · exact ih hms (by simpa [SortedMap.find?, hk] using hx)

theorem isFinite_of_part? {j x : Json} {name : String} {position : Nat} (h : j.isFinite = true)
    (hx : j.part? name position = some x) : x.isFinite = true := by
  cases j with
  | obj ms => exact isFinite_of_find? h hx
  | arr xs => exact isFinite_of_getElem? h hx
  | _ => cases hx

end Json

namespace Decoder

theorem isNumber_of_float32 {j : Json} {x : Float32} (hj : j.isFinite = true)
    (h : float32 j = .ok x) : IsNumber x := by
  cases j with
  | num n =>
    cases h
    cases n with
    | int n => exact isNumber_ofInt n
    | float x => exact isNumber_narrow hj
  | _ => cases h

end Decoder

namespace Playhead

def HasEnds (p : Playhead Float32) : Prop := IsNumber p.inPoint ∧ IsNumber p.outPoint

variable {p q : Playhead Float32}

theorem HasEnds.of_sameEnds (h : p.HasEnds) (hends : p.SameEnds q) : q.HasEnds := by
  obtain ⟨hin, hout⟩ := hends
  rw [HasEnds, hin, hout]
  exact h

theorem goTo_eq_none_iff {frame : Float32} : p.goTo frame = none ↔ ¬ p.inPoint ≤ p.outPoint := by
  simp [goTo, Scalar.clamp?]

/-- Ends that are out of order have no frames between them, and then no frame is held. -/
theorem exists_advance_of_hasEnds (h : p.HasEnds) (dt : Float32) : ∃ q, p.advance dt = some q := by
  by_cases hends : p.inPoint ≤ p.outPoint
  · exact exists_advance hends dt
  · have hduration : p.duration ≤ 0.0 := sub_le_zero h.1 h.2 hends
    simp only [advance, move, if_pos hduration]
    split <;> exact ⟨_, rfl⟩

end Playhead

namespace Player

variable {p : Player}

def update? (p : Player) : Option Player :=
  (p.tree.update? p.playhead.frame).map fun tree => { p with tree }

def advance? (p : Player) (dt : Float32) : Option Player :=
  if p.playhead.paused then some p
  else (p.playhead.advance dt).bind fun playhead => update? { p with playhead }

def goTo? (p : Player) (frame : Float32) : Option Player :=
  (p.playhead.goTo frame).bind fun playhead => update? { p with playhead }

def perform? (p : Player) : Move → Option Player
  | .advance dt => p.advance? dt
  | .goTo frame => p.goTo? frame
  | .update => p.update?
  | move => p.perform move

def samples? (p : Player) : Option (List Sample × List Remark × Player) := do
  let (samples, remarks, cache) ←
    Binding.sampleAll? ⟨p.name, p.tree⟩ p.playhead.frame p.cache p.bindings
  return (samples, remarks, { p with cache })

/-- The player after a command; none if it panics, by an access or by ends that are out of order. -/
def execute? (p : Player) : Command → Option Player
  | .move move => p.perform? move
  | .sample => p.samples?.map (·.2.2)
  | .get path => (p.tree.locate? path).map fun _ => p
  | .set path value => (p.set? path value).map (·.toOption.getD p)
  | .write ds value => (write? p ds value).map (·.1)
  | .reset ds => (reset? p ds).map (·.1)

def serve? (p : Player) (commands : List Command) : Option Player := commands.foldlM execute? p

theorem update?_eq (p : Player) : p.update? = some p.update := by
  simp only [update?, Tree.update?_eq]
  rfl

theorem perform?_eq (p : Player) (move : Move) : p.perform? move = p.perform move := by
  cases move with
  | advance dt =>
    simp only [perform?, perform, advance?, advance, update?_eq, Option.map_eq_bind]
    rfl
  | goTo frame =>
    simp only [perform?, perform, goTo?, goTo, update?_eq, Option.map_eq_bind]
    rfl
  | update => exact update?_eq p
  | play | pause | speed | direction | looping => rfl

theorem execute?_eq (p : Player) (command : Command) : p.execute? command = p.execute command := by
  cases command with
  | move move => exact perform?_eq p move
  | sample =>
    simp only [execute?, samples?, Binding.sampleAll?_eq]
    rfl
  | get path =>
    simp only [execute?, Tree.locate?_eq]
    rfl
  | set path value =>
    simp only [execute?, set?_eq]
    rfl
  | write ds value =>
    simp only [execute?, write?_eq]
    rfl
  | reset ds =>
    simp only [execute?, reset?_eq]
    rfl

theorem exists_advance_of_hasEnds (h : p.playhead.HasEnds) (dt : Float32) :
    ∃ p', p.advance dt = some p' := by
  obtain ⟨playhead, hplayhead⟩ := Playhead.exists_advance_of_hasEnds h dt
  simp only [advance, hplayhead, Option.map_some]
  split <;> exact ⟨_, rfl⟩

theorem execute_eq_none_iff (h : p.playhead.HasEnds) {command : Command} :
    p.execute command = none ↔
      ¬ p.playhead.inPoint ≤ p.playhead.outPoint ∧ ∃ frame, command = .move (.goTo frame) := by
  cases command with
  | move move =>
    cases move with
    | advance dt =>
      obtain ⟨p', hp'⟩ := exists_advance_of_hasEnds h dt
      simp [execute, perform, hp']
    | goTo frame => simp [execute, perform, goTo, Playhead.goTo_eq_none_iff]
    | update | play | pause | speed | direction | looping => simp [execute, perform]
  | sample | get | set | write | reset => simp [execute]

theorem serve_cons (p : Player) (command : Command) (commands : List Command) :
    p.serve (command :: commands) = (p.execute command).bind (·.serve commands) := rfl

theorem serve_eq_none_iff (h : p.playhead.HasEnds) {commands : List Command} :
    p.serve commands = none ↔
      ¬ p.playhead.inPoint ≤ p.playhead.outPoint ∧
        ∃ frame, Command.move (.goTo frame) ∈ commands := by
  induction commands generalizing p with
  | nil => simp [serve, pure]
  | cons command commands ih =>
    rw [serve_cons]
    cases hp' : p.execute command with
    | none =>
      obtain ⟨hends, frame, rfl⟩ := (execute_eq_none_iff h).mp hp'
      simp [hends]
    | some p' =>
      obtain ⟨hin, hout⟩ := (sameBuild_execute hp').ends
      have hno : ¬ (¬ p.playhead.inPoint ≤ p.playhead.outPoint ∧
          ∃ frame, command = .move (.goTo frame)) := fun hgoes =>
        nomatch hp'.symm.trans ((execute_eq_none_iff h).mpr hgoes)
      rw [Option.bind_some, ih (h.of_sameEnds ⟨hin, hout⟩), hin, hout]
      constructor
      · rintro ⟨hends, frame, hframe⟩
        exact ⟨hends, frame, List.mem_cons_of_mem _ hframe⟩
      · rintro ⟨hends, frame, hframe⟩
        rcases List.mem_cons.mp hframe with rfl | hframe
        · exact absurd ⟨hends, frame, rfl⟩ hno
        · exact ⟨hends, frame, hframe⟩

theorem hasEnds_of_load {document : Json} (hfinite : document.isFinite = true)
    (h : Player.load document = .ok p) : p.playhead.HasEnds := by
  obtain ⟨a, ha, -, rfl⟩ := load_eq_ok.mp h
  obtain ⟨⟨x, hx, hin⟩, ⟨y, hy, hout⟩, -⟩ := Decoder.parts_of_animation ha
  exact ⟨Decoder.isNumber_of_float32 (Json.isFinite_of_part? hfinite hx) hin,
    Decoder.isNumber_of_float32 (Json.isFinite_of_part? hfinite hy) hout⟩

/-- A run of commands on a loaded player panics exactly if one of them goes to a frame and the ends
are out of order. -/
theorem panics_iff_goTo {document : Json} (hfinite : document.isFinite = true)
    (h : Player.load document = .ok p) (commands : List Command) :
    p.serve? commands = none ↔
      ¬ p.playhead.inPoint ≤ p.playhead.outPoint ∧
        ∃ frame, Command.move (.goTo frame) ∈ commands := by
  have hserve : p.serve? commands = p.serve commands := by
    rw [serve?, funext fun p => funext (execute?_eq p), serve]
  rw [hserve]
  exact serve_eq_none_iff (hasEnds_of_load hfinite h)

end Player

def Json.backwards : Json :=
  .obj [("fr", .num (.int 10)), ("h", .num (.int 8)), ("ip", .num (.int 20)), ("layers", .arr []),
    ("op", .num (.int 0)), ("w", .num (.int 8))]

namespace Player

theorem panics_iff_goTo_on_backwards : ∃ p, Player.load Json.backwards = .ok p ∧
    Json.backwards.isFinite = true ∧
    p.serve? [.move (.advance 0.5), .move (.looping false), .move (.advance 0.5)] ≠ none := by
  obtain ⟨p, h⟩ : ∃ p, Player.load Json.backwards = .ok p := ⟨_, rfl⟩
  have hfinite : Json.backwards.isFinite = true := by decide
  refine ⟨p, h, hfinite, fun hpanics => ?_⟩
  obtain ⟨-, frame, hframe⟩ := (panics_iff_goTo hfinite h _).mp hpanics
  simp at hframe

theorem goTo_panics_on_backwards : ∃ p, Player.load Json.backwards = .ok p ∧
    p.serve? [.move (.goTo 5.0)] = none := ⟨_, rfl, rfl⟩

end Player

end IconMotion
