import IconMotion.Proofs.Playing
import IconMotion.Proofs.Writing

namespace IconMotion

open Control Expression

theorem map_modify_of_fixed {α β : Type} {f : α → α} {g : α → β} (h : ∀ x, g (f x) = g x)
    (l : List α) (i : Nat) : (l.modify i f).map g = l.map g := by
  have hmap : (l.modify i f).map g = (l.map g).modify i id := map_modify fun x _ => h x
  rw [hmap, List.modify_id]

namespace Live

def Channel.bare (c : Channel) : Channel := { c with value := .null }

def Effect.bare (e : Effect) : Effect := { e with channels := e.channels.map Channel.bare }

def Layer.bare (l : Layer) : Layer := { l with effects := l.effects.map Effect.bare }

def Tree.form (t : Tree) : Tree := t.map Layer.bare

theorem Channel.bare_update (c : Channel) (frame : Float32) : (c.update frame).bare = c.bare := by
  unfold Channel.update
  split <;> rfl

namespace Tree

theorem form_modifyChannel {t : Tree} {i j k : Nat} {f : Channel → Channel}
    (h : ∀ c, (f c).bare = c.bare) : (t.modifyChannel i j k f).form = t.form := by
  have heffect (e : Effect) : { e with channels := e.channels.modify k f }.bare = e.bare := by
    simp only [Effect.bare, map_modify_of_fixed h]
  refine map_modify_of_fixed (fun l => ?_) t i
  simp only [Layer.bare, map_modify_of_fixed heffect]

theorem form_update (t : Tree) (frame : Float32) : (t.update frame).form = t.form := by
  simp [form, update, Layer.update, Layer.bare, Effect.update, Effect.bare, Function.comp_def,
    Channel.bare_update]

end Tree

end Live

namespace Expression.Cache

/-- Every outcome is the one that its source has. -/
def Sound (c : Cache) : Prop :=
  ∀ source outcome, c.entries.lookup source = some outcome → outcome = (compile source).toOption

theorem sound_empty : Sound empty := nofun

theorem Sound.get {c : Cache} (h : c.Sound) (source : String) :
    (c.get source).1 = (compile source).toOption ∧ (c.get source).2.2.Sound := by
  unfold Cache.get
  split
  next outcome hlookup => exact ⟨h source outcome hlookup, h⟩
  next hlookup =>
    have hcons (outcome : Option Compiled) (houtcome : outcome = (compile source).toOption) :
        Sound ⟨(source, outcome) :: c.entries⟩ := by
      intro other outcome' hlookup'
      rw [List.lookup_cons] at hlookup'
      cases hsame : other == source with
      | true =>
        obtain rfl : outcome = outcome' := by simpa [hsame] using hlookup'
        rw [eq_of_beq hsame, houtcome]
      | false =>
        refine h other outcome' ?_
        simpa [hsame] using hlookup'
    cases hcompile : compile source with
    | ok compiled => exact ⟨rfl, hcons _ (by rw [hcompile]; rfl)⟩
    | error refusal => exact ⟨rfl, hcons _ (by rw [hcompile]; rfl)⟩

end Expression.Cache

namespace Live.Binding

theorem sampleAll_of_sound (names : Names) (frame : Float32) {cache : Cache} (h : cache.Sound)
    (bs : List Binding) :
    (sampleAll names frame cache bs).1 =
        bs.map (fun b => (b.sample names frame (compile b.source).toOption).1) ∧
      (sampleAll names frame cache bs).2.2.Sound := by
  induction bs generalizing cache with
  | nil => exact ⟨rfl, h⟩
  | cons b bs ih =>
    obtain ⟨hcompiled, hsound⟩ := h.get b.source
    obtain ⟨hsamples, hcache⟩ := ih hsound
    exact ⟨by simp only [sampleAll, hcompiled, hsamples, List.map_cons], hcache⟩

end Live.Binding

namespace Player

inductive Command where
  | move (move : Move)
  | sample
  | get (path : Path)
  | set (path : Path) (value : Json)
  | write (ds : List Descriptor) (value : Json)
  | reset (ds : List Descriptor)

/-- The player after a command; none if it panics. A write that is refused changes nothing. -/
def execute (p : Player) : Command → Option Player
  | .move move => p.perform move
  | .sample => some p.samples.2.2
  | .get _ => some p
  | .set path value => some ((Target.set p path value).toOption.getD p)
  | .write ds value => some (write p ds value).1
  | .reset ds => some (reset p ds).1

def serve (p : Player) (commands : List Command) : Option Player := commands.foldlM execute p

def Command.isWrite : Command → Bool
  | .set .. | .write .. | .reset _ => true
  | _ => false

/-- All that stays as it was loaded. -/
structure SameBuild (p p' : Player) : Prop where
  name : p'.name = p.name
  bindings : p'.bindings = p.bindings
  ends : p.playhead.SameEnds p'.playhead
  form : p'.tree.form = p.tree.form

variable {p p' : Player} {command : Command}

theorem SameBuild.refl (p : Player) : SameBuild p p := ⟨rfl, rfl, ⟨rfl, rfl⟩, rfl⟩

theorem SameBuild.trans {p₁ p₂ p₃ : Player} (h : SameBuild p₁ p₂) (h' : SameBuild p₂ p₃) :
    SameBuild p₁ p₃ where
  name := h'.name.trans h.name
  bindings := h'.bindings.trans h.bindings
  ends := ⟨h'.ends.1.trans h.ends.1, h'.ends.2.trans h.ends.2⟩
  form := h'.form.trans h.form

def Rewritten (p p' : Player) : Prop := ∃ tree, p' = { p with tree } ∧ tree.form = p.tree.form

theorem Rewritten.refl (p : Player) : Rewritten p p := ⟨p.tree, rfl, rfl⟩

theorem Rewritten.trans {p₁ p₂ p₃ : Player} (h : Rewritten p₁ p₂) (h' : Rewritten p₂ p₃) :
    Rewritten p₁ p₃ := by
  obtain ⟨tree, rfl, hform⟩ := h
  obtain ⟨tree', rfl, hform'⟩ := h'
  exact ⟨tree', rfl, hform'.trans hform⟩

theorem rewritten_set {path : Path} {value : Json} (h : Target.set p path value = .ok p') :
    Rewritten p p' := by
  obtain ⟨place, u, w, -, -, -, rfl⟩ := set_eq_ok.mp h
  exact ⟨_, rfl, Live.Tree.form_modifyChannel fun _ => rfl⟩

theorem rewritten_write (p : Player) (ds : List Descriptor) (value : Json) :
    Rewritten p (write p ds value).1 :=
  write_induction (.refl p) fun _ _ _ _ _ _ h hset => h.trans (rewritten_set hset)

theorem rewritten_reset (p : Player) (ds : List Descriptor) : Rewritten p (reset p ds).1 :=
  reset_induction (.refl p) fun _ _ _ _ h hset => h.trans (rewritten_set hset)

theorem rewritten_execute (hwrite : command.isWrite = true) (h : p.execute command = some p') :
    Rewritten p p' := by
  cases command with
  | set path value =>
    cases h
    cases hset : Target.set p path value with
    | ok p' => exact rewritten_set hset
    | error e => exact .refl p
  | write ds value =>
    cases h
    exact rewritten_write p ds value
  | reset ds =>
    cases h
    exact rewritten_reset p ds
  | move | sample | get => cases hwrite

theorem Rewritten.sameBuild (h : Rewritten p p') : SameBuild p p' := by
  obtain ⟨tree, rfl, hform⟩ := h
  exact ⟨rfl, rfl, ⟨rfl, rfl⟩, hform⟩

theorem sameBuild_execute (h : p.execute command = some p') : SameBuild p p' := by
  cases command with
  | move move =>
    obtain ⟨playhead, tree, rfl, hends, ⟨-, rfl⟩ | ⟨-, frame, rfl⟩⟩ := perform_eq_some h
    · exact ⟨rfl, rfl, hends, rfl⟩
    · exact ⟨rfl, rfl, hends, Live.Tree.form_update p.tree frame⟩
  | sample | get =>
    cases h
    exact ⟨rfl, rfl, ⟨rfl, rfl⟩, rfl⟩
  | set | write | reset => exact (rewritten_execute rfl h).sameBuild

theorem sound_execute (hsound : p.cache.Sound) (h : p.execute command = some p') :
    p'.cache.Sound := by
  cases command with
  | move move =>
    obtain ⟨playhead, tree, rfl, -⟩ := perform_eq_some h
    exact hsound
  | sample =>
    cases h
    exact (Live.Binding.sampleAll_of_sound _ _ hsound _).2
  | get =>
    cases h
    exact hsound
  | set | write | reset =>
    obtain ⟨tree, rfl, -⟩ := rewritten_execute rfl h
    exact hsound

theorem serve_induction {P : Player → Prop} {commands : List Command}
    (hstep : ∀ p p' command, P p → p.execute command = some p' → P p') (hP : P p)
    (h : p.serve commands = some p') : P p' := by
  induction commands generalizing p with
  | nil =>
    cases h
    exact hP
  | cons command commands ih =>
    obtain ⟨p₁, hp₁, h⟩ := Option.bind_eq_some_iff.mp h
    exact ih (hstep p p₁ command hP hp₁) h

theorem sameBuild_serve {commands : List Command} (h : p.serve commands = some p') : SameBuild p p' :=
  serve_induction (fun _ _ _ hbuild h => hbuild.trans (sameBuild_execute h)) (.refl p) h

theorem sound_serve {commands : List Command} (hsound : p.cache.Sound)
    (h : p.serve commands = some p') : p'.cache.Sound :=
  serve_induction (fun _ _ _ hsound h => sound_execute hsound h) hsound h

theorem samples_of_sound (h : p.cache.Sound) : p.samples.1 = p.bindings.map fun b =>
    (b.sample ⟨p.name, p.tree⟩ p.playhead.frame (compile b.source).toOption).1 :=
  (Live.Binding.sampleAll_of_sound _ _ h _).1

end Player

end IconMotion
