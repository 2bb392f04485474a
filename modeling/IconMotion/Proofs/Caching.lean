import Mathlib.Data.List.Dedup
import Mathlib.Data.List.Nodup
import IconMotion.Proofs.Following

namespace IconMotion

open Control Expression Live

namespace Expression.Cache

def sources (c : Cache) : List String := c.entries.map Prod.fst

def ask (c : Cache) (source : String) : Cache := (c.get source).2.2

def askAll (c : Cache) (asked : List String) : Cache := asked.foldl ask c

variable {c : Cache} {source : String}

theorem lookup_eq_none_iff : c.entries.lookup source = none ↔ source ∉ c.sources := by
  simp only [sources, List.lookup_eq_none_iff, List.mem_map, Prod.exists, bne_iff_ne]
  constructor
  · rintro h ⟨_, outcome, hentry, rfl⟩
    exact h (_, outcome) hentry rfl
  · rintro h ⟨other, outcome⟩ hentry rfl
    exact h ⟨_, outcome, hentry, rfl⟩

theorem sources_ask (c : Cache) (source : String) :
    (c.ask source).sources = c.sources.insert source := by
  unfold ask Cache.get
  split
  next outcome hlookup =>
    have hmem : source ∈ c.sources := by
      by_contra hmem
      rw [lookup_eq_none_iff.mpr hmem] at hlookup
      cases hlookup
    rw [List.insert_of_mem hmem]
  next hlookup =>
    rw [List.insert_of_not_mem (lookup_eq_none_iff.mp hlookup)]
    split <;> rfl

theorem mem_sources_askAll (c : Cache) (asked : List String) :
    source ∈ (c.askAll asked).sources ↔ source ∈ c.sources ∨ source ∈ asked := by
  induction asked generalizing c with
  | nil => simp [askAll]
  | cons first asked ih =>
    have hfirst : source ∈ (c.ask first).sources ↔ source = first ∨ source ∈ c.sources := by
      rw [sources_ask, List.mem_insert_iff]
    rw [askAll, List.foldl_cons, ← askAll, ih, hfirst, List.mem_cons, or_assoc, or_left_comm]

theorem nodup_sources_askAll (h : c.sources.Nodup) (asked : List String) :
    (c.askAll asked).sources.Nodup := by
  induction asked generalizing c with
  | nil => exact h
  | cons first asked ih =>
    refine ih ?_
    rw [sources_ask]
    exact h.insert

/-- The cache has at most one entry for a source, and none for sources outside the list. -/
structure Within (c : Cache) (asked : List String) : Prop where
  nodup : c.sources.Nodup
  subset : c.sources ⊆ asked

theorem within_empty (asked : List String) : empty.Within asked :=
  ⟨List.nodup_nil, List.nil_subset asked⟩

variable {asked : List String}

theorem Within.askAll (h : c.Within asked) : (c.askAll asked).Within asked := by
  refine ⟨nodup_sources_askAll h.nodup asked, fun source hsource => ?_⟩
  obtain hbefore | hnew := (mem_sources_askAll c asked).mp hsource
  · exact h.subset hbefore
  · exact hnew

theorem Within.size_askAll (h : c.Within asked) : (c.askAll asked).size = asked.dedup.length := by
  have hperm : (c.askAll asked).sources.Perm asked.dedup := by
    refine (List.perm_ext_iff_of_nodup h.askAll.nodup asked.nodup_dedup).mpr fun source => ?_
    rw [mem_sources_askAll, List.mem_dedup]
    exact or_iff_right_of_imp fun hbefore => h.subset hbefore
  rw [← hperm.length_eq, sources, List.length_map, size]

theorem Sound.askAll (h : c.Sound) (asked : List String) : (c.askAll asked).Sound := by
  induction asked generalizing c with
  | nil => exact h
  | cons first asked ih => exact ih (h.get first).2

end Expression.Cache

namespace Live.Binding

/-- The sample of a binding at a frame where nothing is kept: its source is compiled. -/
def fresh (b : Binding) (names : Names) (frame : Float32) : Sample :=
  match compile b.source with
  | .error _ => { path := b.path, idiom := none, value := b.base frame }
  | .ok compiled =>
    { path := b.path, idiom := some compiled.idiom
      value := match compiled.evaluate (names.context (b.base frame)) with
        | .ok v => v.toJson
        | .error _ => b.base frame }

theorem sample_toOption_compile (b : Binding) (names : Names) (frame : Float32) :
    (b.sample names frame (compile b.source).toOption).1 = b.fresh names frame := by
  unfold fresh
  cases hcompile : compile b.source with
  | error refusal => rfl
  | ok compiled =>
    simp only [Except.toOption, sample]
    cases compiled.evaluate (names.context (b.base frame)) with
    | ok v => rfl
    | error e => rfl

theorem cache_sampleAll (names : Names) (frame : Float32) (c : Cache) (bs : List Binding) :
    (sampleAll names frame c bs).2.2 = c.askAll (bs.map Binding.source) := by
  induction bs generalizing c with
  | nil => rfl
  | cons b bs ih => exact ih (c.ask b.source)

end Live.Binding

namespace Player

variable {p p' : Player} {command : Command}

def sources (p : Player) : List String := p.bindings.map Binding.source

theorem samples_eq_fresh_of_sound (h : p.cache.Sound) :
    p.samples.1 = p.bindings.map fun b => b.fresh p.names p.playhead.frame := by
  rw [samples_of_sound h]
  exact List.map_congr_left fun b _ => b.sample_toOption_compile p.names p.playhead.frame

theorem execute_sample (p : Player) :
    p.execute .sample = some { p with cache := p.cache.askAll p.sources } := by
  have hcache : (Binding.sampleAll ⟨p.name, p.tree⟩ p.playhead.frame p.cache p.bindings).2.2 =
      p.cache.askAll p.sources := Binding.cache_sampleAll _ _ _ _
  rw [← hcache]
  rfl

theorem cache_execute (h : p.execute command = some p') :
    p'.cache = p.cache ∨ p'.cache = p.cache.askAll p.sources := by
  cases command with
  | move move =>
    obtain ⟨playhead, tree, rfl, -⟩ := perform_eq_some h
    exact .inl rfl
  | sample =>
    rw [execute_sample] at h
    cases h
    exact .inr rfl
  | get =>
    cases h
    exact .inl rfl
  | set | write | reset =>
    obtain ⟨tree, rfl, -⟩ := rewritten_execute rfl h
    exact .inl rfl

theorem within_serve {commands : List Command} (hwithin : p.cache.Within p.sources)
    (h : p.serve commands = some p') : p'.cache.Within p'.sources := by
  refine serve_induction (P := fun p => p.cache.Within p.sources) ?_ hwithin h
  intro p p' command hwithin h
  have hsources : p'.sources = p.sources := congrArg (List.map Binding.source) (sameBuild_execute h).bindings
  obtain hcache | hcache := cache_execute h
  · rw [hcache, hsources]
    exact hwithin
  · rw [hcache, hsources]
    exact hwithin.askAll

theorem exists_serve_sample (h : p.cache.Sound) (n : Nat) :
    ∃ cache, p.serve (List.replicate n .sample) = some { p with cache } ∧
      { p with cache }.samples.1 = p.samples.1 := by
  induction n generalizing p with
  | zero => exact ⟨p.cache, rfl, rfl⟩
  | succ n ih =>
    have hsound : (p.cache.askAll p.sources).Sound := h.askAll p.sources
    obtain ⟨cache, hserve, hsamples⟩ := ih (p := { p with cache := p.cache.askAll p.sources }) hsound
    refine ⟨cache, ?_, ?_⟩
    · rw [List.replicate_succ, serve, List.foldlM_cons, execute_sample]
      exact hserve
    · rw [samples_eq_fresh_of_sound h]
      exact hsamples.trans (samples_eq_fresh_of_sound hsound)

/-- The cache answers as the compiler, with one entry for each source that it was asked for, and a player
gives the samples of a compiler without a cache: of all bindings, in their order, from the live tree of the
moment. Sampling changes the cache only, which then has one entry for each source of a binding. -/
theorem samples_eq_fresh :
    (∀ asked source, ((Cache.empty.askAll asked).get source).1 = (compile source).toOption ∧
      (Cache.empty.askAll asked).size = asked.dedup.length) ∧
    ∀ document p₀ commands p, load document = .ok p₀ → p₀.serve commands = some p →
      p.samples.1 = (findBindings document).map (fun b => b.fresh p.names p.playhead.frame) ∧
      p.samples.2.2 = { p with cache := p.cache.askAll p.sources } ∧
      (p.cache.askAll p.sources).size = p.sources.dedup.length ∧
      ∀ n, ∃ cache, p.serve (List.replicate n .sample) = some { p with cache } ∧
        { p with cache }.samples.1 = p.samples.1 := by
  refine ⟨fun asked source => ⟨?_, ?_⟩, fun document p₀ commands p hload hserve => ?_⟩
  · exact ((Cache.sound_empty.askAll asked).get source).1
  · exact (Cache.within_empty asked).size_askAll
  · have hsound : p.cache.Sound := sound_serve (sound_of_load hload) hserve
    have hbindings : p.bindings = findBindings document := by
      rw [(sameBuild_serve hserve).bindings]
      obtain ⟨a, -, -, rfl⟩ := load_eq_ok.mp hload
      rfl
    have hwithin : p.cache.Within p.sources := by
      refine within_serve ?_ hserve
      obtain ⟨a, -, -, rfl⟩ := load_eq_ok.mp hload
      exact Cache.within_empty _
    refine ⟨?_, Option.some.inj (execute_sample p), hwithin.size_askAll, exists_serve_sample hsound⟩
    rw [samples_eq_fresh_of_sound hsound, hbindings]

theorem samples_eq_fresh_of_scaledShape : ∃ p₀ p : Player,
    load scaledShape = .ok p₀ ∧
    p₀.serve [.sample, .set (Scope.liveTree.address 0 0) (.num (.int 7)), .move (.advance 0.5)] =
      some p ∧
    (Cache.empty.askAll ["value", "wiggle(2)", "value"]).size = 2 ∧
    p.samples.1 = (findBindings scaledShape).map (fun b => b.fresh p.names p.playhead.frame) ∧
    p.samples.1.map (fun s => (s.idiom, Value.ofJson? s.value)) =
      [(none, some (.number 0.0)), (some .legacyScale, some (.vector [7.0, 7.0]))] := by
  obtain ⟨p₀, p, hload, hserve, hvalues⟩ : ∃ p₀ p : Player, load scaledShape = .ok p₀ ∧
      p₀.serve [.sample, .set (Scope.liveTree.address 0 0) (.num (.int 7)), .move (.advance 0.5)] =
        some p ∧
      p.samples.1.map (fun s => (s.idiom, Value.ofJson? s.value)) =
        [(none, some (.number 0.0)), (some .legacyScale, some (.vector [7.0, 7.0]))] :=
    ⟨_, _, rfl, rfl, by decide +kernel⟩
  obtain ⟨hcache, hplayer⟩ := samples_eq_fresh
  exact ⟨p₀, p, hload, hserve, (hcache _ "value").2.trans rfl, (hplayer _ _ _ _ hload hserve).1, hvalues⟩

end Player

end IconMotion
