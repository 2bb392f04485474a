namespace IconMotion

/-- Pairs of a key and a value; the operations keep the keys ascending. -/
abbrev SortedMap (ν : Type) := List (String × ν)

namespace SortedMap

variable {ν : Type}

def Sorted (m : SortedMap ν) : Prop := m.Pairwise (·.1 < ·.1)

def find? : SortedMap ν → String → Option ν
  | [], _ => none
  | (k, v) :: m, key => if k = key then some v else find? m key

def contains (m : SortedMap ν) (key : String) : Bool := (m.find? key).isSome

def insert : SortedMap ν → String → ν → SortedMap ν
  | [], key, v => [(key, v)]
  | (k, w) :: m, key, v =>
    if k = key then (key, v) :: m
    else if key < k then (key, v) :: (k, w) :: m
    else (k, w) :: insert m key v

/-- Inserts the pairs one after another: of two values for one key the later stays. -/
def extend (m : SortedMap ν) (pairs : List (String × ν)) : SortedMap ν :=
  pairs.foldl (fun m p => m.insert p.1 p.2) m

def ofList (pairs : List (String × ν)) : SortedMap ν := extend [] pairs

theorem sorted_nil : Sorted ([] : SortedMap ν) := List.Pairwise.nil

theorem mem_of_find? {m : SortedMap ν} {key : String} {v : ν} (h : m.find? key = some v) :
    (key, v) ∈ m := by
  induction m with
  | nil => cases h
  | cons p m ih =>
    obtain ⟨k, w⟩ := p
    simp only [find?] at h
    split at h
    next hk =>
      cases h
      rw [hk]
      exact List.mem_cons_self
    next => exact List.mem_cons_of_mem _ (ih h)

theorem find?_insert_self (m : SortedMap ν) (key : String) (v : ν) :
    (m.insert key v).find? key = some v := by
  induction m with
  | nil => simp [insert, find?]
  | cons p m ih =>
    obtain ⟨k, w⟩ := p
    by_cases h : k = key
    · simp [insert, find?, h]
    · by_cases hlt : key < k
      · simp [insert, find?, h, hlt]
      · simp [insert, find?, h, hlt, ih]

theorem find?_insert_of_ne (m : SortedMap ν) {key other : String} (v : ν) (hne : key ≠ other) :
    (m.insert key v).find? other = m.find? other := by
  induction m with
  | nil => simp [insert, find?, hne]
  | cons p m ih =>
    obtain ⟨k, w⟩ := p
    by_cases h : k = key
    · subst h
      simp [insert, find?, hne]
    · by_cases hlt : key < k
      · simp [insert, find?, h, hlt, hne]
      · simp [insert, find?, h, hlt, ih]

theorem insert_insert (m : SortedMap ν) (key : String) (v w : ν) :
    (m.insert key v).insert key w = m.insert key w := by
  induction m with
  | nil => simp [insert]
  | cons p m ih =>
    obtain ⟨k, u⟩ := p
    by_cases h : k = key
    · simp [insert, h]
    · by_cases hlt : key < k
      · simp [insert, h, hlt]
      · simp [insert, h, hlt, ih]

theorem insert_comm (m : SortedMap ν) {key other : String} (v w : ν) (hne : key ≠ other) :
    (m.insert key v).insert other w = (m.insert other w).insert key v := by
  induction m with
  | nil => grind [insert]
  | cons p m ih => grind [insert]

theorem mem_insert {m : SortedMap ν} {key : String} {v : ν} {p : String × ν}
    (h : p ∈ m.insert key v) : p = (key, v) ∨ p ∈ m := by
  induction m with
  | nil => exact Or.inl (by simpa [insert] using h)
  | cons q m ih =>
    obtain ⟨k, w⟩ := q
    by_cases hk : k = key
    · simp only [insert, if_pos hk, List.mem_cons] at h
      exact h.imp id fun h => List.mem_cons_of_mem _ h
    · by_cases hlt : key < k
      · simpa [insert, hk, hlt] using h
      · simp only [insert, if_neg hk, if_neg hlt, List.mem_cons] at h
        rcases h with h | h
        · exact Or.inr (by simp [h])
        · exact (ih h).imp id fun h => List.mem_cons_of_mem _ h

theorem mem_insert_self (m : SortedMap ν) (key : String) (v : ν) : (key, v) ∈ m.insert key v := by
  induction m with
  | nil => simp [insert]
  | cons q m ih =>
    obtain ⟨k, w⟩ := q
    unfold insert
    split
    · simp
    · split
      · simp
      · exact List.mem_cons_of_mem _ ih

theorem mem_insert_of_ne {m : SortedMap ν} {key : String} {p : String × ν} (v : ν) (hp : p ∈ m)
    (hne : p.1 ≠ key) : p ∈ m.insert key v := by
  induction m with
  | nil => cases hp
  | cons q m ih =>
    obtain ⟨k, w⟩ := q
    unfold insert
    split
    next hk =>
      refine List.mem_cons_of_mem _ ((List.mem_cons.mp hp).resolve_left fun h => hne ?_)
      rw [h, hk]
    next hk =>
      split
      · exact List.mem_cons_of_mem _ hp
      · exact List.mem_cons.mpr ((List.mem_cons.mp hp).imp id ih)

theorem sorted_insert {m : SortedMap ν} (h : m.Sorted) (key : String) (v : ν) :
    (m.insert key v).Sorted := by
  induction m with
  | nil => simp [insert, Sorted]
  | cons q m ih =>
    obtain ⟨k, w⟩ := q
    obtain ⟨hk, hm⟩ := List.pairwise_cons.mp h
    by_cases heq : k = key
    · subst heq
      simp only [insert, if_true]
      exact List.pairwise_cons.mpr ⟨hk, hm⟩
    · by_cases hlt : key < k
      · simp only [insert, if_neg heq, if_pos hlt]
        refine List.pairwise_cons.mpr ⟨?_, h⟩
        intro p hp
        rcases List.mem_cons.mp hp with rfl | hp
        · exact hlt
        · exact String.lt_trans hlt (hk p hp)
      · simp only [insert, if_neg heq, if_neg hlt]
        refine List.pairwise_cons.mpr ⟨?_, ih hm⟩
        intro p hp
        rcases mem_insert hp with rfl | hp
        · exact Decidable.byContradiction fun h =>
            heq (String.le_antisymm (String.not_lt.mp hlt) (String.not_lt.mp h))
        · exact hk p hp

theorem find?_of_mem {m : SortedMap ν} {key : String} {v : ν} (hm : m.Sorted) (h : (key, v) ∈ m) :
    m.find? key = some v := by
  induction m with
  | nil => cases h
  | cons p m ih =>
    obtain ⟨k, w⟩ := p
    obtain ⟨hk, hm⟩ := List.pairwise_cons.mp hm
    rcases List.mem_cons.mp h with heq | h
    · cases heq
      simp only [find?, if_true]
    · have hne : k ≠ key := fun e => String.lt_irrefl k (by simpa [e] using hk _ h)
      simp only [find?, if_neg hne, ih hm h]

theorem insert_self {m : SortedMap ν} {key : String} {v : ν} (hm : m.Sorted)
    (h : m.find? key = some v) : m.insert key v = m := by
  induction m with
  | nil => cases h
  | cons p m ih =>
    obtain ⟨k, w⟩ := p
    obtain ⟨hk, hm⟩ := List.pairwise_cons.mp hm
    simp only [find?] at h
    split at h
    next heq =>
      cases h
      simp only [insert, heq, if_true]
    next hne =>
      have hlt : k < key := hk (key, v) (mem_of_find? h)
      simp only [insert, if_neg hne, if_neg (String.lt_asymm hlt), ih hm h]

theorem mem_extend {m : SortedMap ν} {pairs : List (String × ν)} {p : String × ν}
    (h : p ∈ m.extend pairs) : p ∈ m ∨ p ∈ pairs := by
  induction pairs generalizing m with
  | nil => exact .inl h
  | cons q pairs ih =>
    rcases ih h with h | h
    · exact (mem_insert h).elim (fun h => .inr (by simp [h])) .inl
    · exact .inr (List.mem_cons_of_mem _ h)

theorem mem_extend_of_not_mem {m : SortedMap ν} {pairs : List (String × ν)} {p : String × ν}
    (hp : p ∈ m) (h : p.1 ∉ pairs.map (·.1)) : p ∈ m.extend pairs := by
  induction pairs generalizing m with
  | nil => exact hp
  | cons q pairs ih =>
    rw [List.map_cons, List.mem_cons, not_or] at h
    obtain ⟨hq, hpairs⟩ := h
    exact ih (mem_insert_of_ne q.2 hp hq) hpairs

theorem mem_extend_of_mem {m : SortedMap ν} {pairs : List (String × ν)} {p : String × ν}
    (hnodup : (pairs.map (·.1)).Nodup) (hp : p ∈ pairs) : p ∈ m.extend pairs := by
  induction pairs generalizing m with
  | nil => cases hp
  | cons q pairs ih =>
    obtain ⟨hq, hnodup⟩ := List.nodup_cons.mp hnodup
    rcases List.mem_cons.mp hp with rfl | hp
    · have hself : p ∈ m.insert p.1 p.2 := mem_insert_self m p.1 p.2
      have hrest : p ∈ (m.insert p.1 p.2).extend pairs := mem_extend_of_not_mem hself hq
      exact hrest
    · exact ih hnodup hp

theorem sorted_extend {m : SortedMap ν} (h : m.Sorted) (pairs : List (String × ν)) :
    (m.extend pairs).Sorted := by
  induction pairs generalizing m with
  | nil => exact h
  | cons p pairs ih => exact ih (sorted_insert h p.1 p.2)

theorem sorted_ofList (pairs : List (String × ν)) : Sorted (ofList pairs) :=
  sorted_extend sorted_nil pairs

end SortedMap

end IconMotion
