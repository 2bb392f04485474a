import IconMotion.Proofs.ByteLexer

namespace IconMotion.Expression

open String (utf8Len)
open String.Pos.Raw (IsValid)

/-- Lexemes that stand in a source one behind the other and end with it. -/
structure Covers (source : String) (ls : List Lexeme) : Prop where
  ordered : ls.Pairwise fun l l' => l.stop ≤ l'.start
  valid : ∀ l ∈ ls, IsValid source ⟨l.start⟩ ∧ IsValid source ⟨l.stop⟩
  closed : ∃ more, ls = more ++ [⟨.eof, source.utf8ByteSize, source.utf8ByteSize⟩] ∧
    ∀ l ∈ more, l.token ≠ .eof ∧ l.start < l.stop

variable {source : String} {gap : Gap} {pos : Nat} {c : Char} {cs : List Char} {ls read : List Lexeme}

theorem utf8ByteSize_eq (source : String) : source.utf8ByteSize = utf8Len source.toList := by
  rw [← String.utf8ByteSize_ofList, String.ofList_toList]

theorem Left.eq_utf8ByteSize (h : Left source pos []) : pos = source.utf8ByteSize := by
  obtain ⟨before, hsource, rfl⟩ := h
  rw [utf8ByteSize_eq, hsource, List.append_nil]

theorem Left.behind_gap {start : Nat} {rest : List Char} (h : Left source pos cs)
    (hskip : skipGap gap pos cs = .ok (start, rest)) : Left source start rest ∧ pos ≤ start := by
  obtain ⟨g, rfl, hstart⟩ := exists_gap hskip
  obtain rfl : start = pos + utf8Len g := hstart
  exact ⟨h.append, Nat.le_add_right pos _⟩

theorem exists_covers (h : Left source pos cs) (hlex : lexFrom pos cs read = .ok ls) :
    ∃ more, ls = read.reverse ++ more ∧ Covers source more ∧ ∀ l ∈ more, pos ≤ l.start := by
  fun_induction lexFrom pos cs read with
  | case1 | case3 => cases hlex
  | case2 pos cs read stop hskip =>
    cases hlex
    obtain ⟨hend, hle⟩ := h.behind_gap hskip
    have hvalid := hend.isValid
    obtain rfl := hend.eq_utf8ByteSize
    refine ⟨[⟨.eof, _, _⟩], List.reverse_cons, ⟨List.pairwise_singleton _ _, ?_, [], rfl, by simp⟩, ?_⟩
    · simpa using hvalid
    · simpa using hle
  | case4 pos cs read start c rest hskip t width behind htoken ih =>
    obtain ⟨htext, hle⟩ := h.behind_gap hskip
    obtain ⟨hleft, heof, hlt⟩ := htext.behind_token htoken
    obtain ⟨more, rfl, ⟨hordered, hvalid, more', rfl, hmore⟩, hbehind⟩ := ih hleft hlex
    refine ⟨⟨t, start, start + width⟩ :: (more' ++ [_]), by simp, ⟨?_, ?_, _ :: more', rfl, ?_⟩, ?_⟩
    · exact List.pairwise_cons.mpr ⟨hbehind, hordered⟩
    · exact List.forall_mem_cons.mpr ⟨⟨htext.isValid, hleft.isValid⟩, hvalid⟩
    · exact List.forall_mem_cons.mpr ⟨⟨heof, hlt⟩, hmore⟩
    · refine List.forall_mem_cons.mpr ⟨hle, fun l hl => ?_⟩
      exact Nat.le_trans (Nat.le_trans hle (Nat.le_of_lt hlt)) (hbehind l hl)

theorem covers_of_lex (h : lex source = .ok ls) : Covers source ls := by
  obtain ⟨more, rfl, hcovers, -⟩ := exists_covers (.start source) h
  exact hcovers

theorem isValid_of_skipGap {e : ParseError} (h : Left source pos cs)
    (hskip : skipGap gap pos cs = .error e) (hgap : ∀ start, gap = .block start → IsValid source ⟨start⟩) :
    IsValid source ⟨e.offset⟩ := by
  fun_induction skipGap gap pos cs with
  | case1 | case5 | case6 => cases hskip
  | case8 start =>
    cases hskip
    exact hgap start rfl
  | case2 pos cs ih => exact ih h.next.next hskip (by simp)
  | case3 pos cs ih =>
    refine ih h.next.next hskip ?_
    rintro start ⟨⟩
    exact h.isValid
  | case4 pos c cs _ _ hc ih =>
    have hsize : c.utf8Size = 1 := utf8Size_of_mem_blanks c (isBlank_iff.mp hc)
    exact ih (hsize ▸ h.next) hskip (by simp)
  | case7 pos c cs ih =>
    refine ih h.next hskip fun start hstart => ?_
    split at hstart <;> cases hstart
  | case9 _ pos cs ih => exact ih h.next.next hskip (by simp)
  | case10 _ pos c cs _ ih => exact ih h.next hskip hgap

theorem offset_of_exponentOf {e : ParseError} (h : exponentOf pos cs = .error e) : e.offset = pos := by
  unfold exponentOf at h
  split at h
  next => cases h
  next =>
    split at h
    next =>
      dsimp only at h
      split at h
      next =>
        cases h
        rfl
      next => cases h
    next => cases h

theorem isValid_of_token {e : ParseError} (h : Left source pos (c :: cs))
    (htoken : token pos c cs = .error e) : IsValid source ⟨e.offset⟩ := by
  unfold token at htoken
  split at htoken
  next =>
    obtain ⟨whole, behind, hdigits, hcs, hwhole⟩ := exists_digits (c :: cs)
    obtain ⟨fraction, ds, behind', hfraction, rfl, -⟩ := exists_fraction behind
    rw [hcs] at h
    simp only [number, hdigits, hfraction] at htoken
    split at htoken
    next e' hexponent =>
      cases htoken
      rw [offset_of_exponentOf hexponent, ← utf8Len_of_digits hwhole, ← Nat.add_assoc]
      exact h.append.append.isValid
    next => cases htoken
  next =>
    split at htoken
    next =>
      split at htoken
      next => cases htoken
      next =>
        cases htoken
        exact h.isValid
    next =>
      split at htoken
      next => cases htoken
      next =>
        split at htoken
        next => cases htoken
        next =>
          cases htoken
          exact h.isValid

theorem isValid_of_lexFrom {e : ParseError} (h : Left source pos cs)
    (hlex : lexFrom pos cs read = .error e) : IsValid source ⟨e.offset⟩ := by
  fun_induction lexFrom pos cs read with
  | case1 pos cs read e' hskip =>
    cases hlex
    exact isValid_of_skipGap h hskip (by simp)
  | case2 => cases hlex
  | case3 pos cs read start c rest hskip e' htoken =>
    cases hlex
    exact isValid_of_token (h.behind_gap hskip).1 htoken
  | case4 pos cs read start c rest hskip t width behind htoken ih =>
    exact ih ((h.behind_gap hskip).1.behind_token htoken).1 hlex

theorem isValid_of_lex {e : ParseError} (h : lex source = .error e) : IsValid source ⟨e.offset⟩ :=
  isValid_of_lexFrom (.start source) h

end IconMotion.Expression
