import IconMotion.Proofs.Printing

namespace IconMotion.Expression

namespace Expr

mutual

/-- How many steps the longest way from an expression down to a part of it has. -/
def height : Expr → Nat
  | .number _ | .text _ | .bool _ | .ident _ => 0
  | .array items => heightAll items
  | .member object _ => object.height + 1
  | .index object i => max object.height i.height + 1
  | .call callee args => max (callee.height + 1) (heightAll args)
  | .unary _ e => e.height + 1
  | .binary _ left right => max left.height right.height + 1

def heightAll : List Expr → Nat
  | [] => 0
  | e :: es => max (e.height + 1) (heightAll es)

end

/-- How many links follow one another from an expression on: steps that the parser takes without nesting. -/
def spine : Expr → Nat
  | .member object _ => object.spine + 1
  | .index object _ => object.spine + 1
  | .call callee _ => callee.spine + 1
  | .binary _ left right => max left.spine right.spine + 1
  | .number _ | .text _ | .bool _ | .ident _ | .array _ | .unary .. => 0

mutual

/-- The length of the longest run of links in an expression. -/
def longest : Expr → Nat
  | .number _ | .text _ | .bool _ | .ident _ => 0
  | .array items => longestAll items
  | .member object _ => max (object.spine + 1) object.longest
  | .index object i => max (object.spine + 1) (max object.longest i.longest)
  | .call callee args => max (callee.spine + 1) (max callee.longest (longestAll args))
  | .unary _ e => e.longest
  | .binary _ left right => max (max left.spine right.spine + 1) (max left.longest right.longest)

def longestAll : List Expr → Nat
  | [] => 0
  | e :: es => max e.longest (longestAll es)

end

theorem spine_le_longest (e : Expr) : e.spine ≤ e.longest := by
  cases e with
  | number | text | bool | ident | array | unary => exact Nat.zero_le _
  | member | index | call | binary => exact Nat.le_max_left _ _

theorem spine_le_height (e : Expr) : e.spine ≤ e.height := by
  match e with
  | .number _ | .text _ | .bool _ | .ident _ | .array _ | .unary .. => exact Nat.zero_le _
  | .member object name => exact Nat.succ_le_succ object.spine_le_height
  | .index object i =>
    have hobject := object.spine_le_height
    rw [spine, height]
    omega
  | .call callee args =>
    have hcallee := callee.spine_le_height
    rw [spine, height]
    omega
  | .binary op left right =>
    have hleft := left.spine_le_height
    have hright := right.spine_le_height
    rw [spine, height]
    omega

mutual

theorem longest_le_height (e : Expr) : e.longest ≤ e.height := by
  match e with
  | .number _ | .text _ | .bool _ | .ident _ => exact Nat.zero_le _
  | .array items => exact longestAll_le_heightAll items
  | .member object name =>
    have hspine := object.spine_le_height
    have hobject := longest_le_height object
    rw [longest, height]
    omega
  | .index object i =>
    have hspine := object.spine_le_height
    have hobject := longest_le_height object
    have hi := longest_le_height i
    rw [longest, height]
    omega
  | .call callee args =>
    have hspine := callee.spine_le_height
    have hcallee := longest_le_height callee
    have hargs := longestAll_le_heightAll args
    rw [longest, height]
    omega
  | .unary op e => exact Nat.le_succ_of_le (longest_le_height e)
  | .binary op left right =>
    have hleft := longest_le_height left
    have hright := longest_le_height right
    have hspine := left.spine_le_height
    have hspine' := right.spine_le_height
    rw [longest, height]
    omega

theorem longestAll_le_heightAll (es : List Expr) : longestAll es ≤ heightAll es := by
  match es with
  | [] => exact Nat.zero_le _
  | e :: es =>
    have he := longest_le_height e
    have hes := longestAll_le_heightAll es
    rw [longestAll, heightAll]
    omega

end

theorem le_groupNesting (e : Expr) (k n : Nat) : n ≤ e.groupNesting k n := by
  unfold groupNesting
  split
  · exact Nat.le_refl n
  · exact Nat.le_succ n

variable {m : Nat}

theorem linked_le {e : Expr} {n : Nat} (k : Nat) (h : e.height ≤ e.spine + e.nesting * (m + 1))
    (hn : e.groupNesting k e.nesting ≤ n) : e.height ≤ e.spine + n * (m + 1) := by
  have hmul := Nat.mul_le_mul_right (m + 1) (Nat.le_trans (e.le_groupNesting k e.nesting) hn)
  exact Nat.le_trans h (Nat.add_le_add_left hmul _)

theorem nested_le {h r n n' : Nat} (hheight : h ≤ r + n * (m + 1)) (hrun : r ≤ m) (hn : n + 1 ≤ n') :
    h + 1 ≤ n' * (m + 1) := by
  have hmul : (n + 1) * (m + 1) ≤ n' * (m + 1) := Nat.mul_le_mul_right _ hn
  rw [Nat.succ_mul] at hmul
  omega

mutual

/-- Below the links that an expression starts with, every level of nesting adds one step and a run. -/
theorem height_le (e : Expr) (h : e.longest ≤ m) : e.height ≤ e.spine + e.nesting * (m + 1) := by
  match e with
  | .number _ | .text _ | .bool _ | .ident _ => exact Nat.zero_le _
  | .array items =>
    rw [height, spine, nesting, Nat.zero_add]
    exact heightAll_le items h
  | .member object name =>
    rw [longest] at h
    have hobject := linked_le 0 (height_le object (by omega)) (Nat.le_refl _)
    rw [height, spine, nesting]
    omega
  | .index object i =>
    rw [longest] at h
    have hrun := i.spine_le_longest
    have hobject : object.height ≤ object.spine + (Expr.index object i).nesting * (m + 1) :=
      linked_le 0 (height_le object (by omega)) (by rw [nesting]; exact Nat.le_max_left _ _)
    have hi : i.height + 1 ≤ (Expr.index object i).nesting * (m + 1) :=
      nested_le (height_le i (by omega)) (by omega) (by rw [nesting]; exact Nat.le_max_right _ _)
    rw [height, spine]
    omega
  | .call callee args =>
    rw [longest] at h
    have hargs := heightAll_le args (by omega)
    have hcallee : callee.height ≤ callee.spine + (Expr.call callee args).nesting * (m + 1) :=
      linked_le 0 (height_le callee (by omega)) (by rw [nesting]; exact Nat.le_max_left _ _)
    have hmul : nestingAll args * (m + 1) ≤ (Expr.call callee args).nesting * (m + 1) :=
      Nat.mul_le_mul_right _ (by rw [nesting]; exact Nat.le_max_right _ _)
    rw [height, spine]
    omega
  | .unary op e =>
    have hrun := e.spine_le_longest
    rw [longest] at h
    have he := nested_le (height_le e h) (by omega) (Nat.succ_le_succ (e.le_groupNesting 1 e.nesting))
    rw [height, spine, nesting, Nat.zero_add]
    exact he
  | .binary op left right =>
    rw [longest] at h
    have hleft : left.height ≤ left.spine + (Expr.binary op left right).nesting * (m + 1) :=
      linked_le (op.level + 2) (height_le left (by omega)) (by rw [nesting]; exact Nat.le_max_left _ _)
    have hright : right.height ≤ right.spine + (Expr.binary op left right).nesting * (m + 1) :=
      linked_le (op.level + 1) (height_le right (by omega)) (by rw [nesting]; exact Nat.le_max_right _ _)
    rw [height, spine]
    omega

theorem heightAll_le (es : List Expr) (h : longestAll es ≤ m) :
    heightAll es ≤ nestingAll es * (m + 1) := by
  match es with
  | [] => exact Nat.zero_le _
  | e :: es =>
    rw [longestAll] at h
    have hrun := e.spine_le_longest
    have hfirst : e.height + 1 ≤ nestingAll (e :: es) * (m + 1) := by
      refine nested_le (height_le e (by omega)) (by omega) ?_
      rw [nestingAll]
      exact Nat.le_max_left _ _
    have hrest : nestingAll es * (m + 1) ≤ nestingAll (e :: es) * (m + 1) := by
      rw [nestingAll]
      exact Nat.mul_le_mul_right _ (Nat.le_max_right _ _)
    have hes := heightAll_le es (by omega)
    rw [heightAll]
    omega

end

end Expr

namespace Stmt

mutual

def height : Stmt → Nat
  | .declare _ none => 0
  | .declare _ (some e) => e.height + 1
  | .assign _ e => e.height + 1
  | .expr e => e.height + 1
  | .branch condition thens elses => max (condition.height + 1) (max (heightAll thens) (heightAll elses))

def heightAll : List Stmt → Nat
  | [] => 0
  | s :: ss => max (s.height + 1) (heightAll ss)

end

mutual

def longest : Stmt → Nat
  | .declare _ none => 0
  | .declare _ (some e) => e.longest
  | .assign _ e => e.longest
  | .expr e => e.longest
  | .branch condition thens elses => max condition.longest (max (longestAll thens) (longestAll elses))

def longestAll : List Stmt → Nat
  | [] => 0
  | s :: ss => max s.longest (longestAll ss)

end

mutual

theorem longest_le_height (s : Stmt) : s.longest ≤ s.height := by
  match s with
  | .declare _ none => exact Nat.zero_le _
  | .declare _ (some e) | .assign _ e | .expr e => exact Nat.le_succ_of_le e.longest_le_height
  | .branch condition thens elses =>
    have hcondition := condition.longest_le_height
    have hthens := longestAll_le_heightAll thens
    have helses := longestAll_le_heightAll elses
    rw [longest, height]
    omega

theorem longestAll_le_heightAll (ss : List Stmt) : longestAll ss ≤ heightAll ss := by
  match ss with
  | [] => exact Nat.zero_le _
  | s :: ss =>
    have hs := longest_le_height s
    have hss := longestAll_le_heightAll ss
    rw [longestAll, heightAll]
    omega

end

variable {m : Nat}

theorem height_expr_le {e : Expr} {n : Nat} (h : e.longest ≤ m) (hn : e.nesting + 1 ≤ n) :
    e.height + 1 ≤ n * (m + 1) :=
  Expr.nested_le (e.height_le h) (Nat.le_trans e.spine_le_longest h) hn

mutual

theorem height_le (s : Stmt) (h : s.longest ≤ m) : s.height ≤ s.nesting * (m + 1) := by
  match s with
  | .declare _ none => exact Nat.zero_le _
  | .declare _ (some e) | .assign _ e | .expr e =>
    rw [height, nesting]
    exact height_expr_le h (Nat.le_refl _)
  | .branch condition thens elses =>
    rw [longest] at h
    have hcondition : condition.height + 1 ≤ (Stmt.branch condition thens elses).nesting * (m + 1) := by
      refine height_expr_le (by omega) ?_
      rw [nesting]
      exact Nat.le_max_left _ _
    have hbranch {n : Nat} (hn : n ≤ max (nestingAll thens) (nestingAll elses)) :
        (n + 1) * (m + 1) ≤ (Stmt.branch condition thens elses).nesting * (m + 1) := by
      rw [nesting]
      exact Nat.mul_le_mul_right _ (Nat.le_trans (Nat.succ_le_succ hn) (Nat.le_max_right _ _))
    have hthens := Nat.le_trans (heightAll_le thens (by omega)) (hbranch (Nat.le_max_left _ _))
    have helses := Nat.le_trans (heightAll_le elses (by omega)) (hbranch (Nat.le_max_right _ _))
    rw [height]
    exact Nat.max_le.mpr ⟨hcondition, Nat.max_le.mpr ⟨hthens, helses⟩⟩

theorem heightAll_le (ss : List Stmt) (h : longestAll ss ≤ m) :
    heightAll ss ≤ (nestingAll ss + 1) * (m + 1) := by
  match ss with
  | [] => exact Nat.zero_le _
  | s :: ss =>
    rw [longestAll] at h
    have hfirst : s.height + 1 ≤ (nestingAll (s :: ss) + 1) * (m + 1) := by
      refine Expr.nested_le (r := 0) (Nat.le_trans (height_le s (by omega)) (Nat.le_add_left _ 0))
        (Nat.zero_le m) ?_
      rw [nestingAll]
      exact Nat.succ_le_succ (Nat.le_max_left _ _)
    have hrest : (nestingAll ss + 1) * (m + 1) ≤ (nestingAll (s :: ss) + 1) * (m + 1) := by
      rw [nestingAll]
      exact Nat.mul_le_mul_right _ (Nat.succ_le_succ (Nat.le_max_right _ _))
    have hss := heightAll_le ss (by omega)
    rw [heightAll]
    omega

end

end Stmt

end IconMotion.Expression
