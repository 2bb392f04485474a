import IconMotion.Expression.Parser
import IconMotion.Proofs.WholeNumbers

namespace IconMotion.Expression

namespace BinaryOp

def token : BinaryOp → Token
  | mul => .star
  | div => .slash
  | mod => .percent
  | add => .plus
  | sub => .minus
  | lt => .less
  | le => .lessEqual
  | gt => .greater
  | ge => .greaterEqual
  | eq => .equal
  | ne => .notEqual
  | and => .andAnd
  | or => .orOr

def level : BinaryOp → Nat
  | mul | div | mod => 0
  | add | sub => 1
  | lt | le | gt | ge => 2
  | eq | ne => 3
  | and => 4
  | or => 5

end BinaryOp

def UnaryOp.token : UnaryOp → Token
  | neg => .minus
  | not => .bang

def isNegative (x : Float) : Bool :=
  match Precision.sign? x.toModel.unpack with
  | some .negative => true
  | _ => false

namespace Expr

/-- How loosely an expression holds together: not at all loosely, as an operand with an operator in
front, or by the level of its operator. -/
def looseness : Expr → Nat
  | .number x => if isNegative x then 1 else 0
  | .unary .. => 1
  | .binary op .. => op.level + 2
  | _ => 0

def group (k : Nat) (e : Expr) (ts : List Token) : List Token :=
  if e.looseness ≤ k then ts else .leftParen :: (ts ++ [.rightParen])

mutual

/-- The tokens of an expression, with parentheses only where an operand needs them. -/
def print : Expr → List Token
  | .number x => if isNegative x then [.minus, .number (-x)] else [.number x]
  | .text s => [.text s]
  | .bool b => [if b then .yes else .no]
  | .ident name => [.ident name]
  | .array items => .leftBracket :: (printAll items ++ [.rightBracket])
  | .member object name => group 0 object object.print ++ [.dot, .ident name]
  | .index object i => group 0 object object.print ++ .leftBracket :: (i.print ++ [.rightBracket])
  | .call callee args => group 0 callee callee.print ++ .leftParen :: (printAll args ++ [.rightParen])
  | .unary op e => op.token :: group 1 e e.print
  | .binary op left right =>
    group (op.level + 2) left left.print ++ op.token :: group (op.level + 1) right right.print

def printAll : List Expr → List Token
  | [] => []
  | [e] => e.print
  | e :: e' :: es => e.print ++ .comma :: printAll (e' :: es)

end

def groupNesting (k : Nat) (e : Expr) (n : Nat) : Nat := if e.looseness ≤ k then n else n + 1

mutual

/-- How deep the parser nests inside an expression: by groups, operands of unary operators, arguments,
indices and items. -/
def nesting : Expr → Nat
  | .number x => if isNegative x then 1 else 0
  | .text _ | .bool _ | .ident _ => 0
  | .array items => nestingAll items
  | .member object _ => groupNesting 0 object object.nesting
  | .index object i => max (groupNesting 0 object object.nesting) (i.nesting + 1)
  | .call callee args => max (groupNesting 0 callee callee.nesting) (nestingAll args)
  | .unary _ e => groupNesting 1 e e.nesting + 1
  | .binary op left right =>
    max (groupNesting (op.level + 2) left left.nesting) (groupNesting (op.level + 1) right right.nesting)

def nestingAll : List Expr → Nat
  | [] => 0
  | e :: es => max (e.nesting + 1) (nestingAll es)

end

/-- Whether the parser can return an expression: it takes a minus into a number behind it. -/
inductive Proper : Expr → Prop
  | number (x : Float) : Proper (.number x)
  | text (s : String) : Proper (.text s)
  | bool (b : Bool) : Proper (.bool b)
  | ident (name : String) : Proper (.ident name)
  | array {items : List Expr} (h : ∀ e ∈ items, Proper e) : Proper (.array items)
  | member {object : Expr} (name : String) (h : Proper object) : Proper (.member object name)
  | index {object i : Expr} (h : Proper object) (hi : Proper i) : Proper (.index object i)
  | call {callee : Expr} {args : List Expr} (h : Proper callee) (hargs : ∀ e ∈ args, Proper e) :
      Proper (.call callee args)
  | not {e : Expr} (h : Proper e) : Proper (.unary .not e)
  | neg {e : Expr} (h : Proper e) (hnumber : ∀ x, e ≠ .number x) : Proper (.unary .neg e)
  | binary (op : BinaryOp) {left right : Expr} (hleft : Proper left) (hright : Proper right) :
      Proper (.binary op left right)

end Expr

def Token.opens : Token → Bool
  | number _ | text _ | yes | no | ident _ | leftParen | leftBracket | minus | bang => true
  | _ => false

def Token.begins (t : Token) : Bool := t.opens || t = .declare || t = .ifWord

namespace Expr

variable {e : Expr} {es : List Expr} {t : Token}

theorem exists_group_cons {k : Nat} {ts : List Token} (h : ∃ t ts', ts = t :: ts' ∧ t.opens) :
    ∃ t ts', group k e ts = t :: ts' ∧ t.opens := by
  unfold group
  split
  · exact h
  · exact ⟨.leftParen, _, rfl, rfl⟩

theorem Proper.exists_cons (h : e.Proper) : ∃ t ts, e.print = t :: ts ∧ t.opens := by
  induction h with
  | number x =>
    rw [print]
    split
    · exact ⟨_, _, rfl, rfl⟩
    · exact ⟨_, _, rfl, rfl⟩
  | text s => exact ⟨_, _, rfl, rfl⟩
  | bool b => cases b <;> exact ⟨_, _, rfl, rfl⟩
  | ident name => exact ⟨_, _, rfl, rfl⟩
  | array => exact ⟨.leftBracket, _, rfl, rfl⟩
  | member _ _ ih | index _ _ ih | call _ _ ih | binary _ _ _ ih =>
    obtain ⟨t, ts, hts, ht⟩ := exists_group_cons ih
    exact ⟨t, _, by rw [print, hts, List.cons_append], ht⟩
  | not => exact ⟨.bang, _, rfl, rfl⟩
  | neg => exact ⟨.minus, _, rfl, rfl⟩

theorem mem_group {k : Nat} {ts : List Token} (h : t ∈ group k e ts) :
    t ∈ ts ∨ t = .leftParen ∨ t = .rightParen := by
  unfold group at h
  split at h
  · exact .inl h
  · simp only [List.mem_cons, List.mem_append, List.not_mem_nil, or_false] at h
    tauto

theorem mem_printAll (h : t ∈ printAll es) : t = .comma ∨ ∃ e ∈ es, t ∈ e.print := by
  induction es with
  | nil => cases h
  | cons e es ih =>
    cases es with
    | nil => exact .inr ⟨e, by simp, h⟩
    | cons e' es =>
      rw [printAll, List.mem_append, List.mem_cons] at h
      rcases h with h | h | h
      · exact .inr ⟨e, by simp, h⟩
      · exact .inl h
      · rcases ih h with h | ⟨e'', he, h⟩
        · exact .inl h
        · exact .inr ⟨e'', List.mem_cons_of_mem e he, h⟩

theorem assign_not_mem_printAll (h : ∀ e ∈ es, Token.assign ∉ e.print) : Token.assign ∉ printAll es := by
  intro hmem
  rcases mem_printAll hmem with h' | ⟨e, he, h'⟩
  · cases h'
  · exact h e he h'

theorem assign_not_mem_group {k : Nat} (h : Token.assign ∉ e.print) : Token.assign ∉ group k e e.print := by
  intro hmem
  rcases mem_group hmem with h' | h' | h'
  · exact h h'
  · cases h'
  · cases h'

theorem Proper.assign_not_mem (h : e.Proper) : Token.assign ∉ e.print := by
  induction h with
  | number x =>
    rw [print]
    split <;> simp
  | text | ident => simp [print]
  | bool b => cases b <;> simp [print]
  | array _ ih => simpa [print] using assign_not_mem_printAll ih
  | member _ _ ih => simpa [print] using assign_not_mem_group ih
  | index _ _ ih ihi => simpa [print] using ⟨assign_not_mem_group ih, ihi⟩
  | call _ _ ih ihargs => simpa [print] using ⟨assign_not_mem_group ih, assign_not_mem_printAll ihargs⟩
  | not _ ih | neg _ _ ih => simpa [print, UnaryOp.token] using assign_not_mem_group ih
  | binary op _ _ ihleft ihright =>
    have hop : Token.assign ≠ op.token := by cases op <;> nofun
    simpa [print, hop] using ⟨assign_not_mem_group ihleft, assign_not_mem_group ihright⟩

end Expr

namespace Stmt

mutual

def print (short : Bool) : Stmt → List Token
  | .declare name none => [.declare, .ident name, .semicolon]
  | .declare name (some e) => .declare :: .ident name :: .assign :: (e.print ++ [.semicolon])
  | .assign name e => .ident name :: .assign :: (e.print ++ [.semicolon])
  | .expr e => e.print ++ [.semicolon]
  | .branch condition thens elses =>
    .ifWord :: .leftParen :: (condition.print ++ .rightParen :: .leftBrace :: (printAll short thens ++
      .rightBrace :: if short && elses.isEmpty then [] else
        .elseWord :: .leftBrace :: (printAll short elses ++ [.rightBrace])))

def printAll (short : Bool) : List Stmt → List Token
  | [] => []
  | s :: ss => s.print short ++ printAll short ss

end

mutual

def nesting : Stmt → Nat
  | .declare _ none => 0
  | .declare _ (some e) => e.nesting + 1
  | .assign _ e => e.nesting + 1
  | .expr e => e.nesting + 1
  | .branch condition thens elses =>
    max (condition.nesting + 1) (max (nestingAll thens) (nestingAll elses) + 1)

def nestingAll : List Stmt → Nat
  | [] => 0
  | s :: ss => max s.nesting (nestingAll ss)

end

inductive Proper : Stmt → Prop
  | declare (name : String) {value : Option Expr} (h : ∀ e ∈ value, e.Proper) : Proper (.declare name value)
  | assign (name : String) {e : Expr} (h : e.Proper) : Proper (.assign name e)
  | expr {e : Expr} (h : e.Proper) : Proper (.expr e)
  | branch {condition : Expr} {thens elses : List Stmt} (h : condition.Proper)
      (hthens : ∀ s ∈ thens, Proper s) (helses : ∀ s ∈ elses, Proper s) :
      Proper (.branch condition thens elses)

theorem Proper.exists_cons {s : Stmt} (h : s.Proper) (short : Bool) :
    ∃ t ts, s.print short = t :: ts ∧ t.begins := by
  cases h with
  | @declare name value =>
    cases value with
    | none => exact ⟨.declare, _, rfl, rfl⟩
    | some e => exact ⟨.declare, _, rfl, rfl⟩
  | assign name => exact ⟨.ident name, _, rfl, rfl⟩
  | expr h =>
    obtain ⟨t, ts, hts, ht⟩ := h.exists_cons
    exact ⟨t, ts ++ [.semicolon], by rw [print, hts]; rfl, by simp [Token.begins, ht]⟩
  | branch => exact ⟨.ifWord, _, rfl, rfl⟩

end Stmt

end IconMotion.Expression
