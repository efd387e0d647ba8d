import DocQuery.Token.Basic

/-!
# Operators and the ladder of levels

Scalar expressions bind at fourteen levels, from the conditional, which binds loosest, to literals,
references and calls. `Level.tighter` climbs the ladder by one.
-/

namespace DocQuery

/-- The levels at which scalar expressions bind, loosest first. -/
inductive Level where
  | conditional | coalesce | concat | or | and | bitOr | bitXor | bitAnd | equality
  /-- Comparisons, `BETWEEN` and `IN`. -/
  | relational
  | additive | multiplicative
  /-- Prefix operators. -/
  | unary
  /-- Literals, references, calls, and access behind them. -/
  | primary
deriving DecidableEq, Repr

namespace Level

/-- The rung of the ladder: higher binds tighter. -/
def rung : Level → Nat
  | conditional => 0
  | coalesce => 1
  | concat => 2
  | .or => 3
  | .and => 4
  | bitOr => 5
  | bitXor => 6
  | bitAnd => 7
  | equality => 8
  | relational => 9
  | additive => 10
  | multiplicative => 11
  | unary => 12
  | primary => 13

/-- The next tighter level; the tightest is its own. -/
def tighter : Level → Level
  | conditional => coalesce
  | coalesce => concat
  | concat => .or
  | .or => .and
  | .and => bitOr
  | bitOr => bitXor
  | bitXor => bitAnd
  | bitAnd => equality
  | equality => relational
  | relational => additive
  | additive => multiplicative
  | multiplicative => unary
  | unary => primary
  | primary => primary

end Level

/-- Infix operators. -/
inductive BinaryOp where
  | add | subtract | multiply | divide | modulo
  | bitAnd | bitOr | bitXor
  | equal | notEqual | less | lessOrEqual | greater | greaterOrEqual
  | and | or
  | concat
  /-- The first operand unless it is missing. A reading of query text gives `Scalar.coalesce`
  instead. -/
  | coalesce
deriving DecidableEq, Repr

namespace BinaryOp

/-- The token that stands for the operator. -/
def token : BinaryOp → Token
  | add => .mark .plus
  | subtract => .mark .minus
  | multiply => .mark .star
  | divide => .mark .slash
  | modulo => .mark .percent
  | bitAnd => .mark .ampersand
  | bitOr => .mark .pipe
  | bitXor => .mark .caret
  | equal => .mark .equal
  | notEqual => .mark .notEqual
  | less => .mark .less
  | lessOrEqual => .mark .lessOrEqual
  | greater => .mark .greater
  | greaterOrEqual => .mark .greaterOrEqual
  | .and => .keyword .and
  | .or => .keyword .or
  | concat => .mark .doublePipe
  | coalesce => .mark .doubleQuestion

/-- The level at which an application of the operator binds. -/
def level : BinaryOp → Level
  | multiply | divide | modulo => .multiplicative
  | add | subtract => .additive
  | less | lessOrEqual | greater | greaterOrEqual => .relational
  | equal | notEqual => .equality
  | bitAnd => .bitAnd
  | bitXor => .bitXor
  | bitOr => .bitOr
  | .and => .and
  | .or => .or
  | concat => .concat
  | coalesce => .coalesce

/-- The operator that a token stands for between operands of the level above `level`. -/
def ofToken? (level : Level) (token : Token) : Option BinaryOp :=
  match level, token with
  | .concat, .mark .doublePipe => some concat
  | .or, .keyword .or => some .or
  | .and, .keyword .and => some .and
  | .bitOr, .mark .pipe => some bitOr
  | .bitXor, .mark .caret => some bitXor
  | .bitAnd, .mark .ampersand => some bitAnd
  | .equality, .mark .equal => some equal
  | .equality, .mark .notEqual => some notEqual
  | .relational, .mark .less => some less
  | .relational, .mark .lessOrEqual => some lessOrEqual
  | .relational, .mark .greater => some greater
  | .relational, .mark .greaterOrEqual => some greaterOrEqual
  | .additive, .mark .plus => some add
  | .additive, .mark .minus => some subtract
  | .multiplicative, .mark .star => some multiply
  | .multiplicative, .mark .slash => some divide
  | .multiplicative, .mark .percent => some modulo
  | _, _ => none

theorem level_of_ofToken? {level : Level} {token : Token} {op : BinaryOp}
    (h : ofToken? level token = some op) : op.level = level ∧ op.token = token := by
  unfold ofToken? at h
  split at h <;> cases h <;> exact ⟨rfl, rfl⟩

end BinaryOp

/-- Prefix operators. -/
inductive UnaryOp where
  | bitNot | minus | not | plus
deriving DecidableEq, Repr

namespace UnaryOp

/-- The token that stands for the operator. -/
def token : UnaryOp → Token
  | bitNot => .mark .tilde
  | minus => .mark .minus
  | .not => .keyword .not
  | plus => .mark .plus

/-- The operator that a token stands for in front of an operand. -/
def ofToken? : Token → Option UnaryOp
  | .mark .plus => some plus
  | .mark .minus => some minus
  | .mark .tilde => some bitNot
  | .keyword .not => some .not
  | _ => none

theorem token_of_ofToken? {token : Token} {op : UnaryOp} (h : ofToken? token = some op) :
    op.token = token := by
  unfold ofToken? at h
  split at h <;> cases h <;> rfl

end UnaryOp

end DocQuery
