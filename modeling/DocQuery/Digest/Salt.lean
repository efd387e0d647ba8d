import DocQuery.Tree.Basic

/-!
# Salts of digests

Every kind of node begins its digest with a number of its own; operators and flags have theirs. The
numbers are arbitrary, but stored digests depend on them.
-/

namespace DocQuery

namespace Salt

/-! ## Nodes -/

def query : UInt32 := 0x75571b90

def select : UInt32 := 0x012d159e

def selectAll : UInt32 := 0xbce4826c

def selectItems : UInt32 := 0x9a6e6ce3

def selectValue : UInt32 := 0x1e3962f8

def selectItem : UInt32 := 0xdb9292cb

def top : UInt32 := 0xd0d48cc6

def source : UInt32 := 0x03226f30

def aliased : UInt32 := 0x47a5abe5

def each : UInt32 := 0xe40d8c9a

def join : UInt32 := 0x3ba09f12

def path : UInt32 := 0xf37c37c6

def subqueryCollection : UInt32 := 0x4613b6cc

def arrayCollection : UInt32 := 0x616e9ece

def nameSegment : UInt32 := 0xa9d2a2fc

def numberSegment : UInt32 := 0x341b66a0

def stringSegment : UInt32 := 0xb3ab3552

def filter : UInt32 := 0xe1375c65

def groupKeys : UInt32 := 0x07c5b052

def sortKeys : UInt32 := 0x512a0530

def sortKey : UInt32 := 0x327592a9

def window : UInt32 := 0x08f32e03

def offset : UInt32 := 0x06802771

def limit : UInt32 := 0x0584fbe4

def literal : UInt32 := 0xf68fefe3

def unary : UInt32 := 0x2b24cf15

def binary : UInt32 := 0x635ea3a9

def between : UInt32 := 0xc7bda6eb

def conditional : UInt32 := 0xe6e2e518

def coalesce : UInt32 := 0xac83a14f

def among : UInt32 := 0x55cb4c9f

def call : UInt32 := 0x1d9c5056

def index : UInt32 := 0x5ec08662

def property : UInt32 := 0xa169e01f

def parameterScalar : UInt32 := 0x5632017e

def array : UInt32 := 0x68f5f985

def object : UInt32 := 0xf82f20b3

def null : UInt32 := 0xd5b68d30

def undefined : UInt32 := 0x4ceeb5c6

def boolean : UInt32 := 0x2c0eb611

def number : UInt32 := 0x0986e895

def string : UInt32 := 0xa4099bd5

def identifier : UInt32 := 0x9cccacf3

def parameter : UInt32 := 0x917e3550

def key : UInt32 := 0x4b42b14e

def field : UInt32 := 0x48a80c2b

/-! ## Flags -/

def true : UInt32 := 0x5c1ddf3d

def false : UInt32 := 0x84726fbd

def notBetween : UInt32 := 0xb383ea27

def notAmong : UInt32 := 0xbc903c19

def userDefined : UInt32 := 0x5c432d0b

def distinct : UInt32 := 0x577a0e71

def ascending : UInt32 := 0xbd0e6573

def descending : UInt32 := 0xd60f2c92

end Salt

/-- The number that stands for the use of a subquery. -/
def SubqueryUse.salt : SubqueryUse → UInt32
  | .exists => 0x45a89303
  | .array => 0xbed1b373
  | .value => 0xb0e0986f

/-- The number that stands for an infix operator. -/
def BinaryOp.salt : BinaryOp → UInt32
  | .add => 0x3a42a8f2
  | .subtract => 0x7b6d21c2
  | .multiply => 0xf554d26c
  | .divide => 0xa7620f4c
  | .modulo => 0xe9dfa0e0
  | .bitAnd => 0x0b7ac22c
  | .bitOr => 0xa6f0698f
  | .bitXor => 0x0865de6a
  | .equal => 0xfbdd3158
  | .notEqual => 0x03e29576
  | .less => 0xa9730050
  | .lessOrEqual => 0xc050fda4
  | .greater => 0x61f65332
  | .greaterOrEqual => 0x0ac2ca9e
  | .and => 0xdfdceb6f
  | .or => 0x831cf0d9
  | .concat => 0xe0af43c4
  | .coalesce => 0xe4789c42

/-- The number that stands for a prefix operator. -/
def UnaryOp.salt : UnaryOp → UInt32
  | .bitNot => 0x46343a43
  | .minus => 0x8c3b15d2
  | .not => 0x4c2cdaff
  | .plus => 0x0f01aac5

end DocQuery
