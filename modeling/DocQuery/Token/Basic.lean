import DocQuery.Number.Basic
import DocQuery.Text.Quoted

/-!
# Tokens

The words of query text: literals, names, keywords, marks, and the end of the text. Keywords and
marks have one symbol each; a keyword is recognised in any mix of ASCII cases.
-/

namespace DocQuery

/-- The reserved words. -/
inductive Keyword where
  | select | distinct | top | value | as | from | in | join | where | group | by | order | asc
  | desc | offset | limit | and | or | not | between | exists | array | true | false | null
  | undefined | udf
deriving DecidableEq, Repr

namespace Keyword

/-- All reserved words. -/
def all : List Keyword := [
  .select, .distinct, .top, .value, .as, .from, .in, .join, .where, .group, .by, .order, .asc,
  .desc, .offset, .limit, .and, .or, .not, .between, .exists, .array, .true, .false, .null,
  .undefined, .udf]

/-- The word in capitals. -/
def capitals : Keyword → String
  | .select => "SELECT"
  | .distinct => "DISTINCT"
  | .top => "TOP"
  | .value => "VALUE"
  | .as => "AS"
  | .from => "FROM"
  | .in => "IN"
  | .join => "JOIN"
  | .where => "WHERE"
  | .group => "GROUP"
  | .by => "BY"
  | .order => "ORDER"
  | .asc => "ASC"
  | .desc => "DESC"
  | .offset => "OFFSET"
  | .limit => "LIMIT"
  | .and => "AND"
  | .or => "OR"
  | .not => "NOT"
  | .between => "BETWEEN"
  | .exists => "EXISTS"
  | .array => "ARRAY"
  | .true => "TRUE"
  | .false => "FALSE"
  | .null => "NULL"
  | .undefined => "UNDEFINED"
  | .udf => "UDF"

/-- The word as query text is written: constants and the mark of user-defined functions in small
letters, all else in capitals. -/
def symbol : Keyword → String
  | .true => "true"
  | .false => "false"
  | .null => "null"
  | .undefined => "undefined"
  | .udf => "udf"
  | k => k.capitals

/-- The reserved word that some characters spell, ASCII letters taken without regard to case. -/
def ofChars? (name : List Char) : Option Keyword :=
  let capitals := String.ofList (name.map Char.toUpper)
  all.find? (·.capitals == capitals)

/-- The reserved word that a name spells, ASCII letters taken without regard to case. -/
def ofName? (name : String) : Option Keyword := ofChars? name.toList

end Keyword

/-- Punctuation and operators. -/
inductive Mark where
  | star | comma | dot | colon | leftParen | rightParen | leftBracket | rightBracket | leftBrace
  | rightBrace | plus | minus | slash | percent | equal | notEqual | less | lessOrEqual | greater
  | greaterOrEqual | ampersand | pipe | caret | tilde | doublePipe | doubleQuestion | question
deriving DecidableEq, Repr

namespace Mark

def symbol : Mark → String
  | .star => "*"
  | .comma => ","
  | .dot => "."
  | .colon => ":"
  | .leftParen => "("
  | .rightParen => ")"
  | .leftBracket => "["
  | .rightBracket => "]"
  | .leftBrace => "\x7b"
  | .rightBrace => "\x7d"
  | .plus => "+"
  | .minus => "-"
  | .slash => "/"
  | .percent => "%"
  | .equal => "="
  | .notEqual => "!="
  | .less => "<"
  | .lessOrEqual => "<="
  | .greater => ">"
  | .greaterOrEqual => ">="
  | .ampersand => "&"
  | .pipe => "|"
  | .caret => "^"
  | .tilde => "~"
  | .doublePipe => "||"
  | .doubleQuestion => "??"
  | .question => "?"

end Mark

/-- A word of query text. A parameter is held without its `@`. -/
inductive Token where
  | integer (n : Int64)
  | double (x : Binary64)
  | string (value : String)
  | identifier (name : String)
  | parameter (name : String)
  | keyword (word : Keyword)
  | mark (symbol : Mark)
  | endOfText
deriving DecidableEq

namespace Token

/-- The token as messages name it. -/
def describe : Token → String
  | integer n => "number " ++ (Number.integer n).text
  | double x => "number " ++ x.text
  | string value => "string " ++ Text.showQuoted value
  | identifier name => "identifier '" ++ name ++ "'"
  | parameter name => "parameter '@" ++ name ++ "'"
  | keyword word => "'" ++ word.symbol ++ "'"
  | mark m => "'" ++ m.symbol ++ "'"
  | .endOfText => "end of input"

/-- The token as the printer writes it. -/
def spelling : Token → String
  | integer n => (Number.integer n).text
  | double x => x.text
  | string value => Text.quote value
  | identifier name => name
  | parameter name => "@" ++ name
  | keyword word => word.symbol
  | mark m => m.symbol
  | .endOfText => ""

end Token

end DocQuery
