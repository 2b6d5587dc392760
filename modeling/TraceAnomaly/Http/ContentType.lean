import TraceAnomaly.Text.Front

/-! Content types. A media type is a type and a subtype, both of them tokens, and parameters behind
semicolons. What does not have this form announces nothing. -/
namespace TraceAnomaly.Http

open Text (splitWhile)

/-- The characters of tokens. -/
def isTokenChar (c : Char) : Bool := c.isAlphanum || "!#$%&'*+-.^_`|~".toList.contains c

/-- The characters that can stand between quotes. -/
def isQuotable (c : Char) : Bool := ' ' ≤ c && c ≤ '~'

/-- Where a reader is among the parameters of a media type. -/
inductive ParameterPlace where
  /-- In front of a parameter, where blanks may stand. -/
  | gap
  | name
  /-- Behind the sign between a name and its value. -/
  | value
  /-- In a value without quotes. -/
  | token
  /-- Behind the first quote. What comes next is not the second one, whatever it is. -/
  | quote
  | quoted
  /-- Behind the second quote. -/
  | closed
deriving DecidableEq, Repr

namespace ParameterPlace

def step : ParameterPlace → Char → Option ParameterPlace
  | gap, c => if c = ' ' then some gap else if isTokenChar c then some name else none
  | name, c => if c = '=' then some value else if isTokenChar c then some name else none
  | value, c => if c = '"' then some quote else if isTokenChar c then some token else none
  | token, c => if c = ';' then some gap else if isTokenChar c then some token else none
  | quote, c => if isQuotable c then some quoted else none
  | quoted, c => if c = '"' then some closed else if isQuotable c then some quoted else none
  | closed, c => if c = ';' then some gap else if c = ' ' then some closed else none

/-- Whether the parameters can end here. -/
def canEnd : ParameterPlace → Bool
  | gap | value | token | closed => true
  | name | quote | quoted => false

end ParameterPlace

def areParameters (cs : List Char) : Bool := (cs.foldlM ParameterPlace.step .gap).any (·.canEnd)

/-- Whether a subtype is that of JSON, or one in whose format it is. The format stands behind the last
plus sign, unless the subtype starts with it. -/
def isJsonSubtype (subtype : List Char) : Bool :=
  match splitWhile (· ≠ '+') subtype.reverse with
  | (_, []) => subtype = "json".toList
  | (format, _ :: front) =>
    front ≠ [] && (front.reverse = "json".toList || format.reverse = "json".toList)

/-- Lower-case letters instead of upper-case ones, for ASCII. -/
def lowerAscii (cs : List Char) : List Char := cs.map Char.toLower

/-- Drops the blanks at both ends of a header. -/
def trimHeader (cs : List Char) : List Char :=
  let isGap (c : Char) : Bool := c = ' ' || c = '\t'
  ((cs.dropWhile isGap).reverse.dropWhile isGap).reverse

/-- Whether a content type announces JSON, in whatever case. Its parameters do not matter, but they
must be some. -/
def isJson (contentType : String) : Bool :=
  match splitWhile isTokenChar (trimHeader contentType.toList) with
  | (type, '/' :: rest) =>
    let (subtype, parameters) := splitWhile isTokenChar rest
    lowerAscii type = "application".toList && isJsonSubtype (lowerAscii subtype) &&
      match parameters with
      | [] => true
      | ';' :: parameters => areParameters parameters
      | _ => false
  | _ => false

end TraceAnomaly.Http
