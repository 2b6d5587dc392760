import TraceAnomaly.Http.Message
import TraceAnomaly.Json.Text
import TraceAnomaly.Text.Front

/-! The places of a server that requests can go to. -/
namespace TraceAnomaly.Http

inductive Route where
  | update
  | updateAll
  /-- The statistics of one function, by the text that stands for its number. -/
  | value (id : List Char)
  | values
  | addAbnormal
  | addAbnormalAll
  | clear
  | dump
  | shutdown
  | metrics
  | health
deriving DecidableEq, Repr

namespace Route

/-- The route of a target. What follows a question mark does not matter. -/
def ofTarget (target : String) : Option Route :=
  match String.ofList (target.toList.takeWhile (· ≠ '?')) with
  | "/update" => some update
  | "/update_all" => some updateAll
  | "/stat" => some values
  | "/add_abnormal" => some addAbnormal
  | "/add_abnormal_all" => some addAbnormalAll
  | "/clear" => some clear
  | "/dump" => some dump
  | "/shutdown" => some shutdown
  | "/metrics" => some metrics
  | "/healthz" => some health
  | path =>
    match Text.dropText "/stat/".toList path.toList with
    | some id => if id = [] ∨ id.contains '/' then none else some (value id)
    | none => none

/-- Whether a route takes a method. What can be got can also be asked for without its body. -/
def accepts (route : Route) (method : String) : Bool :=
  match route with
  | metrics | health => method = "GET" ∨ method = "HEAD"
  | _ => method = "POST"

/-- The name of a route in the server's metrics. -/
def name : Route → String
  | update => "update"
  | updateAll => "update_all"
  | value _ => "stat"
  | values => "stat_all"
  | addAbnormal => "add_abnormal"
  | addAbnormalAll => "add_abnormal_all"
  | clear => "clear"
  | dump => "dump"
  | shutdown => "shutdown"
  | metrics => "metrics"
  | health => "healthz"

end Route

/-- The bytes of a text in which `%` and two hexadecimal digits stand for a byte. -/
def percentBytes : List Char → List UInt8
  | '%' :: a :: b :: cs =>
    if Json.isHexDigit a && Json.isHexDigit b then
      UInt8.ofNat (16 * Json.hexValue a + Json.hexValue b) :: percentBytes cs
    else '%'.toUInt8 :: percentBytes (a :: b :: cs)
  | c :: cs => Text.encode [c] ++ percentBytes cs
  | [] => []

/-- The number that a piece of a path stands for. -/
def pathId (cs : List Char) : Option UInt64 := (Text.decode (percentBytes cs)).bind Decimal.word?

end TraceAnomaly.Http
