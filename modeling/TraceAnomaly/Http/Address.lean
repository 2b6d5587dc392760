import TraceAnomaly.Text.Front
import TraceAnomaly.Decimal.Basic

/-! The addresses that a server can listen on: a host and a port, or a port alone for every
interface. -/
namespace TraceAnomaly.Http

/-- The address to listen on. Without a host it is every interface, and without anything the usual
port. -/
def listenAddress (address : String) : String :=
  match address.toList with
  | [] => "0.0.0.0:8080"
  | ':' :: _ => "0.0.0.0" ++ address
  | _ => address

/-- Whether a text is a port number. -/
def isPort (cs : List Char) : Bool := (Decimal.natural? cs).any (· < 65536)

/-- Whether a text is a byte in decimal. -/
def isOctet (cs : List Char) : Bool :=
  cs ≠ [] && cs.length ≤ 3 && cs.all Decimal.isDigit && Decimal.ofDigits cs < 256

/-- Whether a host is the machine itself or all of its interfaces. -/
def isOwnHost (cs : List Char) : Bool :=
  match String.ofList cs with
  | "localhost" | "0.0.0.0" | "[::]" | "[::1]" => true
  | _ =>
    match cs.splitOn '.' with
    | [a, b, c, d] => a = "127".toList && [b, c, d].all isOctet
    | _ => false

/-- Whether a server can listen on an address. -/
def isListenable (address : String) : Bool :=
  let back := address.toList.reverse
  match back.dropWhile (· ≠ ':') with
  | [] => false
  | _ :: host => isPort (back.takeWhile (· ≠ ':')).reverse && isOwnHost host.reverse

/-- Why a server cannot start. -/
structure ListenError where
  address : String
deriving DecidableEq, Repr

def ListenError.message (e : ListenError) : String := s!"listening on {e.address}"

/-- The address that a server listens on when it is configured with a given one. -/
def listen (address : String) : Except ListenError String :=
  if isListenable (listenAddress address) then .ok (listenAddress address)
  else .error ⟨listenAddress address⟩

end TraceAnomaly.Http
