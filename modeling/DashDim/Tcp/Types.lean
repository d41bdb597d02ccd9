import DashDim.Lib.Bytes
import Mathlib.Data.Int.Notation

/-!
# Connections and what is read from them

The status of a connection, as in `tcp/tcp_types.h`, the times of its clock, and what
`read()` returns when it is called again and again on a socket that does not block.
-/

namespace DashDim

/-- A time, or a difference of times, in microseconds. -/
abbrev Time := ℤ

/-- `QuicTime::Delta::ToMilliseconds`: rounded towards zero. -/
def toMilliseconds (delta : Time) : ℤ := delta.tdiv 1000

/-- `FromMilliseconds`. -/
def fromMilliseconds (ms : ℤ) : Time := ms * 1000

/-- `TcpConnectionStatus`. -/
inductive TcpConnectionStatus
  | tcpStatusMin
  | tcpConnecting
  | tcpConnected
  | tcpDisconnect
  deriving DecidableEq, Repr

/-- A result of `read()`: some bytes, or the end of the stream. In a list of results, the
    one after the last is that there is nothing more now, or an error. -/
inductive ReadResult
  | data (first : UInt8) (rest : Bytes)
  | eof
  deriving DecidableEq, Repr

namespace ReadResult

/-- The bytes read before the end of the stream. -/
def bytes : List ReadResult → Bytes
  | [] => []
  | data first rest :: reads => first :: rest ++ bytes reads
  | eof :: _ => []

end ReadResult

end DashDim
