import Woody.Net.Buffer

/-!
# Closing a connection

Of `muduo::net::TcpConnection` the handlers use the state and `forceClose`,
which only queues the close: it takes effect when the loop gets to run its
functors, after the callback that asked for it has returned.
-/

namespace Woody

inductive ConnectionState where
  | disconnected
  | connecting
  | connected
  | disconnecting
  deriving DecidableEq

structure TcpConnection where
  state : ConnectionState
  /-- The number of `forceCloseInLoop` functors in the loop's queue. -/
  queuedCloses : Nat
  deriving DecidableEq

namespace TcpConnection

def forceClose (conn : TcpConnection) : TcpConnection :=
  if conn.state = .connected ∨ conn.state = .disconnecting then
    { state := .disconnecting, queuedCloses := conn.queuedCloses + 1 }
  else
    conn

end TcpConnection

end Woody
