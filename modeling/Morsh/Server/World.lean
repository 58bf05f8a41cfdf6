import Morsh.Server.Server

/-!
# Client and server

The client's end of the session and the server, each reading what the other has
put on the network. The client is any sequence of operations of its transport,
from the stream and the screen its `main` starts with.
-/

namespace Morsh

structure World (T : Type) where
  client : Endpoint UserStream (Complete T) UserEvent
  server : Server T

inductive WorldOp where
  | client (op : EndpointOp UserEvent)
  | server (op : ServerOp)

namespace World

variable {T : Type} [Emulator T] [ProstMessage HostMessage] [ProstMessage UserMessage]

/-- The stream the client builds its transport from. -/
def firstStream (cols rows : Nat) : UserStream :=
  UserStream.new.push (.resize (Int32.ofNat cols) (Int32.ofNat rows))

/-- A client on a terminal of `cols` by `rows` and a server waiting for it.
The client knows the server's address; the server learns the client's. -/
def start (now serverNow : Nat) (cols rows : Nat) (screen terminal : Complete T) : World T where
  client := .start now ⟨true, now, 0⟩ (firstStream cols rows) screen
  server := .start serverNow ⟨false, serverNow, 0⟩ terminal

def step (w : World T) : WorldOp → Option (World T)
  | .client op =>
      (w.client.step UserStream.push w.server.endpoint.sent op).map fun x => { w with client := x }
  | .server op =>
      if ∀ inst ∈ Server.incoming op, inst ∈ w.client.sent then
        (w.server.step op).map fun s => { w with server := s }
      else none

end World

end Morsh
