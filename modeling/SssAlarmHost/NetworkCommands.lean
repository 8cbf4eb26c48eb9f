import Mathlib.Data.List.Basic
import SssAlarmHost.MachineRuns
import SssAlarmHost.UdpSession

namespace ResourceLedger

inductive Op (H : Type) where
  | acquire (h : H)
  | release (h : H)

variable {H K : Type} [DecidableEq H] [DecidableEq K]

def play (live : List H) : List (Op H) → List H
  | [] => live
  | .acquire h :: ops => play (h :: live) ops
  | .release h :: ops => play (live.erase h) ops

-- None when an invocation releases a handle that it does not hold.
def hold (held : List H) : List (Op H) → Option (List H)
  | [] => some held
  | .acquire h :: ops => hold (h :: held) ops
  | .release h :: ops => if h ∈ held then hold (held.erase h) ops else none

end ResourceLedger

namespace SssAlarmHost.NetworkCommands
open FrameParser MachineRuns OutputLoops ResourceLedger UdpHandler

-- An AT response by its address, or a socket by its descriptor.
inductive Handle where
  | resp (address : UInt32)
  | socket (fd : Int)
  deriving DecidableEq

inductive Kind where
  | resp
  | socket
  deriving DecidableEq

def Handle.kind : Handle → Kind
  | .resp _ => .resp
  | .socket _ => .socket

-- A failed accept is only printed: the session goes on with the descriptor -1.
def accepted : Option Nat → Int
  | none => -1
  | some clientfd => clientfd

def opened (clientfd : Option Nat) : List (Op Handle) := clientfd.toList.map fun fd => .acquire (.socket fd)

def closes (sockfd : Nat) (events : List Event) : List (Op Handle) :=
  events.filterMap fun e => if e = .closesocket then some (.release (.socket sockfd)) else none

variable {w : World}

end SssAlarmHost.NetworkCommands
