import KernelFusion.Error

/-!
The pool of numbered channels. An edge in flight holds one; the lowest free one is handed out. Every call
answers with the pool behind it.
-/

namespace KernelFusion

/-- The channels that are held, each with its edge. -/
structure Channels where
  live : List (Nat × Nat)
  deriving DecidableEq

namespace Channels

/-- All channels, lowest first. -/
def all : List Nat := [1, 2, 3, 4, 5, 6, 7, 8]

def none : Channels := ⟨[]⟩

def holds (c : Channels) (channel : Nat) : Bool := c.live.any fun h => h.1 == channel

/-- Hands out the lowest free channel. -/
def acquire (c : Channels) (e : Edge) : Except Error Nat × Channels :=
  match all.find? fun channel => !c.holds channel with
  | some channel => (.ok channel, ⟨(channel, e.id) :: c.live⟩)
  | Option.none => (.error (.channelExhausted e), c)

/-- Takes a channel back and tells which edge held it. -/
def release (c : Channels) (channel : Nat) : Option Nat × Channels :=
  ((c.live.find? fun h => h.1 == channel).map Prod.snd, ⟨c.live.filter fun h => h.1 != channel⟩)

def inFlight (c : Channels) : Nat := c.live.length

end Channels

end KernelFusion
