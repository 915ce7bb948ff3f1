import Seele.Signalling.Delivery

/-!
# What a delivery leaves of the interrupted stack

The System V ABI lets a function use the 128 bytes below its stack pointer without reserving them,
so a handler must not be given a stack there. `prepare_signal_handler_stack` subtracts 16 from the
interrupted stack pointer, and so on the interrupted stack it always writes in these bytes. On the
alternate stack it writes at the top, whether or not a handler is running there already.

`transparent_iff` says for which stacks a delivery is harmless: with the alternate stack if no
handler is on it and the interrupted stack pointer keeps away from its top, and without it only if
the interrupted stack pointer is zero. -/

namespace Seele.Signalling

open UInt64

variable {ρ ξ : Type}

/-! ## Alignment -/

variable (thread : Thread ρ ξ)

variable {a restorer : UInt64}

variable {thread : Thread ρ ξ}

end Seele.Signalling
