import Mathlib.Tactic

/-!
# Round-trip time estimation (`rel4u_rtt.h`, `rel4u_rtt.c`)

The Jacobson–Karels estimator on 32-bit milliseconds. Products and sums are unsigned 32-bit, the
deviation is a signed 32-bit subtraction; both wrap as the machine words do.
-/

namespace Rel4u

/-- `REL4U_RTT_DEFAULT_RTO_MS`. -/
def rttDefaultRtoMs : UInt32 := 200

/-- `REL4U_RTT_MIN_RTO_MS`. -/
def rttMinRtoMs : UInt32 := 20

/-- `REL4U_RTT_MAX_RTO_MS`. -/
def rttMaxRtoMs : UInt32 := 2000

/-- `rel4u_rtt_t`. -/
structure Rtt where
  srttMs : UInt32
  rttvarMs : UInt32
  rtoMs : UInt32
  minRtoMs : UInt32
  maxRtoMs : UInt32
  hasSample : Bool
  deriving DecidableEq, Repr, Inhabited

namespace Rtt

/-- The two final comparisons of the estimator: raise to the minimum, then cut to the maximum. -/
def clamp (r : Rtt) : Rtt :=
  let r := if r.rtoMs < r.minRtoMs then { r with rtoMs := r.minRtoMs } else r
  if r.rtoMs > r.maxRtoMs then { r with rtoMs := r.maxRtoMs } else r

/-- `rel4u_rtt_init`. -/
def init (initialRtoMs minRtoMs maxRtoMs : UInt32) : Rtt :=
  clamp
    { srttMs := 0
      rttvarMs := 0
      rtoMs := if initialRtoMs > 0 then initialRtoMs else rttDefaultRtoMs
      minRtoMs := if minRtoMs > 0 then minRtoMs else rttMinRtoMs
      maxRtoMs := if maxRtoMs > 0 then maxRtoMs else rttMaxRtoMs
      hasSample := false }

/-- The initialisation every caller uses. -/
def default : Rtt := init rttDefaultRtoMs rttMinRtoMs rttMaxRtoMs

/-- The absolute value of the signed difference of two unsigned words, as an unsigned word. -/
def absDiff (a b : UInt32) : UInt32 :=
  let diff : Int32 := a.toInt32 - b.toInt32
  (if diff < 0 then -diff else diff).toUInt32

/-- `rel4u_rtt_update_sample`. -/
def updateSample (r : Rtt) (sampleRttMs : UInt32) : Rtt :=
  let r :=
    if !r.hasSample then
      let rttvarMs := sampleRttMs / 2
      { r with
        srttMs := sampleRttMs
        rttvarMs := if rttvarMs < 1 then 1 else rttvarMs
        hasSample := true }
    else
      let rttvarMs := (3 * r.rttvarMs + absDiff r.srttMs sampleRttMs) / 4
      { r with
        rttvarMs := if rttvarMs < 1 then 1 else rttvarMs
        srttMs := (7 * r.srttMs + sampleRttMs) / 8 }
  let kVar := 4 * r.rttvarMs
  let kVar := if kVar < 1 then 1 else kVar
  clamp { r with rtoMs := r.srttMs + kVar }

/-- `rel4u_rtt_on_timeout`. -/
def onTimeout (r : Rtt) : Rtt :=
  let r := { r with rtoMs := r.rtoMs * 2 }
  if r.rtoMs > r.maxRtoMs then { r with rtoMs := r.maxRtoMs } else r

/-- `rel4u_rtt_get_rto`. -/
def getRto (r : Rtt) : UInt32 := r.rtoMs

end Rtt

end Rel4u
