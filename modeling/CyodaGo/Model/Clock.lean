import Mathlib.Order.Defs.LinearOrder
import Mathlib.Algebra.Group.Int.Defs
import Mathlib.Algebra.Group.Nat.Defs

/-! # Clock arithmetic

Points in time are nanoseconds since the Unix epoch; durations are 64 bits wide, as in Go. -/

namespace CyodaGo

abbrev Duration := Int64

/-- `Time.Sub` saturates at the largest and the smallest duration. -/
def timeSub (t u : Int) : Duration := Int64.ofInt (max (-2 ^ 63) (min (2 ^ 63 - 1) (t - u)))

def timeAdd (t : Int) (d : Duration) : Int := t + d.toInt

/-- `time.Unix(sec, 0)`. Inside a `Time` the seconds count from the year 1, and wrap. -/
def timeUnix (sec : Int64) : Int := ((sec + 62135596800).toInt - 62135596800) * 1000000000

/-- `Time.Unix`. -/
def unixOf (t : Int) : Int64 := Int64.ofInt (t / 1000000000)

end CyodaGo
