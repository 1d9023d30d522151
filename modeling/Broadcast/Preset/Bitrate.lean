import Broadcast.Preset.Catalog
import Broadcast.Decimal.Shortest

/-!
# Bitrates

The bitrate of a stream in kilobits per second, rounded to three decimals. It
is always computed from the parameters that are shown; the published reference
of a catalog entry only stands beside it.
-/

namespace Broadcast

/-- A stream that sends nothing, because it has no interval, has bitrate zero. -/
def bitrate (octets : UInt16) (interval : UInt32) : Float :=
  if interval = 0 then 0
  else
    let raw := octets.toFloat * 8 / (interval.toFloat / 1000)
    (raw * 1000).round / 1000

def bitrateText (octets : UInt16) (interval : UInt32) : String :=
  decimalText (bitrate octets interval)

def Preset.referenceText (p : Preset) : String :=
  decimalText (Float.ofScientific p.reference true 3)

end Broadcast
