import RadarTimeline.Timing.Interval

namespace RadarTimeline

def speedOfLight : Float := 299792458

/-- The nearest range in m that is received. Only the last part of the pulse is seen there, of the
length of the code's time unit. -/
def nearestEcho (transmit receive : Interval) (baud : Float) (speed : Float := speedOfLight) :
    Float :=
  speed * (receive.start - transmit.stop + baud) / 2

def furthestEcho (transmit receive : Interval) (speed : Float := speedOfLight) : Float :=
  speed * (receive.stop - transmit.stop) / 2

end RadarTimeline
