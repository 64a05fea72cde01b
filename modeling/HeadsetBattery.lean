import HeadsetBattery.Library.Runs
import HeadsetBattery.Library.OrderedMap
import HeadsetBattery.Library.KeyedList
import HeadsetBattery.Library.Traces
import HeadsetBattery.Library.Streaks
import HeadsetBattery.Library.Scans
import HeadsetBattery.Library.Projections
import HeadsetBattery.Library.Loops
import HeadsetBattery.Library.Beats
import HeadsetBattery.Library.Debounce
import HeadsetBattery.Library.Pipes
import HeadsetBattery.Maxwell.RequestBudget
import HeadsetBattery.Maxwell.GivingUp
import HeadsetBattery.Maxwell.Listening
import HeadsetBattery.Maxwell.Levels
import HeadsetBattery.Maxwell.Belief
import HeadsetBattery.Maxwell.WedgeWarnings
import HeadsetBattery.Maxwell.WedgeNotices
import HeadsetBattery.Maxwell.WedgeHistory
import HeadsetBattery.Maxwell.AccessErrors
import HeadsetBattery.Maxwell.ReadOnce
import HeadsetBattery.Maxwell.Samples
import HeadsetBattery.Maxwell.Sharing
import HeadsetBattery.Maxwell.Framing
import HeadsetBattery.Maxwell.Discovery
import HeadsetBattery.Headsetcontrol
import HeadsetBattery.Headsetcontrol.Child
import HeadsetBattery.Bridge.Custody
import HeadsetBattery.Bridge.Identities
import HeadsetBattery.Bridge.Servicing
import HeadsetBattery.Bridge.Graces
import HeadsetBattery.Bridge.NoRise
import HeadsetBattery.Bridge.Deferrals
import HeadsetBattery.Bridge.Slots
import HeadsetBattery.Bridge.Concerns
import HeadsetBattery.Bridge.Retries
import HeadsetBattery.Bridge.Attempts
import HeadsetBattery.Bridge.Descriptors
import HeadsetBattery.Bridge.Acceptance
import HeadsetBattery.Bridge.Independence
import HeadsetBattery.Bridge.SwitchOff
import HeadsetBattery.Bridge.Republish
import HeadsetBattery.Library.RunningMinimum
import HeadsetBattery.Bridge.LowestBelieved
import HeadsetBattery.Bridge.Settling
import HeadsetBattery.Bridge.Announcements
import HeadsetBattery.Native
import HeadsetBattery.Native.Sharing
import HeadsetBattery.Native.Cable
import HeadsetBattery.Source
import HeadsetBattery.MainLoop.Notices
import HeadsetBattery.MainLoop.Watchdog
import HeadsetBattery.MainLoop.Timeliness
import HeadsetBattery.MainLoop.Cadence
import HeadsetBattery.MainLoop.NativeLoop
