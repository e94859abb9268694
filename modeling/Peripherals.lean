import Peripherals.Execution
import Peripherals.Mailbox
import Peripherals.WebSockets.CommandInterface
import Peripherals.WebSockets.Correlation
import Peripherals.PluginInterface
import Peripherals.Synchro.ApiLock
import Peripherals.Synchro.Balance
import Peripherals.Synchro.Release
import Peripherals.FrontPanel.Device
import Peripherals.Synchro.Iarm
import Peripherals.FrontPanel.CFrontPanel
import Peripherals.FrontPanel.BlinkInvariant
import Peripherals.FrontPanel.StopRace
import Peripherals.Lines
import Peripherals.Settings.CSettings
import Peripherals.UtilsFile
import Peripherals.Settings.RoundTrip
import Peripherals.Settings.Persistence
import Peripherals.Settings.Failure
import Peripherals.MotionDetection.ActivePeriod
import Peripherals.TpTimer
import Peripherals.MotionDetection.Lifetime
import Peripherals.WebSockets.Connection
import Peripherals.WebSockets.PingPong
import Peripherals.FrontPanel.Playback
import Peripherals.TpTimer.Restart
import Peripherals.WebSockets.Addressing
import Peripherals.Attempt
import Peripherals.FrontPanel.Hardware
import Peripherals.FrontPanel.Lights
import Peripherals.FrontPanel.PowerCycle
import Peripherals.FrontPanel.LightRequests
import Peripherals.FrontPanel.Faults
import Peripherals.Resolution
import Peripherals.GetFileContent.FileSystem
import Peripherals.GetFileContent.SearchFiles
import Peripherals.GetFileContent.Qualifying
import Peripherals.GetFileContent.Overwriting
import Peripherals.GetFileContent.Exactness
import Peripherals.GetFileContent.Property
import Peripherals.GetFileContent.Expand
import Peripherals.Base64
import Peripherals.UtilsString.ImageEncoder
import Peripherals.UtilsString.Split
import Peripherals.UtilsString.CaseInsensitive
import Peripherals.GetFileContent.Chain
import Peripherals.InputValidator
import Peripherals.GetFileContent.Definition
import Peripherals.UtilsFile.GetLastLine
import Peripherals.GetFileContent.LineEndings
import Peripherals.GetFileContent.Cap
import Peripherals.GetFileContent.Wildcards
import Peripherals.Fgets
import Peripherals.GetFileContent.ReadFileContent
import Peripherals.SearchRdkProfile
import Peripherals.IStream
import Peripherals.Settings.ReadLoop
import Peripherals.PersistJsonSettings
import Peripherals.CString
import Peripherals.UtilsString.Whitespace
import Peripherals.IsValidInt
import Peripherals.MotionDetection.SetActivePeriod
import Peripherals.MotionDetection.Detectors
import Peripherals.SecurityToken
import Peripherals.FrontPanel.PassCounter
import Peripherals.RecursiveMutex
import Peripherals.Synchro.Threads
import Peripherals.Synchro.Deadlock
import Peripherals.InputValidator.ValidationManager
import Peripherals.MotionDetection.Requests
import Peripherals.WebSockets.Notifications
import Peripherals.WebSockets.Progress
import Peripherals.Retry
import Peripherals.UtilsIarm
import Peripherals.PluginInterface.Builder
import Peripherals.ActivatePlugin
import Peripherals.ActivatePlugin.Blocked
import Peripherals.FrontPanel.Requested
import Peripherals.TpTimer.SingleShot
import Peripherals.UtilsFile.Moves
import Peripherals.FrontPanel.Player
import Peripherals.Settings.TornWrite
import Peripherals.WebSockets.TlsEnabled
import Peripherals.Custody
import Peripherals.ThreadRAII
import Peripherals.WebSockets.Shutdown
import Peripherals.PersistJsonSettings.Runs
