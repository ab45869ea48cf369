import Robotd.Lib.Program
import Robotd.Lib.CLib
import Robotd.Lib.FileSystem
import Robotd.Lib.Delimiter
import Robotd.Lib.Machine
import Robotd.Lib.Pieces
import Robotd.Lib.Archive
import Robotd.Directories
import Robotd.Call
import Robotd.Cli.Options
import Robotd.Cli.Os
import Robotd.Cli.OptionLoad
import Robotd.Cli.Resolve
import Robotd.Cli.Signals
import Robotd.Cli.Restore
import Robotd.Cli.Verdict
import Robotd.Cli.Reach
import Robotd.Cli.Exit
import Robotd.Cli.Keeps
import Robotd.ConfigLoad.Codec
import Robotd.ConfigLoad.Started
import Robotd.ConfigLoad.Session
import Robotd.Daemon.Process
import Robotd.Daemon.PidFile
import Robotd.Daemon.Protocol
import Robotd.Daemon.Supervision
import Robotd.Daemon.Backtrace
import Robotd.Daemon.Duty
import Robotd.Daemon.FailStop
import Robotd.Loader.State
import Robotd.Loader.Load
import Robotd.Loader.Meaning
import Robotd.Loader.Ending
import Robotd.Loader.Rejected
import Robotd.Loader.Statics
import Robotd.Loader.Contract
import Robotd.Loader.Fresh
import Robotd.Loader.Size
import Robotd.Loader.FirstStart
import Robotd.Loader.Defaults
import Robotd.Loader.LogLevel
import Robotd.Daemon.Hangup
import Robotd.Daemon.Reload
import Robotd.Daemon.Worker
import Robotd.Daemon.Again
import Robotd.Daemon.Coherence
import Robotd.Daemon.Cause
import Robotd.Daemon.Reaping
import Robotd.Host.Pool
import Robotd.Host.Steps
import Robotd.Host.Life
import Robotd.Host.Decision
import Robotd.Host.Conduct
import Robotd.Host.Ownership
import Robotd.Host.Restart
import Robotd.Host.Single
import Robotd.Host.Family
import Robotd.Host.Addressee
import Robotd.Host.Exposure
import Robotd.Host.Masters
import Robotd.Lib.Yields
import Robotd.Log.Format
import Robotd.Log.Fields
import Robotd.Log.Pattern
import Robotd.Log.Sink
import Robotd.Log.Bound
import Robotd.Log.Files
import Robotd.Log.Stream
import Robotd.Log.Records
import Robotd.Loader.Formatted
import Robotd.Log.Sharing
import Robotd.Log.Overwrite
import Robotd.Slaves.Reply
import Robotd.Slaves.RequestHandler
import Robotd.Slaves.Client
import Robotd.Slaves.TcpServer
import Robotd.Slaves.Stages
import Robotd.Slaves.Answers
import Robotd.Slaves.AsyncClient
import Robotd.Slaves.Printed
import Robotd.Slaves.Conversation
import Robotd.Daemon.Vigil
import Robotd.Host.Vigilance
import Robotd.Host.Errand
import Robotd.Host.Served
import Robotd.Host.Switch
import Robotd.Host.Delivery
import Robotd.Lib.Amortized
import Robotd.Cli.Price
import Robotd.Daemon.Pace
import Robotd.Host.Budget
import Robotd.Host.Effort
