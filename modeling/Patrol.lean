import Patrol.ProofKit.Scanner
import Patrol.ProofKit.IndexLoop
import Patrol.Network.FrameProtocol
import Patrol.Network.FrameScanner
import Patrol.Network.TcpServer
import Patrol.Network.ParseStream
import Patrol.Network.Commands
import Patrol.Serial.Protocol
import Patrol.Serial.SerialScanner
import Patrol.Serial.SerialManager
import Patrol.Serial.Delivery
import Patrol.Serial.Sessions
import Patrol.App.ServeClient
import Patrol.Business.RobotController
import Patrol.App.WireIntegrity
import Patrol.Business.PatrolController
import Patrol.Camera.CameraManager
import Patrol.Camera.Streaming
import Patrol.Camera.Restart
import Patrol.Core.EventBus
import Patrol.Core.Delivery
import Patrol.Core.Publishing
import Patrol.App.Application
import Patrol.Serial.Sending
import Patrol.App.Recovery
import Patrol.Json.JsonHelper
import Patrol.Json.Cst
import Patrol.Json.Lexing
import Patrol.Json.Reader
import Patrol.Json.Refinement
import Patrol.Json.Decoding
import Patrol.Json.Acceptance
import Patrol.Config.ConfigManager
import Patrol.Config.Printing
import Patrol.Json.Strings
import Patrol.Config.RoundTrip
import Patrol.ProofKit.CyclicCode
import Patrol.Serial.Chunking
import Patrol.Serial.ErrorDetection
import Patrol.Network.PayloadLimit
import Patrol.Network.Telemetry
import Patrol.Config.Numbers
import Patrol.App.CommandLine
import Patrol.Camera.Resources
import Patrol.Core.TaskScheduler
import Patrol.Core.Reentrance
import Patrol.Core.Timer
import Patrol.Core.Timing
import Patrol.Business.MissionManager
import Patrol.Business.RemoteControl
import Patrol.Business.Completion
import Patrol.Network.TcpClient
import Patrol.Serial.Crc
import Patrol.Json.Progress
import Patrol.Compat.FrameVector
import Patrol.Compat.Mapping
import Patrol.Compat.Pinning
import Patrol.Network.Sockets
import Patrol.App.Descriptors
import Patrol.Network.LinkTest
import Patrol.App.Buffers
import Patrol.App.Receiving
import Patrol.ProofKit.Automaton
import Patrol.Core.Transitions
import Patrol.Core.Pacing
import Patrol.App.Pacing
import Patrol.Serial.DoubleErrors
import Patrol.App.Precedence
import Patrol.Logger.Timestamp
import Patrol.Logger.Logger
import Patrol.Logger.Jobs
import Patrol.Logger.Lines
import Patrol.Business.MissionBoard
import Patrol.Config.Loads
import Patrol.App.OwnedDescriptors
import Patrol.Core.Locking
import Patrol.Core.Atomicity
