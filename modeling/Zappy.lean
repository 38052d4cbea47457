import Zappy.Lib.Run
import Zappy.Lib.LinkedList
import Zappy.Lib.CircularList
import Zappy.Lib.Bytes
import Zappy.Lib.Records
import Zappy.Lib.Stateful
import Zappy.Lib.WebSocketFrame
import Zappy.Lib.Slots
import Zappy.Lib.Chain
import Zappy.Lib.Traverse
import Zappy.SslTable
import Zappy.EventTimes
import Zappy.EventQueue
import Zappy.TileLists
import Zappy.Game
import Zappy.Effects
import Zappy.Placement
import Zappy.Capacity
import Zappy.Conservation
import Zappy.Lib.Matching
import Zappy.Elevation
import Zappy.ElevationRules
import Zappy.Vision
import Zappy.JavaClient
import Zappy.Notices
import Zappy.Sightings
import Zappy.Expulsion
import Zappy.Lib.Turtle
import Zappy.Moves
import Zappy.TileMoves
import Zappy.Journeys
import Zappy.Ownership
import Zappy.Network
import Zappy.FtList
import Zappy.RemovalQueue
import Zappy.WebSocket
import Zappy.Framing
import Zappy.Pings
import Zappy.Readiness
import Zappy.MachineSteps
import Zappy.Handshakes
import Zappy.Removal
import Zappy.Turns
import Zappy.Sessions
import Zappy.Replies
import Zappy.Accounts
import Zappy.Answers
import Zappy.PendingResponses
import Zappy.FlowControl
import Zappy.Views
import Zappy.Stones
import Zappy.Mirror
import Zappy.ClientState
import Zappy.DeadReckoning
import Zappy.CommandLoss
import Zappy.Rituals
import Zappy.Lib.Service
import Zappy.CommandOrder
import Zappy.Lossless
import Zappy.Releases
import Zappy.Reception
import Zappy.Broadcast
import Zappy.ViewOrder
import Zappy.Ai
import Zappy.Peace
import Zappy.Fleet
import Zappy.Roster
import Zappy.Snapshot
import Zappy.Lib.Laps
import Zappy.Spawning
import Zappy.Lib.Lines
import Zappy.ConfigFile
import Zappy.Survival
import Zappy.FleetRuns
import Zappy.FleetProgress
import Zappy.Lib.Trace
import Zappy.Board
import Zappy.BoardStates
import Zappy.BoardPlay
import Zappy.Lib.JsonText
import Zappy.CJson
import Zappy.CJsonStrings
import Zappy.CJsonTexts
import Zappy.Wire
