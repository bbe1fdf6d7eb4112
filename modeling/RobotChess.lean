import RobotChess.Runs
import RobotChess.Robot
import RobotChess.Cell
import RobotChess.OneCall
import RobotChess.Squares
import RobotChess.Session
import RobotChess.NoDeadlock
import RobotChess.Sequence
import RobotChess.Torn
import RobotChess.SwitchedOff
import RobotChess.AtMostOnce
import RobotChess.FailedCall
import RobotChess.Recovery
import RobotChess.PcAlone
import RobotChess.SilentFailure
import RobotChess.Handles
import RobotChess.Contexts
import RobotChess.PickPlace
import RobotChess.Script
import RobotChess.Exit
import RobotChess.Framing
import RobotChess.Bytes
import RobotChess.Crc
import RobotChess.Tables
import RobotChess.Modbus
import RobotChess.Rtu
import RobotChess.Receive
import RobotChess.Adu
import RobotChess.Store
import RobotChess.Server
import RobotChess.Serving
import RobotChess.Client
import RobotChess.Requests
import RobotChess.Wire
import RobotChess.Connection
import RobotChess.Remote
import RobotChess.Late
import RobotChess.Waiting
import RobotChess.Wired
import RobotChess.LateMoves
import RobotChess.Game
import RobotChess.GameOverWire
import RobotChess.Onward
