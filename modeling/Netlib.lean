import Netlib.Lib.Run
import Netlib.Lib.Resumable
import Netlib.Proof.Services
import Netlib.Proof.NetIo
import Netlib.Proof.HdrFields
import Netlib.Proof.EndPoint
import Netlib.Proof.ScRun
import Netlib.Proof.CoRpc
import Netlib.Proof.Peers
import Netlib.Proof.CoStack
import Netlib.Proof.Listener
import Netlib.Proof.LogWorld
import Netlib.Proof.KeepAlive
import Netlib.Proof.Reader
import Netlib.Proof.Writer
import Netlib.Proof.Reconnect
import Netlib.Proof.ScServer
import Netlib.Proof.HttpSafe
import Netlib.Proof.HttpSocket
import Netlib.Proof.HttpReply
import Netlib.Proof.HttpRequest
import Netlib.Proof.HttpLength
import Netlib.Proof.HttpBuilder
import Netlib.Proof.Interest
import Netlib.Proof.Armed
import Netlib.Proof.Registry
import Netlib.Proof.CoPair
import Netlib.Proof.CoTask
import Netlib.Proof.CoResume
import Netlib.Proof.CoReset
import Netlib.Proof.Dispatch
import Netlib.Proof.CloseQueue
import Netlib.Proof.Callbacks
import Netlib.Proof.Connector
import Netlib.Proof.Logger
import Netlib.Proof.HeartBeat
import Netlib.Proof.CoScClient
import Netlib.Proof.ScClient
import Netlib.Lib.Linked
import Netlib.Lib.OnesComplement
import Netlib.Proof.HdrHelper
import Netlib.Proof.Slist
import Netlib.Proof.Svector
import Netlib.Proof.TypedBuffer
import Netlib.Proof.LogStream
import Netlib.Proof.LogFile
import Netlib.Proof.Iocp
import Netlib.Proof.ByteQueue
