import Morsh.Lib.Run
import Morsh.Lib.Words
import Morsh.Lib.Shells
import Morsh.Lib.Protobuf
import Morsh.Lib.BigEndian
import Morsh.Lib.Groups
import Morsh.Lib.LineEdit
import Morsh.Lib.Vt.Row
import Morsh.Lib.Vt.Terminal
import Morsh.Lib.Vt.Feeds
import Morsh.Network.State
import Morsh.Network.Codec
import Morsh.Crypto.Session
import Morsh.Network.Fragment
import Morsh.Lib.Average
import Morsh.Network.Rtt
import Morsh.Proofs.RttDrift
import Morsh.Network.Connection
import Morsh.Network.ConnectionRun
import Morsh.Network.Sender
import Morsh.Network.Transport
import Morsh.Network.Channel
import Morsh.Network.SenderRun
import Morsh.Statesync.UserStream
import Morsh.Statesync.Wire
import Morsh.Proofs.History
import Morsh.Proofs.SenderInv
import Morsh.Proofs.Emission
import Morsh.Proofs.SenderOps
import Morsh.Proofs.Reception
import Morsh.Proofs.Meaning
import Morsh.Proofs.Link
import Morsh.Proofs.Account
import Morsh.Proofs.Channel
import Morsh.Proofs.Delivery
import Morsh.Proofs.Queue
import Morsh.Proofs.Agreement
import Morsh.Network.Session
import Morsh.Network.Stack
import Morsh.Proofs.Session
import Morsh.Proofs.Floor
import Morsh.Proofs.NoWedge
import Morsh.Terminal.Snapshot
import Morsh.Terminal.Display
import Morsh.Terminal.Sgr
import Morsh.Proofs.Sequences
import Morsh.Proofs.RowPass
import Morsh.Proofs.DiffRow
import Morsh.Proofs.Scroll
import Morsh.Proofs.Modes
import Morsh.Proofs.Diff
import Morsh.Proofs.Transform
import Morsh.Proofs.Redraw
import Morsh.Proofs.Changed
import Morsh.Proofs.Receiver
import Morsh.Proofs.Fragment
import Morsh.Proofs.FragmentNumbers
import Morsh.Proofs.Reassembly
import Morsh.Proofs.Nonces
import Morsh.Proofs.Replay
import Morsh.Proofs.RoundTrip
import Morsh.Proofs.CommandLine
import Morsh.Proofs.Numbering
import Morsh.Proofs.Pacing
import Morsh.Proofs.SentHistory
import Morsh.Proofs.WaitTime
import Morsh.Terminal.Emulator
import Morsh.Terminal.Vt
import Morsh.Statesync.Complete
import Morsh.Statesync.EchoRun
import Morsh.Proofs.EchoAck
import Morsh.Proofs.EchoTimer
import Morsh.Prediction.Overlay
import Morsh.Prediction.Engine
import Morsh.Prediction.View
import Morsh.Prediction.EngineRun
import Morsh.Proofs.LineEditing
import Morsh.Proofs.TentativeCursor
import Morsh.Proofs.WholeLines
import Morsh.Proofs.HostKeys
import Morsh.Client.Input
import Morsh.Client.Frame
import Morsh.Proofs.Healing
import Morsh.Server.Cli
import Morsh.Wrapper.ServerArgs
import Morsh.Wrapper.Quote
import Morsh.Lib.Utf8
import Morsh.Lib.Lines
import Morsh.Ssh.Exec
import Morsh.Ssh.HostKeys
import Morsh.Server.Pty
import Morsh.Server.Server
import Morsh.Proofs.Server
import Morsh.Server.World
import Morsh.Proofs.World
import Morsh.Proofs.Dimensions
import Morsh.Proofs.StartupSize
import Morsh.Proofs.Final
import Morsh.Proofs.Output
import Morsh.Proofs.Keystrokes
import Morsh.Client.Loop
import Morsh.Proofs.InRange
import Morsh.Prediction.CreditRun
import Morsh.Proofs.GenuineEcho
import Morsh.Client.FrameRun
import Morsh.Proofs.Painting
import Morsh.Proofs.Quoting
import Morsh.Client.Escape
import Morsh.Proofs.EscapeFilter
import Morsh.Lib.Utf16
import Morsh.Client.Console
import Morsh.Proofs.Console
import Morsh.Prediction.Notification
import Morsh.Proofs.Notifications
import Morsh.Proofs.Expiry
import Morsh.Proofs.EchoSource
import Morsh.Proofs.EchoSound
import Morsh.Proofs.SenderSide
import Morsh.Proofs.Sealing
import Morsh.Proofs.Stack
import Morsh.Proofs.EndToEnd
import Morsh.Proofs.Convergence
import Morsh.Proofs.Parting
import Morsh.Lib.Sh
import Morsh.Wrapper.Launch
import Morsh.Proofs.RemoteCommand
import Morsh.Lib.Base64
import Morsh.Lib.BufRead
import Morsh.Crypto.Base64Key
import Morsh.Server.Startup
import Morsh.Wrapper.Connect
import Morsh.Proofs.Handshake
import Morsh.Wrapper.FakeProxy
import Morsh.Proofs.FakeProxy
import Morsh.Proofs.Roaming
import Morsh.Proofs.Screens
import Morsh.Wrapper.Target
import Morsh.Ssh.Trust
import Morsh.Proofs.Trust
