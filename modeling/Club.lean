import Club.Transport.Message
import Club.Transport.Binary
import Club.Transport.Socket.Basic
import Club.Transport.Socket.Send
import Club.Transport.Socket.Receive
import Club.Transport.Socket.Step
import Club.Transport.Socket.Quiet
import Club.Transport.Socket.Shape
import Club.Transport.Properties.ReliableOrder
import Club.Transport.Properties.UnreliableOrder
import Club.Transport.Properties.Close
import Club.Transport.Properties.Destroy
import Club.Transport.Router
import Club.Transport.Properties.RouterSending
import Club.Transport.Properties.SendMachine
import Club.Transport.LawfulAckSet
import Club.Transport.Link
import Club.Transport.Properties.Honest
import Club.Transport.Properties.Acknowledged
import Club.Transport.Properties.Packet
import Club.Transport.Properties.Fragmentation
import Club.Transport.Properties.Retransmission
import Club.Transport.Properties.Numbering
import Club.Transport.Properties.Passes
import Club.Transport.Properties.Integrity
import Club.Transport.Properties.Callbacks
import Club.Transport.Properties.SendOrder
