import Ddhcpd.Deadlines
import Ddhcpd.Defence
import Ddhcpd.Attempt
import Ddhcpd.HouseKeeping
import Ddhcpd.LeaseSafety
import Ddhcpd.Exclusive
import Ddhcpd.Escalation
import Ddhcpd.Arbitration
import Ddhcpd.Exclusion
import Ddhcpd.Datagram
import Ddhcpd.ByteOrder
import Ddhcpd.DhcpPackets
import Ddhcpd.Reply
import Ddhcpd.Answers
import Ddhcpd.EventLoop
import Ddhcpd.Hooks
import Ddhcpd.DefaultOptions
import Ddhcpd.Discover
import Ddhcpd.Reserved
import Ddhcpd.Spare
import Ddhcpd.NewlyOwned
import Ddhcpd.Needless
import Ddhcpd.HostAddresses
import Ddhcpd.OwnedCount
import Ddhcpd.ClientBatch
import Ddhcpd.HalfMade
import Ddhcpd.Numbering
import Ddhcpd.OptionStore
import Ddhcpd.CText
import Ddhcpd.OptionText
import Ddhcpd.CommandLine
import Ddhcpd.NeedlessFlag
import Ddhcpd.ClaimLinks
import Ddhcpd.LastClaim
import Ddhcpd.Forwarding
import Ddhcpd.WireNetwork
import Ddhcpd.Unchallenged
import Ddhcpd.SwarmLeases
import Ddhcpd.MainLoop
import Ddhcpd.Offers
import Ddhcpd.Provenance
import Ddhcpd.ControlTool
import Ddhcpd.RoundTrips
import Ddhcpd.Addressees
