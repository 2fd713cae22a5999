import RustCrash.AnyTls.Pool
import RustCrash.AnyTls.Stream
import RustCrash.App.ProviderRun
import RustCrash.App.Router
import RustCrash.Dns.CacheRun
import RustCrash.Dns.Edns
import RustCrash.Dns.FakeIpFilter
import RustCrash.Dns.FakeIpReload
import RustCrash.Dns.InFlight
import RustCrash.Dns.TtlRewrite
import RustCrash.EasyTier.AcceptOnce
import RustCrash.EasyTier.NoiseServer
import RustCrash.EasyTier.NonceFresh
import RustCrash.EasyTier.RecvLoop
import RustCrash.Hysteria2.InsertCount
import RustCrash.Hysteria2.QpackLiteral
import RustCrash.Hysteria2.TcpResponse
import RustCrash.Mieru.CloseRequest
import RustCrash.Mieru.Mux
import RustCrash.Mieru.Send
import RustCrash.Mieru.StreamCuts
import RustCrash.Mieru.UdpAssociate
import RustCrash.Mieru.Writes
import RustCrash.OpenVpn.Acks
import RustCrash.OpenVpn.ControlCodec
import RustCrash.OpenVpn.Epochs
import RustCrash.OpenVpn.Established
import RustCrash.OpenVpn.Link
import RustCrash.OpenVpn.Rekey
import RustCrash.Proto.Truncation
import RustCrash.Quic.Admission
import RustCrash.Quic.Reassembly
import RustCrash.Quic.Reply
import RustCrash.Routing.GeositeFile
import RustCrash.Routing.LogicTree
import RustCrash.RulesetBin.CidrExact
import RustCrash.RulesetBin.MrsDomain
import RustCrash.Shadowsocks.DatagramRun
import RustCrash.Shadowsocks.ReplayWindow
import RustCrash.Snell.Udp
import RustCrash.Snell.UdpPacket
import RustCrash.Sudoku.Datagrams
import RustCrash.Sudoku.RecordRun
import RustCrash.Tls13.Uplink
import RustCrash.Tun.Echo
import RustCrash.Tun.Inbound
import RustCrash.Tun.Outbound
import RustCrash.Tun.SynPoll
import RustCrash.Vision.Transparent
import RustCrash.Vmess.Datagram
import RustCrash.Vmess.Packets
import RustCrash.Wireguard.EndpointPackets
import RustCrash.Wireguard.Responses
import RustCrash.Wireguard.Retry
import RustCrash.Wireguard.SourceFilter
import RustCrash.ZeroTier.Delivery
import RustCrash.ZeroTier.WorldChain
