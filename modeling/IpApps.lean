import IpApps.Lib.ExceptLoops
import IpApps.Lib.SwapErase
import IpApps.Libc
import IpApps.Udpfwd.State
import IpApps.Udpfwd.ServerCache
import IpApps.Udpfwd.CacheInvariant
import IpApps.Udpfwd.CacheSpecs
import IpApps.Udpfwd.CacheRuns
import IpApps.Udpfwd.ConfigHandlers
import IpApps.Udpfwd.ServerLoops
import IpApps.Udpfwd.Interfaces
import IpApps.Udpfwd.ConfigChange
import IpApps.Udpfwd.RowDelete
import IpApps.Udpfwd.BatchUpdate
import IpApps.Lib.Memory
import IpApps.Lib.Endian
import IpApps.Lib.Tlv
import IpApps.Lib.TwoRuns
import IpApps.Udpfwd.Host
import IpApps.Udpfwd.Packet
import IpApps.Udpfwd.DhcpOptions
import IpApps.Udpfwd.Xmit
import IpApps.Udpfwd.OptionScan
import IpApps.Udpfwd.AgentOption
import IpApps.Udpfwd.Option82Insert
import IpApps.Udpfwd.RelayRequest
import IpApps.Udpfwd.StampValidate
import IpApps.Udpfwd.RelayLoop
import IpApps.Udpfwd.RequestExact
import IpApps.Udpfwd.PacketCounters
import IpApps.Udpfwd.EmptyRecords
import IpApps.Udpfwd.UniqueServers
import IpApps.Udpfwd.GlobalConfig
import IpApps.Udpfwd.Statistics
import IpApps.Dhcpv6r.State
import IpApps.Dhcpv6r.InterfaceTable
import IpApps.Dhcpv6r.ServerMap
import IpApps.Dhcpv6r.ServerCache
import IpApps.Dhcpv6r.CacheRuns
import IpApps.Dhcpv6r.ConfigHandlers
import IpApps.Dhcpv6r.RowDelete
import IpApps.Dhcpv6r.ConfigChange
import IpApps.Udpfwd.ReplyFilter
import IpApps.Udpfwd.PacketAgreement
import IpApps.Udpfwd.CoveredBytes
import IpApps.Udpfwd.ProcessAgreement
import IpApps.Udpfwd.RelayCommands
import IpApps.Udpfwd.RunningConfig
import IpApps.SourceInterface.Selection
import IpApps.Udpfwd.LeftAlone
import IpApps.Udpfwd.AgentOptionCheck
import IpApps.Udpfwd.RequestScan
import IpApps.Udpfwd.MaxMessageSize
import IpApps.Udpfwd.RewrittenLengths
import IpApps.Udpfwd.BufferEnd
import IpApps.Udpfwd.BroadcastForward
import IpApps.Udpfwd.OptionOverload
import IpApps.Udpfwd.ReplyDestination
import IpApps.Udpfwd.CountedReplies
import IpApps.Udpfwd.SearchAgreement
import IpApps.Udpfwd.RelayAgreement
import IpApps.Udpfwd.ReceivedBytes
import IpApps.Udpfwd.UnreceivedBytes
import IpApps.Udpfwd.LowestAddress
import IpApps.SourceInterface.ConfiguredSources
import IpApps.Udpfwd.BootpGateway
import IpApps.Udpfwd.PolicyCommands
import IpApps.InetPton
import IpApps.Lib.KeyedTable
import IpApps.Udpfwd.ServerTables
import IpApps.Udpfwd.ServerRuns
import IpApps.Lib.OnesComplement
import IpApps.Udpfwd.HeaderChecksum
import IpApps.Udpfwd.InternetChecksum
import IpApps.Udpfwd.ScratchLists
import IpApps.Lib.ShellWords
import IpApps.Lib.Snprintf
import IpApps.InetPton6
import IpApps.Diagtools.CommandLine
import IpApps.Diagtools.Ping
import IpApps.Diagtools.Traceroute
import IpApps.Diagtools.QuotedParameter
import IpApps.InetAgreement
import IpApps.Udpfwd.HandlerEffects
import IpApps.Udpfwd.Configuration
import IpApps.Udpfwd.TableReports
import IpApps.Udpfwd.PollExact
import IpApps.Udpfwd.ServerParams
import IpApps.Udpfwd.ConfigEdits
import IpApps.Udpfwd.PacketFrames
import IpApps.Udpfwd.ConfigRuns
import IpApps.Udpfwd.PacketRuns
import IpApps.Udpfwd.RelayChain
import IpApps.Udpfwd.ReplyPath
import IpApps.Dhcpv6r.Reconfigure
import IpApps.Dhcpv6r.GrowingRows
import IpApps.Udpfwd.StatisticsRuns
import IpApps.Udpfwd.SettingsRuns
import IpApps.Udpfwd.CommandedPackets
import IpApps.SourceInterface.RunningConfig
import IpApps.Diagtools.Commands
