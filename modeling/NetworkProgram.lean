import NetworkProgram.Foundation.Runs
import NetworkProgram.Foundation.Ring
import NetworkProgram.Foundation.Paths
import NetworkProgram.Foundation.Slots
import NetworkProgram.Foundation.Loops
import NetworkProgram.Foundation.OnesComplement
import NetworkProgram.Foundation.Scanning
import NetworkProgram.Foundation.Accesses
import NetworkProgram.Foundation.Handles
import NetworkProgram.Foundation.Globs
import NetworkProgram.Foundation.TableParser
import NetworkProgram.Kernel.Descriptors
import NetworkProgram.Kernel.EpollSet
import NetworkProgram.Libc.Strings
import NetworkProgram.Libc.Mystrlcat
import NetworkProgram.Libc.Traced
import NetworkProgram.Libc.Input
import NetworkProgram.Libc.Memory
import NetworkProgram.Libc.Integers
import NetworkProgram.Server9.Model
import NetworkProgram.Server9.Steps
import NetworkProgram.Server9.Ownership
import NetworkProgram.Server9.Crossing
import NetworkProgram.Server9.Descriptors
import NetworkProgram.Server9.Service
import NetworkProgram.Server9.Clients
import NetworkProgram.Server9.Exchanges
import NetworkProgram.Server9.Replies
import NetworkProgram.Server9.Progress
import NetworkProgram.Server9.Locks
import NetworkProgram.Server9.Wakeups
import NetworkProgram.UServerB.Model
import NetworkProgram.UServerB.Replies
import NetworkProgram.UServer.Model
import NetworkProgram.UServer.Accesses
import NetworkProgram.Client.Model
import NetworkProgram.Client.Forwarding
import NetworkProgram.Tls.LikeCheck
import NetworkProgram.Tls.Glob
import NetworkProgram.Tls.Pointers
import NetworkProgram.Tls.PostConnectionCheck
import NetworkProgram.Httpd.Grammar
import NetworkProgram.Httpd.Lines
import NetworkProgram.Httpd.Request
import NetworkProgram.Httpd.RoundTrip
import NetworkProgram.Httpd.Respond
import NetworkProgram.Httpd.Confinement
import NetworkProgram.Httpd.Answer
import NetworkProgram.Httpd.Failures
import NetworkProgram.Httpd.Transfer
import NetworkProgram.Oneline.Model
import NetworkProgram.Oneline.Lines
import NetworkProgram.Oneline.Dynamic
import NetworkProgram.Oneline.Modes
import NetworkProgram.Oneline.Growth
import NetworkProgram.Oneline1.Model
import NetworkProgram.Oneline1.Steps
import NetworkProgram.Oneline1.Accesses
import NetworkProgram.Oneline1.Independence
import NetworkProgram.Oneline1.Lines
import NetworkProgram.Oneline1.Agreement
import NetworkProgram.Oneline1.Client
import NetworkProgram.Oneline1.Descriptors
import NetworkProgram.Echo.SendRecv
import NetworkProgram.Echo.Host
import NetworkProgram.Echo.Children
import NetworkProgram.Echo.Select
import NetworkProgram.Echo.Poll
import NetworkProgram.Echo.Epoll
import NetworkProgram.Echo.Connections
import NetworkProgram.Echo.Readiness
import NetworkProgram.Echo.Service
import NetworkProgram.Echo.Agreement
import NetworkProgram.Echo.Batches
import NetworkProgram.Echo.Segments
import NetworkProgram.Echo.Accesses
import NetworkProgram.Echo.Counts
import NetworkProgram.Limits.Bounds
import NetworkProgram.Limits.Acceptors
import NetworkProgram.Limits.Full
import NetworkProgram.Server5.Model
import NetworkProgram.Server5.Reaping
import NetworkProgram.Libevent.Model
import NetworkProgram.Libevent.Correspondence
import NetworkProgram.Pdump.Model
import NetworkProgram.Pdump.Lengths
import NetworkProgram.Pdump.Segments
import NetworkProgram.Pdump.Dump
import NetworkProgram.Pdump.Arp
import NetworkProgram.RawUClient.Model
import NetworkProgram.RawUClient.Checksum
import NetworkProgram.RawUClient.Rfc1071
import NetworkProgram.RawUClient.Frame
import NetworkProgram.RawUClient.Copies
import NetworkProgram.RawUClient.Decoded
import NetworkProgram.RawUClient.Packets
import NetworkProgram.Config.Lexer
import NetworkProgram.Config.Spelling
import NetworkProgram.Config.Yyparse
import NetworkProgram.Config.Grammar
import NetworkProgram.Config.Programs
import NetworkProgram.Config.Settings
import NetworkProgram.Foundation.Automata
import NetworkProgram.Foundation.PulledParser
import NetworkProgram.Flex.Skeleton
import NetworkProgram.Flex.Matching
import NetworkProgram.Flex.Buffers
import NetworkProgram.Flex.Tokens
import NetworkProgram.Flex.Rules
import NetworkProgram.Config.Yylex
import NetworkProgram.Config.Client2
import NetworkProgram.Telnet.Model
import NetworkProgram.Telnet.Decoding
import NetworkProgram.Telnet.Timing
import NetworkProgram.Telnet.Screen
import NetworkProgram.Telnet.Negotiation
import NetworkProgram.Telnet.Endings
import NetworkProgram.Telnet.Typing
import NetworkProgram.Timeout.Model
import NetworkProgram.Timeout.Agreement
import NetworkProgram.Tls.Names
import NetworkProgram.Tls.CommonName
import NetworkProgram.Afindepend.Model
import NetworkProgram.Afindepend.Sockets
import NetworkProgram.Afindepend.Waiting
import NetworkProgram.ClientTimeout.Model
import NetworkProgram.ClientTimeout.Exits
import NetworkProgram.Workers.Pool
import NetworkProgram.Workers.Prefork
import NetworkProgram.Workers.Spawning
import NetworkProgram.Workers.Forking
import NetworkProgram.Foundation.Datagrams
import NetworkProgram.UClient.Model
import NetworkProgram.UClient.Exchange
import NetworkProgram.Kernel.Signals
import NetworkProgram.Restart.Model
import NetworkProgram.Restart.Descriptors
import NetworkProgram.Restart.Recovery
import NetworkProgram.Server9.Starting
import NetworkProgram.Foundation.Heap
import NetworkProgram.Libc.Blocks
import NetworkProgram.Httpd.Allocation
import NetworkProgram.Httpd.Ownership
