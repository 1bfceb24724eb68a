import AllProjects.Malloc.Chunks
import AllProjects.Malloc.Layout
import AllProjects.Malloc.Machine
import AllProjects.Memory.Bytes
import AllProjects.Memory.CString
import AllProjects.Transition.Run
import AllProjects.Malloc.Loops
import AllProjects.Malloc.Hooks
import AllProjects.Malloc.System
import AllProjects.Malloc.Runs
import AllProjects.Malloc.FreeOrder
import AllProjects.DnsProxy.Packet
import AllProjects.DnsProxy.Records
import AllProjects.DnsProxy.Hooks
import AllProjects.DnsProxy.Reply
import AllProjects.DnsProxy.Wire
import AllProjects.DnsProxy.Cache
import AllProjects.DnsProxy.Permanence
import AllProjects.DnsProxy.Answers
import AllProjects.DnsProxy.Queries
import AllProjects.DnsProxy.Bounds
import AllProjects.DnsProxy.Ledger
import AllProjects.DnsProxy.Names
import AllProjects.DnsProxy.AllocFailure
import AllProjects.DnsProxy.Lengths
import AllProjects.Memory.Checksum
import AllProjects.DnsProxy.Checksum
import AllProjects.HighLoad.Server
import AllProjects.HighLoad.Balance
import AllProjects.HighLoad.Deadlock
import AllProjects.MessageQueue.Queue
import AllProjects.QueueChat.Events
import AllProjects.QueueChat.Echo
import AllProjects.QueueChat.EchoDeadlock
import AllProjects.QueueChat.Messages
import AllProjects.Sctp.Session
import AllProjects.Sctp.Upload
import AllProjects.Sctp.Finish
import AllProjects.Sctp.Files
import AllProjects.MutexStore.Conservation
import AllProjects.FileManager.Panel
import AllProjects.FileManager.Lists
import AllProjects.FileManager.Keys
import AllProjects.FileManager.Cursor
import AllProjects.FileManager.Unreadable
import AllProjects.FileManager.WorkingDir
import AllProjects.FileManager.Nodes
import AllProjects.FileManager.CopyFile
import AllProjects.FileManager.CopyStatus
import AllProjects.FileManager.CopyThreads
import AllProjects.FileManager.Listing
import AllProjects.FileManager.Paths
import AllProjects.FileManager.Trim
import AllProjects.Memory.Access
import AllProjects.PcapSniffer.Packet
import AllProjects.PcapSniffer.Report
import AllProjects.PcapSniffer.Handler
import AllProjects.PcapSniffer.Evidence
import AllProjects.PcapSniffer.Captured
import AllProjects.PcapSniffer.Search
import AllProjects.PcapSniffer.WellFormed
import AllProjects.PcapSniffer.Dumps
import AllProjects.IcmpRawSocket.Message
import AllProjects.IcmpRawSocket.Ping
import AllProjects.IcmpRawSocket.Traceroute
import AllProjects.EchoServer.Handler
import AllProjects.EchoServer.Segmentation
import AllProjects.EchoServer.Shutdown
import AllProjects.EchoServer.Dispatch
import AllProjects.Malloc.FirstFit
import AllProjects.Malloc.Placement
import AllProjects.Malloc.FreeRanges
import AllProjects.Malloc.DoubleFree
import AllProjects.Malloc.Failure
import AllProjects.RawSocket.ComputeChecksum
import AllProjects.IcmpRawSocket.Checksum
import AllProjects.PcapSniffer.Verdicts
import AllProjects.IcmpRawSocket.Slots
import AllProjects.PcapSniffer.Icmp
import AllProjects.IcmpRawSocket.Requests
import AllProjects.IcmpRawSocket.Identity
import AllProjects.IcmpRawSocket.Statistics
import AllProjects.IcmpRawSocket.Options
import AllProjects.IcmpRawSocket.OptionOrder
import AllProjects.Memory.Scan
import AllProjects.IcmpRawSocket.PrintData
import AllProjects.EchoServer.Descriptors
import AllProjects.Transition.Loop
import AllProjects.EchoServer.InputLoop
import AllProjects.UdpRawSocket.Frame
import AllProjects.Procfs.Message
import AllProjects.Memory.Records
import AllProjects.NetlinkSocket.Routes
import AllProjects.Calculator.Menu
import AllProjects.DoublyLinked.Commands
import AllProjects.DoublyLinked.Deque
import AllProjects.DoublyLinked.Splices
import AllProjects.DoublyLinked.Traverse
import AllProjects.DoublyLinked.Refine
import AllProjects.DoublyLinked.Accounts
import AllProjects.DoublyLinked.Iteration
import AllProjects.CharDevice.Reader
import AllProjects.CharDevice.Ioctl
import AllProjects.CharDevice.Client
import AllProjects.CharDevice.Hello
import AllProjects.Threads.Mutex
import AllProjects.Transition.Processes
import AllProjects.Transition.Tidy
import AllProjects.Threads.Fork
import AllProjects.Threads.PrintN
