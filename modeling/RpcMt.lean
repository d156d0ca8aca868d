import RpcMt.Runs
import RpcMt.Bitvec
import RpcMt.Xprt
import RpcMt.Registry
import RpcMt.RegistryIds
import RpcMt.Worker
import RpcMt.Wait
import RpcMt.DispatchWait
import RpcMt.Links
import RpcMt.XdrMem
import RpcMt.Ring
import RpcMt.UdpCache
import RpcMt.UdpCacheChains
import RpcMt.Callouts
import RpcMt.UdpTransport
import RpcMt.UdpOwnership
import RpcMt.UdpServer
import RpcMt.UdpServerInv
import RpcMt.UdpRequests
import RpcMt.UdpAtMostOnce
import RpcMt.Gc
import RpcMt.SvcRun
import RpcMt.SvcRunSteps
import RpcMt.SvcRunLife
import RpcMt.TcpConn
import RpcMt.TcpServer
import RpcMt.TcpWaits
import RpcMt.TcpRequests
import RpcMt.Mutexes
import RpcMt.PollLock
import RpcMt.LockOrder
import RpcMt.GetReq
import RpcMt.ExactIds
import RpcMt.RegistryTables
import RpcMt.GcMarks
import RpcMt.XdrFilters
import RpcMt.XdrStreams
import RpcMt.XdrRoundTrip
import RpcMt.XdrFree
import RpcMt.XdrShortage
import RpcMt.RecMarking
import RpcMt.XdrRecOut
import RpcMt.RecReader
import RpcMt.RecRecords
import RpcMt.RecEncode
import RpcMt.BitvecRuns
import RpcMt.SizeLoops
import RpcMt.RegistryScans
import RpcMt.SocketReuse
import RpcMt.UdpCacheFifo
import RpcMt.XdrmemCalls
import RpcMt.UdpBuffers
import RpcMt.UdpReceives
import RpcMt.XdrmemReads
import RpcMt.UdpLeftovers
import RpcMt.XdrBackEnds
import RpcMt.XdrLimits
import RpcMt.Arrays
import RpcMt.Termination
import RpcMt.CleanTermination
import RpcMt.CalloutList
import RpcMt.CalloutSpecs
import RpcMt.CalloutRuns
import RpcMt.Registration
import RpcMt.GetReqSet
import RpcMt.XdrSizeof
import RpcMt.RecSetpos
import RpcMt.ControlMessages
import RpcMt.UdpPktinfo
import RpcMt.MoveFd
import RpcMt.SocketRange
import RpcMt.Shutdown
import RpcMt.XprtDestroyAll
import RpcMt.SvcDie
import RpcMt.Numerals
import RpcMt.SvcCommands
import RpcMt.Relocation
import RpcMt.RecHeaders
import RpcMt.RecLayout
import RpcMt.CalloutOwnership
import RpcMt.Matching
import RpcMt.UdpCacheIndices
import RpcMt.AppendBuf
import RpcMt.TcpPoll
import RpcMt.DecodePollEvents
import RpcMt.RecOps
import RpcMt.RecDecode
import RpcMt.RecRoundTrip
import RpcMt.TcpWrites
import RpcMt.Footprints
import RpcMt.DbufThread
import RpcMt.FewIds
import RpcMt.CheckXports
import RpcMt.Descriptors
import RpcMt.Rounds
import RpcMt.RecBuffered
import RpcMt.TcpCalls
