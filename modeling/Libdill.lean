import Libdill.Foundations.Run
import Libdill.Foundations.SortedInsert
import Libdill.Foundations.Loop
import Libdill.Foundations.Answers
import Libdill.Foundations.Chain
import Libdill.Foundations.IndexList
import Libdill.Foundations.Ring
import Libdill.Foundations.Pool
import Libdill.Foundations.Radix
import Libdill.Foundations.Bits
import Libdill.Foundations.Call
import Libdill.Foundations.Frame
import Libdill.Foundations.BigEndian
import Libdill.Foundations.Delimiter
import Libdill.Foundations.RedBlack
import Libdill.Foundations.Forest
import Libdill.Foundations.Triple
import Libdill.Foundations.Diamond
import Libdill.Foundations.Dialogue
import Libdill.Foundations.BitStream
import Libdill.Foundations.Output
import Libdill.Foundations.Sentinel
import Libdill.Foundations.Cleanup
import Libdill.Sched.State
import Libdill.Sched.Cr
import Libdill.Sched.Chan
import Libdill.Sched.Step
import Libdill.Sched.Wake
import Libdill.Sched.Invariant
import Libdill.Sched.Elementary
import Libdill.Sched.Micro
import Libdill.Sched.Good
import Libdill.Sched.Refine
import Libdill.Sched.Safety
import Libdill.Sched.Queues
import Libdill.Sched.History
import Libdill.Sched.Rendezvous
import Libdill.Sched.Members
import Libdill.Sched.Cancellation
import Libdill.Sched.NestedClose
import Libdill.Sched.BundleWait
import Libdill.Sched.Fairness
import Libdill.Utils.Lists
import Libdill.Utils.Queues
import Libdill.Sched.StackCache
import Libdill.Sched.Stack
import Libdill.Sched.Timers
import Libdill.Sched.Relabel
import Libdill.Sched.Choose
import Libdill.Rbtree.Model
import Libdill.Rbtree.Shape
import Libdill.Rbtree.Insert
import Libdill.Rbtree.Order
import Libdill.Rbtree.Erase
import Libdill.Rbtree.Refine
import Libdill.Handle.Table
import Libdill.Handle.FreeList
import Libdill.Handle.Registry
import Libdill.Handle.Calls
import Libdill.Handle.Safety
import Libdill.Sock.Bsock
import Libdill.Sock.Iolist
import Libdill.Sock.Iolcheck
import Libdill.Sock.Marks
import Libdill.Sock.Msock
import Libdill.Fd.Recv
import Libdill.Fd.Send
import Libdill.Fd.Scatter
import Libdill.Fd.ScatterSpec
import Libdill.Fd.ScatterPlan
import Libdill.Fd.ScatterRecv
import Libdill.Fd.ScatterFrame
import Libdill.Fd.ScatterExact
import Libdill.Fd.Stream
import Libdill.Fd.StreamRecv
import Libdill.Fd.Slices
import Libdill.Fd.Gather
import Libdill.Fd.BufCache
import Libdill.Tcp.Conn
import Libdill.Tcp.Receive
import Libdill.Tcp.Transmit
import Libdill.Tcp.Integrity
import Libdill.Ipc.Conn
import Libdill.Ipc.Exclusive
import Libdill.Prefix.Model
import Libdill.Prefix.RoundTrip
import Libdill.Prefix.Peers
import Libdill.Prefix.Msock
import Libdill.Prefix.Memory
import Libdill.Suffix.Model
import Libdill.Suffix.Scan
import Libdill.Suffix.Capacity
import Libdill.Term.Model
import Libdill.Term.Receive
import Libdill.Term.HalfClose
import Libdill.Term.Passed
import Libdill.Term.Transparent
import Libdill.Utils.Strings
import Libdill.Utils.Base64
import Libdill.Utils.Sha1
import Libdill.Utils.Digest
import Libdill.Http.Parse
import Libdill.Http.Lines
import Libdill.Http.Words
import Libdill.Http.Handshake
import Libdill.Http.Receive
import Libdill.Http.Safety
import Libdill.Http.Grammar
import Libdill.Http.Send
import Libdill.Http.Partner
import Libdill.Http.RoundTrip
import Libdill.Ws.Model
import Libdill.Ws.Frame
import Libdill.Ws.Encode
import Libdill.Ws.Decode
import Libdill.Ws.Unmask
import Libdill.Ws.RoundTrip
import Libdill.Ws.Fragments
import Libdill.Ws.Close
import Libdill.Ws.Trust
import Libdill.Ws.Cutoff
import Libdill.Ws.Peer
import Libdill.Ws.Framing
import Libdill.Ws.Detach
import Libdill.Ws.Key
import Libdill.Ws.Attach
import Libdill.Ws.Upgrade
import Libdill.Ws.Fields
import Libdill.Ws.Meeting
import Libdill.Msock.Drop
import Libdill.Borrow.Calls
import Libdill.Borrow.Layers
import Libdill.Borrow.Intact
import Libdill.Sock.Line
import Libdill.Socks5.Model
import Libdill.Socks5.Auth
import Libdill.Socks5.Command
import Libdill.Socks5.Session
import Libdill.Socks5.Client
import Libdill.Happyeyeballs.Model
import Libdill.Happyeyeballs.Steps
import Libdill.Happyeyeballs.Leaks
import Libdill.Happyeyeballs.Order
import Libdill.Happyeyeballs.Pacing
import Libdill.Happyeyeballs.DeadEnd
import Libdill.Layer.World
import Libdill.Layer.Attach
import Libdill.Layer.Detach
import Libdill.Layer.Ownership
import Libdill.Layer.Ends
import Libdill.Layer.AllOrNothing
import Libdill.Layer.Runs
import Libdill.Layer.Accounting
import Libdill.Pollset.Clauses
import Libdill.Pollset.Poll
import Libdill.Pollset.PollRuns
import Libdill.Pollset.Wait
import Libdill.Pollset.Slots
import Libdill.Pollset.Epoll
import Libdill.Pollset.Changelist
import Libdill.Pollset.Flush
import Libdill.Pollset.EpollRuns
import Libdill.Pollset.Kqueue
import Libdill.Pollset.KqueueBook
import Libdill.Pollset.KqueueRuns
import Libdill.Ledger.World
import Libdill.Ledger.Open
import Libdill.Ledger.Books
import Libdill.Ledger.Specs
import Libdill.Ledger.Runs
import Libdill.Ledger.AllOrNothing
