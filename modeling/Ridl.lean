import Ridl.Library.Base128
import Ridl.Library.Bytes
import Ridl.Library.Run
import Ridl.Library.Worklist
import Ridl.Library.Map
import Ridl.Runtime.Custody
import Ridl.Loopback.Order
import Ridl.Loopback.Delivery
import Ridl.Loopback.Reads
import Ridl.Loopback.Wakers
import Ridl.Codec.Proto3Wire
import Ridl.Codec.FlatBuffersRead
import Ridl.Server.Publication
import Ridl.Server.ScanChanges
import Ridl.Diff.Ordinals
import Ridl.Diff.Append
import Ridl.Diff.Lookup
import Ridl.Diff.CatalogOrder
import Ridl.Diff.Widening
import Ridl.Diff.ZeroRange
import Ridl.Provided.Forwarding
import Ridl.Provided.Grouping
import Ridl.Provision.AtMostOnce
import Ridl.Frame.Reassembly
import Ridl.Frame.Transport
import Ridl.Ws.Limit
import Ridl.Server.Calls
import Ridl.Runtime.EventSeq
import Ridl.Podbuf.Bound
import Ridl.Podbuf.Stores
import Ridl.Contract.Translated
import Ridl.Contract.DecimalText
import Ridl.Contract.Width
import Ridl.Syntax.Lossless
import Ridl.Syntax.Height
import Ridl.Sizing.Bound
import Ridl.Lock.Interfaces
import Ridl.Lock.Merged
import Ridl.Lock.Branches
import Ridl.Lock.Numbered
import Ridl.Lock.Shown
import Ridl.Fmt.Rendered
import Ridl.Fmt.Words
import Ridl.Lsp.Inverse
import Ridl.Streams.Splitting
import Ridl.Timing.Accepted
import Ridl.Resolve.Cycles
