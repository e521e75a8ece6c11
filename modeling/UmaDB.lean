import UmaDB.Bytes
import UmaDB.Common
import UmaDB.Read
import UmaDB.Codec
import UmaDB.NodeFrame
import UmaDB.EventsTreeNodes
import UmaDB.FreeListsTreeNodes
import UmaDB.EventLeafCodec
import UmaDB.EventNodeCodecs
import UmaDB.FreeListCodecs
import UmaDB.PageCodecs
import UmaDB.InternalNodeInvariant
import UmaDB.FitPredicates
import UmaDB.LeafOperations
import UmaDB.SplitPropagation
