import WaylandMap.Word
import WaylandMap.Map
import WaylandMap.Run
import WaylandMap.FreeList
import WaylandMap.Capacity
import WaylandMap.Lookup
import WaylandMap.Allocator
import WaylandMap.ForEach
import WaylandMap.Isolation
import WaylandMap.Resource
import WaylandMap.Refinement
import WaylandMap.Reserve
