import Dynld.Proof.Trie
import Dynld.Proof.FixupRoundTrip
import Dynld.Proof.EmptyPages
import Dynld.Proof.BlockSources
import Dynld.Proof.SharedCacheLookup
import Dynld.Proof.FixupOrder
import Dynld.Proof.FixupValues
import Dynld.Proof.SegmentMapping
import Dynld.Proof.Ordinals
import Dynld.Proof.ParserCommands
import Dynld.Proof.Termination
import Dynld.Proof.Copies
import Dynld.Proof.Frames
import Dynld.Proof.LinkedImages
import Dynld.Proof.LoaderReturns
import Dynld.Proof.ThreadVariables
import Dynld.Proof.Terminators
import Dynld.Proof.Strings
import Dynld.Proof.AllocatorThreads
import Dynld.Proof.InitOrder
import Dynld.Proof.WeakImports
import Dynld.Proof.CacheAddresses
import Dynld.Proof.FilePositions
import Dynld.Proof.MappedDylibs
import Dynld.Proof.UniversalBinaries
import Dynld.Proof.TrieWalks
import Dynld.Proof.SymbolTables
import Dynld.Proof.RegionBounds
import Dynld.Proof.LongNames
import Dynld.Proof.Capacities
import Dynld.Proof.ReexportOrdinals
import Dynld.Proof.PathPlaceholders
import Dynld.Proof.Uleb128
import Dynld.Proof.FileOffsets
import Dynld.Proof.VisitBudget
import Dynld.Proof.ChainEnds
import Dynld.Proof.LoadCommandWalks
import Dynld.Proof.SubcacheIndex
import Dynld.Proof.TrieAddresses
import Dynld.Proof.Resolvers
import Dynld.Proof.Startup
