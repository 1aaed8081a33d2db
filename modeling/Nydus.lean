import Nydus.Lib.Outcome
import Nydus.Lib.Reach
import Nydus.Builder.Compact
import Nydus.Storage.ChunkMap
import Nydus.Storage.BlobStateMap
import Nydus.Lib.Bitmap
import Nydus.Storage.PersistMap
import Nydus.Rafs.TarfsChunk
import Nydus.Storage.CachedFile
import Nydus.Builder.Overlay
import Nydus.Builder.CompactPlan
import Nydus.Builder.TarTree
import Nydus.Rafs.BioVecV6
import Nydus.Storage.ChunkArray
import Nydus.Storage.ChunkExtend
import Nydus.Rafs.BioVecV5
import Nydus.Rafs.XattrV6
import Nydus.Builder.Stargz
import Nydus.Storage.IoMerge
import Nydus.Storage.IoRegion
import Nydus.Lib.Segments
import Nydus.Storage.CopyV
import Nydus.Storage.MetaFile
import Nydus.Utils.Crypt
import Nydus.Storage.RangeMap
import Nydus.Storage.CompressedLookup
import Nydus.Storage.ChunksUncompressed
import Nydus.Lib.BitField
import Nydus.Lib.FieldWrites
import Nydus.Lib.Runs
import Nydus.Lib.SortedMap
import Nydus.Storage.ChunkSetters
import Nydus.Utils.ZlibRandom
import Nydus.Storage.Zran
import Nydus.Utils.InodeBitmap
import Nydus.Builder.Prefetch
import Nydus.Lib.InsertionSort
import Nydus.Unpack.Pax
import Nydus.Lib.BinarySearch
import Nydus.Rafs.DirentV6
import Nydus.Rafs.Readdir
import Nydus.Utils.Verity
import Nydus.Service.BlockExport
import Nydus.Lib.Text
import Nydus.Storage.RegistryAuth
import Nydus.Rafs.DirectV6
import Nydus.Lib.IntervalTree
import Nydus.Service.BlockDevice
import Nydus.Storage.ZranChunks
import Nydus.Lib.Fsm
import Nydus.Service.Daemon
import Nydus.Lib.Channel
import Nydus.Lib.Tar
import Nydus.Storage.Toc
