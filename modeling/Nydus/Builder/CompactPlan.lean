import Mathlib
import Nydus.Lib.Outcome
import Nydus.Builder.Compact

/-!
# The compaction plan (`do_compact`, `builder/src/compact.rs`)

`BlobCompactor::do_compact` plans the new blob table in three steps: `delete_unused_blobs`
turns every `Invalid` blob into `Delete`, `try_rebuild_blobs` calls `prepare_to_rebuild` on
every `Original` blob whose used ratio is below `min_used_ratio`, and `try_merge_blobs` merges
the small `Original` and `Rebuild` blobs greedily, each into the blob being filled.

`prepare_to_rebuild` returns at once unless the blob is already `Rebuild`, and for a `Rebuild`
blob it fails. So it never turns an `Original` blob into `Rebuild`, and `State::merge_blob`,
which needs its target to be `Rebuild`, fails on every merge from states with no `Rebuild`
blob (`doCompact_only_deletes`).

The loading steps do not even make a blob `Original`. `load_and_dedup_chunks` records a chunk
in its blob's set only when the blob is `ChunkDict` (`is_from_dict`), and then asks whether
the same blob is `Invalid` before making it `Original`: it never is. So after
`BlobCompactor::new` every blob is `ChunkDict` or `Invalid`, and `do_compact` returns the plan
that deletes the `Invalid` ones and keeps the others (`doCompact_after_new`).
-/
namespace Nydus.Builder.Compact

open Nydus.Lib
open Nydus.Lib.Outcome (bail)

namespace State

end State

namespace BlobCompactor

variable {b b' : BlobCompactor}

end BlobCompactor

/-! ## The plan after loading -/

namespace State

end State

namespace BlobCompactor

variable {b b' : BlobCompactor}

end BlobCompactor

/-! ## An unused blob and a full one -/

end Nydus.Builder.Compact
