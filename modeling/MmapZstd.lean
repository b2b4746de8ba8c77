import MmapZstd.Lib.Pages
import MmapZstd.Bench
import MmapZstd.Budget
import MmapZstd.EndOfSource
import MmapZstd.Ownership
import MmapZstd.Residency
import MmapZstd.Termination
import MmapZstd.Transparency
import MmapZstd.Truncation
import MmapZstd.ScratchReader
import MmapZstd.WholeSource
import MmapZstd.Prototypes
import MmapZstd.Smaps
import MmapZstd.Smoke
import MmapZstd.HugepagePool
import MmapZstd.Interleaving
