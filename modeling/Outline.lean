import Outline.Main
import Outline.Encoding.Drag
import Outline.Rehearsal
import Outline.Proofs.Runs
import Outline.Proofs.Progress
import Outline.Proofs.Histories
import Outline.Proofs.StaleReads
import Outline.Proofs.Commutation
import Outline.Proofs.Returns
import Outline.Proofs.Encodings
import Outline.Proofs.Findings
import Outline.Proofs.Independence
import Outline.Proofs.Adjustments
import Outline.Proofs.Midpoints
import Outline.Proofs.Handovers
import Outline.Proofs.Deltas
import Outline.Proofs.Replacements
import Outline.Proofs.Confluence
import Outline.Proofs.Shifts
import Outline.Proofs.Slots
import Outline.Proofs.Searches
import Outline.Proofs.Checks
import Outline.Proofs.Deletions
import Outline.Proofs.MovedPaths
import Outline.Proofs.NewNames
import Outline.Proofs.LastPlaces
import Outline.Proofs.Idling
import Outline.Proofs.Placements
import Outline.Proofs.LoadedRows
import Outline.Proofs.Migrations
import Outline.Proofs.Aiming
import Outline.Proofs.Drawings
import Outline.Proofs.Reversals
import Outline.Proofs.Descents
