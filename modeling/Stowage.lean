import Stowage.Main
import Stowage.Proofs.Disk.Touching
import Stowage.Proofs.Relocation.Dropping
import Stowage.Proofs.Disk.Sound
import Stowage.Proofs.Disk.Changes
import Stowage.Proofs.Disk.Effects
import Stowage.Proofs.Path.Names
import Stowage.Proofs.Relocation.Moving
import Stowage.Proofs.Relocation.Carrying
import Stowage.Proofs.Relocation.Outcomes
import Stowage.Proofs.Disk.Walks
import Stowage.Proofs.Path.Endings
import Stowage.Proofs.Survey.Sources
import Stowage.Proofs.Execution.Handling
import Stowage.Proofs.Execution.Turns
import Stowage.Proofs.Execution.Relocating
import Stowage.Proofs.Relocation.Deciding
import Stowage.Proofs.Execution.Rewriting
import Stowage.Proofs.Execution.Accounting
import Stowage.Proofs.Execution.Conserving
import Stowage.Proofs.Execution.Editing
import Stowage.Proofs.Disk.Checking
import Stowage.Proofs.Imports.Meeting
import Stowage.Proofs.Imports.Spans
import Stowage.Proofs.Imports.Splicing
import Stowage.Proofs.Imports.Respelling
import Stowage.Proofs.Imports.Parts
import Stowage.Proofs.Imports.Comments
import Stowage.Proofs.Execution.Trailing
import Stowage.Proofs.Execution.Following
import Stowage.Proofs.Execution.Knowing
import Stowage.Proofs.Execution.Aliasing
import Stowage.Proofs.Path.Parents
import Stowage.Proofs.Disk.Growing
import Stowage.Proofs.Relocation.Spreading
import Stowage.Proofs.Relocation.Labels
import Stowage.Proofs.Execution.Foretelling
import Stowage.Proofs.Disk.Seeing
import Stowage.Proofs.Survey.Covering
import Stowage.Proofs.Survey.Settling
import Stowage.Proofs.Relocation.Leaving
import Stowage.Proofs.Relocation.Landing
import Stowage.Proofs.Execution.Resurveying
import Stowage.Proofs.Relocation.Noting
import Stowage.Proofs.Execution.Tallying
import Stowage.Proofs.Report.Agreeing
import Stowage.Proofs.Relocation.Failing
import Stowage.Proofs.Disk.Reaching
import Stowage.Proofs.Relocation.Succeeding
import Stowage.Proofs.Relocation.Bringing
import Stowage.Proofs.Relocation.Contending
import Stowage.Proofs.Path.Joints
import Stowage.Proofs.Disk.Spelling
import Stowage.Proofs.Disk.Listing
import Stowage.Proofs.Survey.Foreseeing
import Stowage.Proofs.Imports.Matching
import Stowage.Proofs.Imports.Gathering
import Stowage.Proofs.Imports.Finding
import Stowage.Proofs.Imports.Returns
import Stowage.Proofs.Imports.LineEnds
import Stowage.Proofs.Path.Below
import Stowage.Proofs.Path.Stems
import Stowage.Proofs.Specifier.Ways
import Stowage.Proofs.Specifier.Recognising
import Stowage.Proofs.Specifier.Returning
import Stowage.Proofs.Specifier.Anchoring
import Stowage.Proofs.Path.Keeping
import Stowage.Proofs.Path.Extending
import Stowage.Proofs.Specifier.Confining
import Stowage.Proofs.Path.Tables
import Stowage.Proofs.Specifier.Planning
import Stowage.Proofs.Imports.Leading
import Stowage.Proofs.Imports.Pointing
import Stowage.Proofs.Imports.Around
import Stowage.Proofs.Imports.Rereading
import Stowage.Proofs.Execution.Quoting
import Stowage.Proofs.Path.Cancelling
import Stowage.Proofs.Classification.Growing
import Stowage.Proofs.Disk.Exploring
import Stowage.Proofs.Survey.Unreadable
import Stowage.Proofs.Execution.Sparing
import Stowage.Proofs.Disk.Adding
import Stowage.Proofs.Disk.Dangling
import Stowage.Proofs.Relocation.Naming
import Stowage.Proofs.Specifier.Aiming
import Stowage.Proofs.Execution.Arriving
