import HdlDesk.Text.Blank
import HdlDesk.Text.Letters
import HdlDesk.Text.Lines
import HdlDesk.Text.Utf8
import HdlDesk.Text.Decimal
import HdlDesk.Json.Stored
import HdlDesk.SortedMap
import HdlDesk.Disk.Error
import HdlDesk.Error
import HdlDesk.Source.Extensions
import HdlDesk.Storage.Basic
import HdlDesk.Storage.Records
import HdlDesk.Artifact.Basic
import HdlDesk.Artifact.Cache
import HdlDesk.Document
import HdlDesk.InFlight
import HdlDesk.Recent
import HdlDesk.Settings
import HdlDesk.Desk.Action
import HdlDesk.Desk.Basic
import HdlDesk.Desk.Dispatch
import HdlDesk.Disk.Basic
import HdlDesk.Places
import HdlDesk.Source.Medium
import HdlDesk.Disk.Medium
import HdlDesk.Source.Loading
import HdlDesk.Storage.StateFile
import HdlDesk.Artifact.Switchboard
import HdlDesk.Work.Answer
import HdlDesk.CommandLine.Arguments
import HdlDesk.CommandLine.Run
import HdlDesk.CommandLine.Reach
import HdlDesk.Disk.Changes
import HdlDesk.Main
import HdlDesk.Proofs.Json.Literal
import HdlDesk.Proofs.Json.Spelling
import HdlDesk.Proofs.Json.Reading
import HdlDesk.Proofs.Json.Records
import HdlDesk.Proofs.Artifact.Coherent
import HdlDesk.Proofs.Desk.Moves
import HdlDesk.Proofs.Storage.Components
import HdlDesk.Proofs.Storage.Watched
import HdlDesk.Proofs.Recent
import HdlDesk.Proofs.Document.Restored
import HdlDesk.Proofs.Desk.Coherence
import HdlDesk.Proofs.Desk.Restart
import HdlDesk.Proofs.Desk.History
import HdlDesk.Proofs.Document.Interrupted
import HdlDesk.Proofs.Desk.Interrupted
import HdlDesk.Proofs.Storage.Laws
import HdlDesk.Proofs.Desk.Deeds
import HdlDesk.Proofs.Desk.Faults
import HdlDesk.Proofs.Desk.Unchanged
import HdlDesk.Proofs.Desk.Ownership
import HdlDesk.Proofs.Desk.Contents
import HdlDesk.Proofs.Desk.Exchange
import HdlDesk.Proofs.Desk.LateArrivals
import HdlDesk.Proofs.Desk.Openings
import HdlDesk.Proofs.Json.Entries
import HdlDesk.Proofs.Storage.Saving
import HdlDesk.Proofs.Disk.WorkingFolder
import HdlDesk.Proofs.Storage.LastSave
import HdlDesk.Proofs.Storage.Reopening
import HdlDesk.Proofs.Artifact.Delivery
import HdlDesk.Proofs.Work.Course
import HdlDesk.Proofs.Work.Accounts
import HdlDesk.Proofs.Work.Settling
import HdlDesk.Proofs.Artifact.Mailboxes
import HdlDesk.Proofs.Artifact.Receivers
import HdlDesk.Proofs.Json.Forms
import HdlDesk.Proofs.Desk.LazyEntries
import HdlDesk.Proofs.Storage.Unfailing
import HdlDesk.Proofs.Desk.Reopened
import HdlDesk.Proofs.Work.Resembling
import HdlDesk.Proofs.CommandLine.Processes
import HdlDesk.Proofs.Work.Requests
import HdlDesk.Proofs.Desk.Redelivery
import HdlDesk.Proofs.Desk.Clearing
import HdlDesk.Proofs.Desk.Panel
import HdlDesk.Proofs.Disk.Names
import HdlDesk.Proofs.Disk.Walks
import HdlDesk.Proofs.Disk.Altered
import HdlDesk.Proofs.Disk.Approach
import HdlDesk.Proofs.Disk.Siblings
import HdlDesk.Proofs.Disk.MissingFolders
import HdlDesk.Proofs.Storage.Drafts
import HdlDesk.Proofs.Storage.Placed
import HdlDesk.Proofs.Storage.Damaged
import HdlDesk.Proofs.Source.Configured
import HdlDesk.Proofs.Text.Utf8
import HdlDesk.Proofs.Source.Visits
import HdlDesk.Proofs.Source.Folders
import HdlDesk.Proofs.Disk.Medium
import HdlDesk.Proofs.Source.Alone
import HdlDesk.Proofs.Source.Deep
import HdlDesk.Proofs.Text.LineEnds
import HdlDesk.Proofs.Source.Terminators
