import Parvane.Agenda.Free
import Parvane.Agenda.Future
import Parvane.Agenda.Index
import Parvane.Agenda.Layout
import Parvane.Agenda.Moving
import Parvane.Agenda.TwoNotes
import Parvane.Anonymous.Accounts
import Parvane.Archive.Sizes
import Parvane.Cloud.Forest
import Parvane.Cloud.Names
import Parvane.Codec.Requests
import Parvane.Engine.Direct
import Parvane.Engine.Granting
import Parvane.Engine.GroupKeys
import Parvane.Engine.KeySharing
import Parvane.Engine.Padding
import Parvane.Engine.Revoking
import Parvane.Engine.SeenGuard
import Parvane.Group.Invites
import Parvane.Group.Links
import Parvane.Group.Writers
import Parvane.Guard.Contents
import Parvane.History.Deletion
import Parvane.History.Marks
import Parvane.History.Months
import Parvane.History.Packing
import Parvane.HistoryServer.Pages
import Parvane.Identity.Recovery
import Parvane.Identity.Revocation
import Parvane.Inbox.CursorRuns
import Parvane.Inbox.Paging
import Parvane.Notes.Texts
import Parvane.Packs.ContentHash
import Parvane.Planner.GuardRestore
import Parvane.Planner.Live
import Parvane.Planner.Stamping
import Parvane.Shared.Uploads
import Parvane.State.DiffConverges
import Parvane.State.HostChanges
import Parvane.State.Scheduled
