import MemosNote.Library.Kleene
import MemosNote.Library.Pieces
import MemosNote.Library.Like
import MemosNote.Library.Page
import MemosNote.Library.TreeWalk
import MemosNote.Library.Utf8
import MemosNote.Library.Utf8Boundaries
import MemosNote.Library.Frames
import MemosNote.Library.JsonGrammar
import MemosNote.Library.JsonObject
import MemosNote.Library.SearchParams
import MemosNote.Library.Channel
import MemosNote.Library.Precedence
import MemosNote.Library.Ledger
import MemosNote.Library.SyncMap
import MemosNote.Library.Placeholder
import MemosNote.Filter.Bindings
import MemosNote.Filter.Engine
import MemosNote.Filter.ListMembership
import MemosNote.Filter.Comprehension
import MemosNote.Filter.ConstantFolding
import MemosNote.Filter.Placeholders
import MemosNote.Filter.BoolFields
import MemosNote.Filter.Rows
import MemosNote.Filter.TextMatch
import MemosNote.Auth.RefreshRotation
import MemosNote.Api.Shortcut
import MemosNote.Library.CacheAside
import MemosNote.Library.BoundedSelection
import MemosNote.Library.OffsetPages
import MemosNote.Library.Collect
import MemosNote.Store.MemoStore
import MemosNote.Runner.S3Presign
import MemosNote.Api.AttachmentPages
import MemosNote.Store.Cache
import MemosNote.Store.CacheItems
import MemosNote.Store.CacheEviction
import MemosNote.Api.MemoDeletion
import MemosNote.Library.Program
import MemosNote.Library.RecursiveQuery
import MemosNote.Store.DeleteUser
import MemosNote.Store.MigrationCrash
import MemosNote.Store.MemoDrivers
import MemosNote.Api.CommentVisibility
import MemosNote.Api.PayloadDerivation
import MemosNote.Api.LinkEffects
import MemosNote.Api.UpdateAtomicity
import MemosNote.Api.IdentityProvider
import MemosNote.Api.LinkEndpoints
import MemosNote.Api.LinkRepetition
import MemosNote.Api.MotionGroups
import MemosNote.Api.RequestOrder
import MemosNote.Api.NilDereference
import MemosNote.Api.UpdateEffects
import MemosNote.Api.UserStats
import MemosNote.Api.RelationBatches
import MemosNote.Library.Base64
import MemosNote.Api.MemoListing
import MemosNote.Api.CommentThreads
import MemosNote.Api.MentionNotifications
import MemosNote.Api.MentionRuns
import MemosNote.Api.NeteasePayloads
import MemosNote.Api.FirstUser
import MemosNote.Api.SSOLogin
import MemosNote.Api.SettingRoundTrip
import MemosNote.Api.AISettings
import MemosNote.Scheduler.Cron
import MemosNote.Scheduler.Lifecycle
import MemosNote.Scheduler.Next
import MemosNote.Api.SSEHub
import MemosNote.Web.DayFilter
import MemosNote.Web.LiveMemoRefresh
import MemosNote.Web.MemoEditor
import MemosNote.Web.EditorSaves
import MemosNote.Web.MemoFilter
import MemosNote.Web.MentionLexers
import MemosNote.Web.OptimisticMemo
import MemosNote.Webhook.SafeDial
import MemosNote.Web.TagGrammar
import MemosNote.Web.TagEscape
import MemosNote.Web.TagLexers
import MemosNote.Email.Message
import MemosNote.Markdown.Snippet
import MemosNote.Rss.ItemTitle
import MemosNote.MotionPhoto.Detection
import MemosNote.Webhook.AddressText
import MemosNote.Web.VisualItems
import MemosNote.HttpGetter.SecureDial
import MemosNote.Web.TagTree
import MemosNote.Web.TaskLists
import MemosNote.Mcp.SchemaRefs
import MemosNote.Web.DraftCache
import MemosNote.Web.RedirectSafety
import MemosNote.Web.TokenRefresh
import MemosNote.Auth.SerialRotation
import MemosNote.Auth.RefreshSession
import MemosNote.Mcp.PathParameters
import MemosNote.Web.TaskEdits
import MemosNote.Web.MusicPlayer
import MemosNote.Web.PlayerRestore
import MemosNote.Web.PlayerResponses
import MemosNote.FileServer.DerivedFiles
import MemosNote.FileServer.DerivedCleanup
import MemosNote.FileServer.AttachmentPermission
import MemosNote.Api.MemoShares
import MemosNote.Api.ReadPaths
import MemosNote.Api.CommentPages
import MemosNote.Auth.Authenticator
import MemosNote.Auth.Gate
