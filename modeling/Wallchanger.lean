import Wallchanger.Foundation.Run
import Wallchanger.Foundation.Keyed
import Wallchanger.Foundation.Directory
import Wallchanger.ChangeLib.Text
import Wallchanger.ChangeLib.WallCache
import Wallchanger.ChangeLib.WallCacheLibrary
import Wallchanger.ChangeLib.LibraryStep
import Wallchanger.ChangeLib.JsonHelper
import Wallchanger.ChangeLib.SavedFile
import Wallchanger.ChangeLib.LibraryFile
import Wallchanger.ChangeLib.ActiveCollection
import Wallchanger.ChangeLib.ItemInvariant
import Wallchanger.ChangeLib.Crc32
import Wallchanger.ChangeLib.PathTable
import Wallchanger.ChangeLib.SaveInvariant
import Wallchanger.ChangeApp.PathIntegrity
import Wallchanger.Net.Message
import Wallchanger.Net.Connection
import Wallchanger.Net.Framing
import Wallchanger.Net.BodyStack
import Wallchanger.Net.Outbound
import Wallchanger.ChangeApp.NextWall
import Wallchanger.ChangeApp.FlagInvariant
import Wallchanger.ChangeLib.MessageType
import Wallchanger.ChangeService.ChangeState
import Wallchanger.Net.ServerInterface
import Wallchanger.ChangeService.FrontEnds
import Wallchanger.ChangeService.ChangeServer
import Wallchanger.ChangeService.Handshake
import Wallchanger.ChangeApp.ChangeClient
import Wallchanger.ChangeService.Replies
import Wallchanger.ChangeService.Survival
import Wallchanger.ChangeLib.ItemOrder
import Wallchanger.ChangeLib.OperationSpec
import Wallchanger.ChangeLib.RenameStore
import Wallchanger.ChangeLib.SortedItems
import Wallchanger.ChangeApp.ItemPaths
import Wallchanger.ChangeApp.CreateCollection
import Wallchanger.ChangeApp.PreviousWall
import Wallchanger.ChangeLib.ItemSpot
import Wallchanger.ChangeLib.CurrentSpot
import Wallchanger.ChangeApp.MarkFavorate
import Wallchanger.ChangeLib.BitwiseCrc
import Wallchanger.Net.BurstError
import Wallchanger.Net.DeadConnections
import Wallchanger.ChangeLib.LinuxKnownFolders
import Wallchanger.ChangeLib.UserDirs
import Wallchanger.ChangeLib.UserDirEntries
import Wallchanger.ChangeLib.ErrorCodes
import Wallchanger.ChangeLib.ViewedCharacters
import Wallchanger.ChangeApp.Looking
import Wallchanger.ChangeService.Queries
import Wallchanger.Foundation.Calls
import Wallchanger.Foundation.Lookup
import Wallchanger.ChangeLib.LibraryMap
import Wallchanger.ChangeApp.CommandProgress
import Wallchanger.ChangeService.Serving
import Wallchanger.Net.ConnectQueue
import Wallchanger.ChangeApp.SavedPaths
import Wallchanger.ChangeService.PingTime
import Wallchanger.ChangeService.GalleryItems
import Wallchanger.ChangeService.ServiceWork
import Wallchanger.ChangeService.Sessions
