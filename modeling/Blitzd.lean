import Blitzd.Lib.Bytes
import Blitzd.Lib.Numerals
import Blitzd.Lib.ModPow
import Blitzd.Lib.KeyMap
import Blitzd.Lib.Heap
import Blitzd.Lib.Run
import Blitzd.Utils.Stream
import Blitzd.Utils.CString
import Blitzd.Crypto.Sha
import Blitzd.Crypto.Srp3
import Blitzd.Crypto.Srp3Agree
import Blitzd.Crypto.Srp3Buffers
import Blitzd.Storage.Sqlite
import Blitzd.Cache.UserItem
import Blitzd.Cache.UserCache
import Blitzd.Cache.UserLoad
import Blitzd.Cache.UserLookup
import Blitzd.Cache.UserSave
import Blitzd.Cache.FriendList
import Blitzd.Cache.FriendLoad
import Blitzd.Cache.Credentials
import Blitzd.Cache.ChannelCache
import Blitzd.Cache.ChannelConfig
import Blitzd.Core.Client
import Blitzd.Core.Pool
import Blitzd.Core.Lobby
import Blitzd.Core.ChannelMembers
import Blitzd.Core.GameMembers
import Blitzd.Core.Membership
import Blitzd.Core.Capacity
import Blitzd.Core.Roster
import Blitzd.Core.Advert
import Blitzd.Plugins.Logon
import Blitzd.Plugins.LogonStep
import Blitzd.Plugins.LogonRun
import Blitzd.Plugins.OldReplay
import Blitzd.Plugins.LogonPool
import Blitzd.Plugins.Accounts
import Blitzd.Plugins.LogonSecret
import Blitzd.Plugins.LogonCredentials
import Blitzd.Core.OnRecv
import Blitzd.Core.Segmentation
import Blitzd.Packets.PacketBNet
import Blitzd.Packets.BNet
import Blitzd.Packets.Baal
import Blitzd.Core.CommandFriend
import Blitzd.Core.FriendFlags
import Blitzd.Core.FriendMirror
import Blitzd.Plugins.ReadUserData
import Blitzd.Plugins.UserCheck
import Blitzd.Baald.Realm
import Blitzd.Baald.Handshake
import Blitzd.Lib.Feed
import Blitzd.Lib.Shift
import Blitzd.Plugins.Dispatch
import Blitzd.Lib.Intervals
import Blitzd.Lib.Memory
import Blitzd.Shald.MemCache
import Blitzd.Shald.FreeList
import Blitzd.Shald.Coalesce
import Blitzd.Shald.Tiling
import Blitzd.Shald.Usage
import Blitzd.Cache.CheckRevision
import Blitzd.Core.Advertised
import Blitzd.Core.Payloads
import Blitzd.Lib.Reader
import Blitzd.Packets.AdvListEx
import Blitzd.Plugins.AuthCheck
import Blitzd.Plugins.GetAdvListEx
import Blitzd.Plugins.ListChannel
import Blitzd.Plugins.WriteUserData
import Blitzd.Plugins.Leftover
import Blitzd.Shald.FirstFit
import Blitzd.Cache.MissingId
import Blitzd.Lib.Scan
import Blitzd.Core.Command
import Blitzd.Cache.NewsCache
import Blitzd.Cache.NewsItems
import Blitzd.Games.LadderData
import Blitzd.Games.LadderTables
import Blitzd.Games.LadderInfo
import Blitzd.Lib.Path
import Blitzd.Cache.FileCache
import Blitzd.Plugins.FileReq
import Blitzd.Lib.Blocks
import Blitzd.Crypto.OldHash
import Blitzd.Lib.Tokens
import Blitzd.Text.Parser
import Blitzd.Cache.CacheFunc
import Blitzd.Utils.StreamOps
import Blitzd.Utils.StreamValues
import Blitzd.Baald.PacketLoop
import Blitzd.Crypto.Sha1Standard
import Blitzd.Core.World
import Blitzd.Core.Chat
import Blitzd.Core.LobbyFrame
import Blitzd.Plugins.Suites
import Blitzd.Plugins.Acts
import Blitzd.Plugins.SuitesActs
import Blitzd.Plugins.Daemon
import Blitzd.Plugins.Hearing
import Blitzd.Plugins.Isolation
import Blitzd.Plugins.Admission
import Blitzd.Plugins.Realms
import Blitzd.Lib.Tally
import Blitzd.Utils.SharedPtr
import Blitzd.Network.TcpClient
import Blitzd.Network.SocketServer
import Blitzd.Cache.FriendSets
import Blitzd.Plugins.Ledger
import Blitzd.Plugins.Restart
import Blitzd.Plugins.Deeds
import Blitzd.Plugins.Bookkeeping
