import PcloudClient.Papi.Request
import PcloudClient.Papi.ResponseProofs
import PcloudClient.Pintervaltree.Runs
import PcloudClient.FsUpload.RunTasks
import PcloudClient.Pfs.Rounds
import PcloudClient.Plocks.Exclusion
import PcloudClient.FsCrypto.SectorMap
import PcloudClient.Pnetlibs.ApiPool
import PcloudClient.Ppagecache.SharedApiProofs
import PcloudClient.Ppagecache.FlushRunning
import PcloudClient.Ppagecache.CacheFile
import PcloudClient.Ppagecache.AccountingRuns
import PcloudClient.Ppagecache.ToCacheProofs
import PcloudClient.Ppagecache.ReadEncryptedRuns
import PcloudClient.Pasyncnet.DemuxRuns
import PcloudClient.Pfstasks.Ordering
import PcloudClient.Pfsfolder.Agreement
import PcloudClient.Pfsfolder.Permissions
import PcloudClient.Pcloudcrypto.SessionSafety
import PcloudClient.Pfstasks.SendOrder
import PcloudClient.Pfs.LockBalance
import PcloudClient.Pcache.MaxKeys
import PcloudClient.Ptimer.Runs
import PcloudClient.Plocalscan.MoveSync
import PcloudClient.Ppathstatus.SyncProofs
import PcloudClient.Pfstasks.StatusProofs
import PcloudClient.FsCrypto.LogHash
import PcloudClient.Pcompression.Fifo
import PcloudClient.Pcompression.Pending
import PcloudClient.Plibs.TaskRuns
import PcloudClient.Pfs.OpenfilesProofs
import PcloudClient.Pdownload.Lifecycle
import PcloudClient.Ppathstatus.DriveEncrypted
import PcloudClient.Ppagecache.UrlCacheRuns
import PcloudClient.Pmemlock.Runs
import PcloudClient.Plibs.Base64
import PcloudClient.Crypto.TextDecode
import PcloudClient.Crypto.Ctr
import PcloudClient.Pnetlibs.Adler
import PcloudClient.FsCrypto.PauseTask
import PcloudClient.FsCrypto.WriteRange
import PcloudClient.Pfs.Throttle
import PcloudClient.FsCrypto.ReadModifiedProofs
import PcloudClient.Pfs.IndexFileProofs
import PcloudClient.Pnetlibs.ChecksumHashProofs
import PcloudClient.Ppathstatus.PrefixOf
import PcloudClient.Plibs.Transaction
import PcloudClient.Ppagecache.RangeNext
import PcloudClient.FsCrypto.Recovery
