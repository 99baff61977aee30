import GlusterFS.Locks.Correctness.FcntlWaiters
import GlusterFS.Locks.Correctness.InodelkReplies
import GlusterFS.Locks.Correctness.EntrylkQueue
import GlusterFS.Locks.Correctness.Ownership
import GlusterFS.Afr.Correctness.FdInterleaving
import GlusterFS.Afr.LockRange
import GlusterFS.Afr.Correctness.SourceSelection
import GlusterFS.Afr.Correctness.SelfHealEvidence
import GlusterFS.Afr.Correctness.SelfHealData
import GlusterFS.Dht.Correctness.HealLookup
import GlusterFS.Dht.Correctness.Listing
import GlusterFS.Dht.Correctness.RenameFailure
import GlusterFS.Inode.Correctness.PathRoundTrip
import GlusterFS.Dict.Correctness.RoundTrip
import GlusterFS.Dict.Correctness.Untrusted
import GlusterFS.Common.Dirent
import GlusterFS.QuickRead.Validation
import GlusterFS.Locks.Correctness.RootOwners
import GlusterFS.Server.Correctness.LockTable
import GlusterFS.Afr.Correctness.PosixLock
import GlusterFS.Afr.Correctness.ReadChild
import GlusterFS.Afr.Correctness.DeletedNames
import GlusterFS.Afr.SelfHeal.Trash
import GlusterFS.Afr.Correctness.MissingEntries
import GlusterFS.Afr.InodeRead
import GlusterFS.Afr.Correctness.EntryEvidence
import GlusterFS.Dht.Correctness.Rmdir
import GlusterFS.Dht.Correctness.Unlink
import GlusterFS.WriteBehind.Correctness.SendOrder
import GlusterFS.WriteBehind.Correctness.Errors
import GlusterFS.WriteBehind.Correctness.Progress
import GlusterFS.Stripe.Correctness.Readv
import GlusterFS.Stripe.Correctness.Writev
import GlusterFS.IoThreads.Correctness.Stranding
import GlusterFS.Storage.Concurrent
import GlusterFS.Client.Correctness.Replies
