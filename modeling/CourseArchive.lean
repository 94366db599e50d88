import CourseArchive.PintOS.Library.ListRuns
import CourseArchive.PintOS.Library.HashRuns
import CourseArchive.PintOS.Library.Arithmetic
import CourseArchive.PintOS.Threads.HeapRuns
import CourseArchive.PintOS.Threads.PageRaces
import CourseArchive.PintOS.Threads.Conditions
import CourseArchive.PintOS.Filesys.CacheProofs.Transparency
import CourseArchive.PintOS.Filesys.CacheProofs.Shown
import CourseArchive.MmAlloc.GiveBack
import CourseArchive.PintOS.Devices.AlarmClock
import CourseArchive.PintOS.Userprog.WaitProtocol
import CourseArchive.PintOS.Userprog.ArgumentLayout
import CourseArchive.PintOS.Userprog.DescriptorTable
import CourseArchive.PintOS.Userprog.ReadPermissions
import CourseArchive.PintOS.Filesys.Directory
import CourseArchive.PintOS.Filesys.BlockMap.ByteArray
import CourseArchive.PintOS.Filesys.BlockMap.Deallocation
import CourseArchive.Bgp.RoutingTable
import CourseArchive.Bgp.SessionWalk
import CourseArchive.Bgp.JoinedRuns
import CourseArchive.Bgp.ValleyFree
import CourseArchive.Bgp.Preference
import CourseArchive.Bgp.Withdrawal
import CourseArchive.Bgp.FrameBounds
import CourseArchive.Dhcp.Uniqueness
import CourseArchive.Dhcp.FreePool
import CourseArchive.Dhcp.LeaseExpiry
import CourseArchive.Dhcp.PoolPrefix
import CourseArchive.HolePunching.Translation
import CourseArchive.HolePunching.Handshake
import CourseArchive.HolePunching.Checksum
import CourseArchive.HolePunching.TtlBound
import CourseArchive.HttpServer.WorkQueue
import CourseArchive.MmAlloc.DoubleFree
import CourseArchive.Shell.Redirection
import CourseArchive.HolePunching.MessageText
import CourseArchive.HttpServer.Files
import CourseArchive.PintOS.Filesys.BlockMap.RequestRuns
