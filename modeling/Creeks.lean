import Creeks.Process.Exec
import Creeks.Process.Reaping
import Creeks.Process.RoundRobin
import Creeks.Process.Sigreturn
import Creeks.Mm.SharedHalf
import Creeks.User.MallocSafety
import Creeks.File.Entries
import Creeks.File.OpenCounter
import Creeks.Kmalloc.Growth
import Creeks.Process.Slot
import Creeks.Process.Readers
import Creeks.File.Pwd
import Creeks.Process.Chunks
import Creeks.File.Reading
import Creeks.File.WorkingDirectory
import Creeks.File.Resolution
import Creeks.Kmalloc.Used
import Creeks.Process.Validation
import Creeks.Mm.Tlb
import Creeks.Mm.ListEnds
import Creeks.Process.ChildLists
import Creeks.Mm.UserMap
import Creeks.Drive.Transfer
import Creeks.File.Malformed
import Creeks.Ext2.Inode
import Creeks.User.MallocLimits
import Creeks.Mm.Supply
import Creeks.Process.Break
import Creeks.Process.Progress
import Creeks.Ext2.ReadFile
import Creeks.Process.Program
import Creeks.Process.Confinement
import Creeks.Mm.Mapping
import Creeks.Process.Handler
import Creeks.Ext2.Contents
import Creeks.File.Sharing
import Creeks.Process.InputBounds
import Creeks.Text.Printk
import Creeks.User.Sprintf
import Creeks.Screen.Putcar
import Creeks.User.Discipline
import Creeks.User.Ls
import Creeks.User.Mkdir
import Creeks.File.AddFile
import Creeks.Process.Leak
import Creeks.Ext2.CreateInode
import Creeks.User.Atoi
import Creeks.Screen.Page
import Creeks.Text.Message
import Creeks.Process.Keyboard
import Creeks.Mm.Flags
import Creeks.Mm.GiveBack
import Creeks.Process.Space
import Creeks.Process.Apart
import Creeks.Process.Arrival
import Creeks.Process.Isolation
import Creeks.Mm.Tally
import Creeks.Process.Accounts
import Creeks.Process.Holdings
import Creeks.Process.Pushing
import Creeks.Process.Stocked
import Creeks.Process.Arguments
import Creeks.User.Cat
