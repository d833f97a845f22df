import Rabbitbone.Spec.ShellCorrect
import Rabbitbone.Spec.RamfsRename
import Rabbitbone.Spec.Ext4.MountSuper
import Rabbitbone.Spec.Ext4.RenameTree
import Rabbitbone.Spec.Ext4.RenameFaults
import Rabbitbone.Spec.Ext4.GroupIndex
import Rabbitbone.Spec.Sys.Privilege
import Rabbitbone.Spec.Sys.PipeStream
import Rabbitbone.Spec.Sys.FileReaders
import Rabbitbone.Spec.Proc.ExecPermission
import Rabbitbone.Spec.Proc.SignalMask
import Rabbitbone.Spec.Proc.ChildSignal
import Rabbitbone.Spec.Proc.WaitStatus
import Rabbitbone.Spec.Mm.KmemRun
import Rabbitbone.Spec.Vfs.MountRun
import Rabbitbone.Spec.Smp.XcallOnce
import Rabbitbone.Spec.Printf
import Rabbitbone.Spec.Timer
import Rabbitbone.Spec.Devfs
import Rabbitbone.Spec.Ext4.AllocScan
import Rabbitbone.Spec.ShellWords
import Rabbitbone.Spec.Tarfs
import Rabbitbone.Spec.User.Heap
import Rabbitbone.Spec.Ext4.ExtentMap
import Rabbitbone.Spec.Proc.Handlers
import Rabbitbone.Spec.Proc.Mmap
import Rabbitbone.Spec.Mm.FrameRefs
import Rabbitbone.Spec.Proc.Pids
import Rabbitbone.Spec.Proc.States
